import Microtel.Pipeline.Exporter

/-!
The rules for `BatchOptions` that `config::Validate` and
`SdkProvider::SetBatchOptions` share (`src/common/config/config_validator.cpp`),
and the part of the exporter's configuration that `SdkBuilder` takes from them
(`src/sdk/sdk_builder.cpp`, `src/exporter/otlp_exporter.hpp`).
-/

namespace Microtel.Sdk

open Pipeline

structure BatchOptionsFault where
  field : String
  message : String
  deriving DecidableEq, Repr

def checkBatchOptions (opts : BatchOptions) : Option BatchOptionsFault :=
  if opts.maxQueueSize = 0 then
    some { field := "sdk.max_queue_size", message := "max_queue_size must be greater than zero" }
  else if opts.maxExportBatchSize = 0 then
    some {
      field := "sdk.max_export_batch_size"
      message := "max_export_batch_size must be greater than zero" }
  else if opts.maxQueueSize < opts.maxExportBatchSize then
    some {
      field := "sdk.max_export_batch_size"
      message := "max_export_batch_size must not exceed max_queue_size" }
  else if opts.scheduleDelay ≤ 0 then
    some { field := "sdk.schedule_delay_ms", message := "schedule_delay must be greater than zero" }
  else none

theorem checkBatchOptions_eq_none_iff (opts : BatchOptions) :
    checkBatchOptions opts = none ↔
      0 < opts.maxExportBatchSize ∧ opts.maxExportBatchSize ≤ opts.maxQueueSize ∧
        0 < opts.scheduleDelay := by
  unfold checkBatchOptions
  split
  · simp
    omega
  · split
    · simp
      omega
    · split
      · simp
        omega
      · split
        · simp
          omega
        · simp
          omega

example : checkBatchOptions {} = none := by decide

/-- How many full processor batches the trace exporter's queue holds. -/
def kQueuedFullBatches : Nat := 256

def queuedSpanBudget (maxExportBatchSize : Nat) : Nat := kQueuedFullBatches * maxExportBatchSize

/-- `RetryPolicyConfig::max_attempts`, which has no configuration of its own. -/
def kMaxAttempts : Nat := 5

/-- `TraceExporterConfig`: fixed when the provider is built. -/
def traceExporterConfig (batch : BatchOptions) : OtlpExporterConfig where
  maxQueueSize := queuedSpanBudget batch.maxExportBatchSize
  maxQueuedSpans := queuedSpanBudget batch.maxExportBatchSize
  maxSpansPerRequest := batch.maxExportBatchSize
  maxRequestBytes := 0
  maxAttempts := kMaxAttempts

end Microtel.Sdk
