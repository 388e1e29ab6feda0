import Microtel.Lib.Threads
import Microtel.Pipeline.Flush
import Microtel.Sdk.BatchOptions

/-!
`SdkProvider` (`src/sdk/sdk_provider.cpp`): its trace pipeline, the metric reader
and the log processor that `GetMeter` and `GetLogger` build when first asked, the
two setters that retune them, and `Shutdown`. Any number of calls run at once.
Every access to the shutdown flag, every critical section and every call into
a component is one step. What `Shutdown` calls outside of the trace pipeline, the
reader and the log processor answers as it likes.
-/

namespace Microtel.Sdk

open Pipeline

variable {ρ : Type}

/-- A metric reader or a log processor, with its worker thread. -/
structure Component (τ : Type) where
  /-- What a retune sets. -/
  setting : τ
  shutdown : Bool := false
  running : Bool := true
  /-- Its `Shutdown` found the timeout over and did not wait for the worker. -/
  abandoned : Bool := false
  deriving DecidableEq, Repr

/-- What the provider was built with. -/
structure Wiring where
  exportChannel : Bool := false
  metricExporter : Bool := true
  logExporter : Bool := true
  batchSpanProcessor : Bool := true
  transport : Bool := true
  deriving DecidableEq, Repr

inductive Request
  | getMeter (name version : Bytes)
  | getLogger (name version : Bytes)
  | setBatchOptions (opts : BatchOptions)
  | setMetricInterval (interval : Int)
  | shutdown
  deriving DecidableEq, Repr

/-- How far a `Shutdown` is: before the access named. -/
inductive ShutdownPc
  | stopSpans
  | joinSpans
  /-- `MetricReaderPtr`. -/
  | findReader
  | stopReader
  | joinReader
  | stopMetricExporter
  /-- `LogProcessorPtr`. -/
  | findLogs
  | stopLogs
  | joinLogs
  | stopLogExporter
  | stopExporter
  | awaitExporter (waiter : Nat)
  | joinExporter (answer : Status)
  | close
  deriving DecidableEq, Repr

inductive Answer
  | status (s : Status)
  /-- The no-op meter or logger. -/
  | noop
  /-- The meter or logger of that key. -/
  | entry (key : Bytes)
  | threw
  deriving DecidableEq, Repr

inductive Pc
  /-- `GetMeter` or `GetLogger` before its critical section, with the flag as it was read. -/
  | building (shutDown : Bool)
  | retuneSpans
  | seedLogs
  | retuneLogs
  | seedInterval
  | retuneReader
  /-- `Shutdown`, with the status folded so far. -/
  | shuttingDown (pc : ShutdownPc) (status : Status)
  | returned (answer : Answer)
  deriving DecidableEq, Repr

structure Call where
  request : Request
  pc : Pc
  deriving DecidableEq, Repr

/-- The setters that overlap, for the statements only: no step reads it. Each
list is in the order of the update before. -/
structure Overlap where
  /-- The `SetBatchOptions` calls that retuned the spans and have not seeded the logs. -/
  seeding : List Nat := []
  /-- Those that seeded the logs and have not retuned the log processor. -/
  retuning : List Nat := []
  /-- The `SetMetricInterval` calls that stored the interval and have not retuned the reader. -/
  rereading : List Nat := []
  deriving DecidableEq, Repr

structure SdkProvider (ρ : Type) where
  wiring : Wiring
  trace : TracePipeline ρ
  shutDown : Bool := false
  /-- Whether there is a `MetricProducer`. -/
  metricProducer : Bool := false
  metricInterval : Int
  metricReader : Option (Component Int) := none
  meters : List Bytes := []
  logBatchOpts : BatchOptions
  logPipeline : Option (Component BatchOptions) := none
  /-- Whether `m_log_batch_processor` points to the processor of the log pipeline. -/
  logBatchProcessor : Bool := false
  loggers : List Bytes := []
  spansAbandoned : Bool := false
  shutdownTimeouts : Nat := 0
  calls : List Call := []
  overlap : Overlap := {}

/-- The worse of two statuses of a shutdown. -/
def worseOf (a b : Status) : Status :=
  if a = .failed ∨ b = .failed then .failed
  else if a = .timedOut ∨ b = .timedOut then .timedOut
  else if a = .completed ∨ b = .completed then .completed
  else a

/-- The key of a meter or a logger: name and version with a NUL between them. -/
def scopeKey (name version : Bytes) : Bytes := name ++ 0 :: version

def insertKey (key : Bytes) (keys : List Bytes) : List Bytes :=
  if key ∈ keys then keys else keys ++ [key]

/-- Where an exception of `GetMeter` or `GetLogger` leaves its critical section. -/
inductive ThrowPoint
  /-- Before anything is stored. -/
  | first
  /-- After the producer or the pipeline is stored, before the reader is or before
  the log processor is published. -/
  | second
  | third
  deriving DecidableEq, Repr

namespace SdkProvider

/-! ### The start of a call -/

def setBatchOptionsPc (s : SdkProvider ρ) (opts : BatchOptions) : Pc :=
  if s.shutDown then .returned (.status .alreadyShutDown)
  else if (checkBatchOptions opts).isSome then .returned (.status .invalidArgument)
  else if s.wiring.batchSpanProcessor = false then .returned (.status .unsupported)
  else .retuneSpans

def setMetricIntervalPc (s : SdkProvider ρ) (interval : Int) : Pc :=
  if s.shutDown then .returned (.status .alreadyShutDown)
  else if interval ≤ 0 then .returned (.status .invalidArgument)
  else if s.wiring.metricExporter = false then .returned (.status .unsupported)
  else .seedInterval

/-- A call up to its access to the shutdown flag. -/
def enter (s : SdkProvider ρ) : Request → SdkProvider ρ × Pc
  | .getMeter _ _ =>
      (s, if s.wiring.exportChannel ∧ s.wiring.metricExporter = false then .returned .noop
        else .building s.shutDown)
  | .getLogger _ _ =>
      (s, if s.wiring.logExporter = false ∨ s.shutDown then .returned .noop else .building false)
  | .setBatchOptions opts => (s, s.setBatchOptionsPc opts)
  | .setMetricInterval interval => (s, s.setMetricIntervalPc interval)
  | .shutdown => ({ s with shutDown := true }, .shuttingDown .stopSpans .alreadyShutDown)

def call (s : SdkProvider ρ) (request : Request) : SdkProvider ρ :=
  let (s', pc) := s.enter request
  { s' with calls := s'.calls ++ [{ request := request, pc := pc }] }

/-! ### The critical sections of `GetMeter` and `GetLogger` -/

/-- `GetMeter` up to the meter's entry, with the flag as the call read it before
it took the lock. -/
def buildReader (s : SdkProvider ρ) (shutDown : Bool) : SdkProvider ρ :=
  if s.metricProducer then s
  else
    { s with
      metricProducer := true
      metricReader := if s.wiring.metricExporter ∧ shutDown = false
        then some { setting := s.metricInterval } else s.metricReader }

/-- `GetLogger` up to the logger's entry. -/
def buildLogs (s : SdkProvider ρ) : SdkProvider ρ :=
  match s.logPipeline with
  | some _ => s
  | none =>
      { s with logPipeline := some { setting := s.logBatchOpts }, logBatchProcessor := true }

/-- An exception of an allocation in `GetMeter`. -/
def getMeterThrew (s : SdkProvider ρ) (shutDown : Bool) : ThrowPoint → SdkProvider ρ
  | .first => s
  | .second => { s with metricProducer := true }
  | .third => s.buildReader shutDown

/-- An exception of an allocation in `GetLogger`: the pointer `SetBatchOptions`
uses is stored after the pipeline. -/
def getLoggerThrew (s : SdkProvider ρ) : ThrowPoint → SdkProvider ρ
  | .first => s
  | .second =>
      match s.logPipeline with
      | some _ => s
      | none => { s with logPipeline := some { setting := s.logBatchOpts } }
  | .third => s.buildLogs

/-! ### `Shutdown` -/

/-- `BatchSpanProcessor::Shutdown` up to its join. -/
def stopSpans (s : SdkProvider ρ) : SdkProvider ρ :=
  { s with trace := { s.trace with processor := s.trace.processor.shutDown } }

def stopExporter (s : SdkProvider ρ) : SdkProvider ρ :=
  { s with trace := { s.trace with exporter := s.trace.exporter.shutDown } }

def spansExited (s : SdkProvider ρ) : Bool :=
  match s.trace.processor.worker with
  | .exited => true
  | _ => false

def exporterExited (s : SdkProvider ρ) : Bool :=
  match s.trace.exporter.worker with
  | .exited => true
  | _ => false

/-- One step of `Shutdown`; `answer` is what a component outside of the model
answers, and whether a join finds its deadline passed. -/
def shutdownNext (s : SdkProvider ρ) (status answer : Status) :
    ShutdownPc → Option (SdkProvider ρ × Pc)
  | .stopSpans =>
      if s.trace.processor.shutdown then some (s, .shuttingDown .findReader .alreadyShutDown)
      else some (s.stopSpans, .shuttingDown .joinSpans status)
  | .joinSpans =>
      if answer = .timedOut then
        some ({ s with spansAbandoned := true }, .shuttingDown .findReader .timedOut)
      else if s.spansExited then some (s, .shuttingDown .findReader .completed)
      else none
  | .findReader =>
      match s.metricReader with
      | some _ => some (s, .shuttingDown .stopReader status)
      | none =>
          some (s, .shuttingDown
            (if s.wiring.metricExporter then .stopMetricExporter else .findLogs) status)
  | .stopReader =>
      match s.metricReader with
      | some r =>
          if r.shutdown then some (s, .shuttingDown .findLogs (worseOf status .alreadyShutDown))
          else some ({ s with metricReader := some { r with shutdown := true } },
            .shuttingDown .joinReader status)
      | none => none
  | .joinReader =>
      match s.metricReader with
      | some r => if r.running then none else some (s, .shuttingDown .stopMetricExporter status)
      | none => none
  | .stopMetricExporter => some (s, .shuttingDown .findLogs (worseOf status answer))
  | .findLogs =>
      match s.logPipeline with
      | some _ => some (s, .shuttingDown .stopLogs status)
      | none => some (s, .shuttingDown .stopLogExporter status)
  | .stopLogs =>
      match s.logPipeline with
      | some l =>
          if l.shutdown then
            some (s, .shuttingDown .stopLogExporter (worseOf status .alreadyShutDown))
          else some ({ s with logPipeline := some { l with shutdown := true } },
            .shuttingDown .joinLogs status)
      | none => none
  | .joinLogs =>
      match s.logPipeline with
      | some l =>
          if answer = .timedOut then
            some ({ s with logPipeline := some { l with abandoned := true } },
              .shuttingDown .stopLogExporter (worseOf status .timedOut))
          else if l.running then none
          else some (s, .shuttingDown .stopLogExporter (worseOf status .completed))
      | none => none
  | .stopLogExporter =>
      some (s, .shuttingDown .stopExporter
        (if s.wiring.logExporter then worseOf status answer else status))
  | .stopExporter =>
      if s.trace.exporter.shutdown then
        some (s, .shuttingDown .close (worseOf status .alreadyShutDown))
      else some (s.stopExporter,
        .shuttingDown (.awaitExporter s.trace.exporter.waiters.length) status)
  | .awaitExporter waiter =>
      match (s.trace.exporter.waiters[waiter]?).map Waiter.pc with
      | some (.returned answered) => some (s, .shuttingDown (.joinExporter answered) status)
      | _ => none
  | .joinExporter answered =>
      if s.exporterExited then some (s, .shuttingDown .close (worseOf status answered)) else none
  | .close =>
      let status := if s.wiring.transport then worseOf status answer else status
      some ({ s with
          shutdownTimeouts := s.shutdownTimeouts + if status = .timedOut then 1 else 0 },
        .returned (.status status))

/-! ### The setters -/

/-- `SetOptions` of the span processor, by call `k`. -/
def retuneSpans (s : SdkProvider ρ) (k : Nat) (opts : BatchOptions) : SdkProvider ρ :=
  { s with
    trace := { s.trace with processor := s.trace.processor.setOptions opts }
    overlap := { s.overlap with seeding := s.overlap.seeding ++ [k] } }

/-- `SeedAndBorrowLogProcessor`, by call `k`. -/
def seedLogs (s : SdkProvider ρ) (k : Nat) (opts : BatchOptions) : SdkProvider ρ :=
  { s with
    logBatchOpts := opts
    overlap := { s.overlap with
      seeding := s.overlap.seeding.erase k
      retuning := s.overlap.retuning ++ if s.logBatchProcessor then [k] else [] } }

def retuneLogs (s : SdkProvider ρ) (k : Nat) (opts : BatchOptions) : SdkProvider ρ :=
  { s with
    logPipeline := s.logPipeline.map fun l => { l with setting := opts }
    overlap := { s.overlap with retuning := s.overlap.retuning.erase k } }

def seedInterval (s : SdkProvider ρ) (k : Nat) (interval : Int) : SdkProvider ρ :=
  { s with
    metricInterval := interval
    overlap := { s.overlap with
      rereading := s.overlap.rereading ++ if s.metricReader.isSome then [k] else [] } }

def retuneReader (s : SdkProvider ρ) (k : Nat) (interval : Int) : SdkProvider ρ :=
  { s with
    metricReader := s.metricReader.map fun r => { r with setting := interval }
    overlap := { s.overlap with rereading := s.overlap.rereading.erase k } }

/-! ### Steps -/

/-- The next access of call `k`. -/
def advance (s : SdkProvider ρ) (k : Nat) (answer : Status) :
    Request → Pc → Option (SdkProvider ρ × Pc)
  | .getMeter name version, .building shutDown =>
      let key := scopeKey name version
      some ({ s.buildReader shutDown with meters := insertKey key s.meters },
        .returned (.entry key))
  | .getLogger name version, .building _ =>
      let key := scopeKey name version
      some ({ s.buildLogs with loggers := insertKey key s.loggers }, .returned (.entry key))
  | .setBatchOptions opts, .retuneSpans => some (s.retuneSpans k opts, .seedLogs)
  | .setBatchOptions opts, .seedLogs =>
      some (s.seedLogs k opts,
        if s.logBatchProcessor then .retuneLogs else .returned (.status .completed))
  | .setBatchOptions opts, .retuneLogs =>
      some (s.retuneLogs k opts, .returned (.status .completed))
  | .setMetricInterval interval, .seedInterval =>
      some (s.seedInterval k interval,
        if s.metricReader.isSome then .retuneReader else .returned (.status .completed))
  | .setMetricInterval interval, .retuneReader =>
      some (s.retuneReader k interval, .returned (.status .completed))
  | .shutdown, .shuttingDown pc status => s.shutdownNext status answer pc
  | _, _ => none

/-- An exception ends call `k`. -/
def threw (s : SdkProvider ρ) (point : ThrowPoint) : Request → Pc → Option (SdkProvider ρ × Pc)
  | .getMeter _ _, .building shutDown => some (s.getMeterThrew shutDown point, .returned .threw)
  | .getLogger _ _, .building _ => some (s.getLoggerThrew point, .returned .threw)
  | _, _ => none

/-- Call `k` moves by `move`, if it is under way. -/
def moveCall (s : SdkProvider ρ) (k : Nat)
    (move : Request → Pc → Option (SdkProvider ρ × Pc)) : Option (SdkProvider ρ) :=
  match s.calls[k]? with
  | none => none
  | some c =>
      (move c.request c.pc).map fun next =>
        { next.1 with calls := next.1.calls.set k { c with pc := next.2 } }

/-- The worker of the reader leaves its loop. -/
def readerExits (s : SdkProvider ρ) : Option (SdkProvider ρ) :=
  match s.metricReader with
  | some r =>
      if r.shutdown then some { s with metricReader := some { r with running := false } } else none
  | none => none

/-- The worker of the log processor leaves its loop. -/
def logWorkerExits (s : SdkProvider ρ) : Option (SdkProvider ρ) :=
  match s.logPipeline with
  | some l =>
      if l.shutdown then some { s with logPipeline := some { l with running := false } } else none
  | none => none

/-- Whether an action of the trace pipeline is its own: the processor is retuned
and the two stages are shut down by calls on the provider. -/
def traceOwn : PipelineAction ρ → Bool
  | .processor .shutdown | .processor (.setOptions _) | .exporter .shutdown => false
  | _ => true

end SdkProvider

inductive ProviderAction (ρ : Type)
  | call (request : Request)
  | next (k : Nat) (answer : Status)
  | throws (k : Nat) (point : ThrowPoint)
  | trace (a : PipelineAction ρ)
  | readerExits
  | logWorkerExits

namespace SdkProvider

def step [DecidableEq ρ] (s : SdkProvider ρ) : ProviderAction ρ → Option (SdkProvider ρ)
  | .call request => some (s.call request)
  | .next k answer => s.moveCall k (s.advance k answer)
  | .throws k point => s.moveCall k (s.threw point)
  | .trace a =>
      if traceOwn a then (s.trace.step a).map fun trace => { s with trace := trace } else none
  | .readerExits => s.readerExits
  | .logWorkerExits => s.logWorkerExits

/-- The provider `SdkBuilder` makes. -/
def new (wiring : Wiring) (resource : ρ) (batch : BatchOptions)
    (maxRecordBytes maxTotalQueueBytes : Nat) (metricInterval : Int) : SdkProvider ρ where
  wiring := wiring
  trace := TracePipeline.new resource batch maxRecordBytes maxTotalQueueBytes true
    (traceExporterConfig batch)
  metricInterval := metricInterval
  logBatchOpts := batch

/-- A provider with all three signals, for runs on concrete calls. -/
def small : SdkProvider Nat := new {} 0 {} 4096 4096 60000

end SdkProvider

end Microtel.Sdk
