import Microtel.Pipeline.Processor

/-!
`BatchLogRecordProcessor` (`src/sdk/batch_log_record_processor.cpp`), in the steps
of the span processor's model. The record type is a parameter: nothing here reads
a record.
-/

namespace Microtel.Pipeline

variable {ω : Type}

structure QueuedLog (ω : Type) where
  record : ω
  scope : InstrumentationScope
  deriving DecidableEq, Repr

/-- `LogBatchHandle`, without the Resource, which is the processor's own. -/
structure LogBatchHandle (ω : Type) where
  records : List ω
  scope : InstrumentationScope
  deriving DecidableEq, Repr

inductive LogWorker (ω : Type)
  | waiting
  | exporting (handles : List (LogBatchHandle ω)) (pendingFlushSeq : Nat) (done : Bool)
  | exited
  deriving DecidableEq, Repr

structure LogProcessor (ω : Type) where
  opts : BatchOptions
  queue : List (QueuedLog ω) := []
  shutdown : Bool := false
  flushSeq : Nat := 0
  flushDoneSeq : Nat := 0
  worker : LogWorker ω := .waiting
  /-- The `ForceFlush` calls that wait or have returned, with their targets. -/
  flushes : List (Nat × Option Status) := []
  drops : DropReason → Nat := fun _ => 0
  /-- The handles the exporter was given so far. -/
  handed : List (LogBatchHandle ω) := []

namespace LogProcessor

/-- `OnEmit`; the flag, which the source does not return, says whether the record
was queued. -/
def onEmit (p : LogProcessor ω) (record : ω) (scope : InstrumentationScope) :
    LogProcessor ω × Bool :=
  if p.shutdown then ({ p with drops := recordDropped p.drops .postShutdown }, false)
  else if p.opts.maxQueueSize ≤ p.queue.length then
    let drops := recordDropped p.drops .queueFull
    if p.opts.dropPolicy = .dropOldest then
      ({ p with queue := p.queue.tail ++ [{ record, scope }], drops }, true)
    else ({ p with drops }, false)
  else ({ p with queue := p.queue ++ [{ record, scope }] }, true)

def setOptions (p : LogProcessor ω) (opts : BatchOptions) : LogProcessor ω :=
  { p with opts := opts }

/-- `ForceFlush` up to its wait; after `Shutdown` the call returns at once. -/
def forceFlush (p : LogProcessor ω) : LogProcessor ω :=
  if p.shutdown then p
  else
    { p with
      flushSeq := p.flushSeq + 1
      flushes := p.flushes ++ [(p.flushSeq + 1, none)] }

/-- The end of the wait of a `ForceFlush`. -/
def flushReturn (p : LogProcessor ω) (i : Nat) : Option (LogProcessor ω) :=
  match p.flushes[i]? with
  | some (target, none) =>
      let status : Status := if target ≤ p.flushDoneSeq then .completed else .timedOut
      some { p with flushes := p.flushes.set i (target, some status) }
  | _ => none

/-- `Shutdown` up to its join. -/
def shutDown (p : LogProcessor ω) : LogProcessor ω := { p with shutdown := true }

/-! ### The worker -/

/-- One round of the loop in `ExportBatch`: the record joins the first group of its
scope, or starts one. -/
def addToGroup (item : QueuedLog ω) : List (LogBatchHandle ω) → List (LogBatchHandle ω)
  | [] => [{ records := [item.record], scope := item.scope }]
  | group :: groups =>
      if group.scope.name = item.scope.name ∧ group.scope.version = item.scope.version then
        { group with records := group.records ++ [item.record] } :: groups
      else group :: addToGroup item groups

/-- The handles `ExportBatch` makes of a batch. -/
def batchHandles (batch : List (QueuedLog ω)) : List (LogBatchHandle ω) :=
  batch.foldl (fun groups item => addToGroup item groups) []

/-- What the next `WaitAndCollect` takes from the queue. -/
def nextBatch (p : LogProcessor ω) : List (QueuedLog ω) :=
  p.queue.take (min p.queue.length p.opts.maxExportBatchSize)

/-- `WaitAndCollect`, from the end of its wait. -/
def collect (p : LogProcessor ω) : Option (LogProcessor ω) :=
  match p.worker with
  | .waiting =>
      let queue := p.queue.drop (min p.queue.length p.opts.maxExportBatchSize)
      let pendingFlushSeq := if p.flushDoneSeq < p.flushSeq ∧ queue = [] then p.flushSeq else 0
      some { p with
        queue := queue
        worker := .exporting (batchHandles p.nextBatch) pendingFlushSeq
          (p.shutdown && queue.isEmpty) }
  | _ => none

/-- One `Export` call. -/
def handOver (p : LogProcessor ω) : Option (LogProcessor ω) :=
  match p.worker with
  | .exporting (handle :: handles) pendingFlushSeq done =>
      some { p with
        worker := .exporting handles pendingFlushSeq done
        handed := p.handed ++ [handle] }
  | _ => none

/-- The end of an iteration of `WorkerLoop`. -/
def finish (p : LogProcessor ω) : Option (LogProcessor ω) :=
  match p.worker with
  | .exporting [] pendingFlushSeq done =>
      some { p with
        flushDoneSeq := if 0 < pendingFlushSeq then pendingFlushSeq else p.flushDoneSeq
        worker := if done then .exited else .waiting }
  | _ => none

end LogProcessor

/-! ### Runs -/

inductive LogProcessorAction (ω : Type)
  | emit (record : ω) (scope : InstrumentationScope)
  | setOptions (opts : BatchOptions)
  | forceFlush
  | flushReturn (call : Nat)
  | shutdown
  | collect
  | handOver
  | finish

def LogProcessor.step (p : LogProcessor ω) : LogProcessorAction ω → Option (LogProcessor ω)
  | .emit record scope => some (p.onEmit record scope).1
  | .setOptions opts => some (p.setOptions opts)
  | .forceFlush => some p.forceFlush
  | .flushReturn call => p.flushReturn call
  | .shutdown => some p.shutDown
  | .collect => p.collect
  | .handOver => p.handOver
  | .finish => p.finish

end Microtel.Pipeline
