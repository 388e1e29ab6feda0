import Microtel.Pipeline.Processor

/-!
`OtlpExporter` and the retry engine it settles its requests with
(`src/exporter/otlp_exporter.cpp`, `src/exporter/retry_engine.cpp`). Every
critical section under `m_mu` is one step, and so is every notification sent
outside it. The encoder and the codec answer as they like: an action carries the
sizes of the encodings, the results of `SendAll` and of each retry, and where
an exception is thrown.
-/

namespace Microtel.Pipeline

variable {ρ : Type}

/-! ### The retry engine -/

structure WireResult where
  success : Bool
  retryable : Bool := false
  partialSuccessRejected : Nat := 0
  /-- The message of the `Error`, if the codec gave one. -/
  error : Option String := none
  deriving DecidableEq, Repr

/-- The part of `DiagnosticsCounters` the exporter writes. -/
structure Diagnostics where
  drops : DropReason → Nat := fun _ => 0
  batchesSent : Nat := 0
  batchesFailed : Nat := 0
  lastErrorMessage : String := ""
  queueDepth : Nat := 0

namespace Diagnostics

def recordDrop (d : Diagnostics) (reason : DropReason) (n : Nat) : Diagnostics :=
  { d with drops := recordDropped d.drops reason n }

def recordBatchSent (d : Diagnostics) : Diagnostics :=
  { d with batchesSent := d.batchesSent + 1 }

def kMaxErrorMessageLength : Nat := 256

def recordBatchFailed (d : Diagnostics) (message : String) : Diagnostics :=
  { d with
    batchesFailed := d.batchesFailed + 1
    lastErrorMessage := (message.take kMaxErrorMessageLength).toString }

def setQueueDepth (d : Diagnostics) (depth : Nat) : Diagnostics := { d with queueDepth := depth }

end Diagnostics

/-- What one further attempt of a retry loop comes to. The list of attempts ends
where the backoff is refused: the budget is spent, or `Shutdown` aborts. -/
inductive Attempt
  | result (r : WireResult)
  | threw
  deriving DecidableEq, Repr

/-- `RunRetryLoop`, with the number of retries still allowed. -/
def runRetryLoop (firstAttempt : WireResult) :
    Nat → List Attempt → Option WireResult → Except Unit (Option WireResult)
  | 0, _, last => .ok last
  | allowed + 1, attempts, last =>
      let previous := last.getD firstAttempt
      if previous.success || !previous.retryable then .ok last
      else
        match attempts with
        | [] => .ok last
        | .threw :: _ => .error ()
        | .result r :: attempts => runRetryLoop firstAttempt allowed attempts (some r)

/-- `Resolve`: the result that stands, and the diagnostics. -/
def resolve (maxAttempts : Nat) (d : Diagnostics) (firstAttempt : WireResult)
    (attempts : List Attempt) (batches : Nat) : Except Unit (WireResult × Diagnostics) :=
  if firstAttempt.success || !firstAttempt.retryable then .ok (firstAttempt, d)
  else
    match runRetryLoop firstAttempt ((if 0 < maxAttempts then maxAttempts else 1) - 1)
      attempts none with
    | .error () => .error ()
    | .ok none => .ok (firstAttempt, d)
    | .ok (some retried) =>
        .ok (retried,
          if retried.success then d.recordDrop .retryableFailureRecovered batches else d)

def repeatRecord (n : Nat) (record : Diagnostics → Diagnostics) (d : Diagnostics) : Diagnostics :=
  n.repeat record d

def recordOutcome (d : Diagnostics) (result : WireResult) (failureStage : String) (batches : Nat) :
    Diagnostics :=
  if result.success then
    let d := if 0 < result.partialSuccessRejected then
        d.recordDrop .partialSuccessRejection result.partialSuccessRejected
      else d
    repeatRecord batches Diagnostics.recordBatchSent d
  else
    let d := d.recordDrop
      (if result.retryable then .retryBudgetExhausted else .nonRetryableFailure) batches
    repeatRecord batches (·.recordBatchFailed (result.error.getD failureStage)) d

/-- `Settle`: whether the request was sent, or the exception of a retry. -/
def settle (maxAttempts : Nat) (d : Diagnostics) (firstAttempt : WireResult)
    (attempts : List Attempt) (failureStage : String) (batches : Nat) :
    Except Unit (Bool × Diagnostics) :=
  match resolve maxAttempts d firstAttempt attempts batches with
  | .error () => .error ()
  | .ok (result, d) => .ok (result.success, recordOutcome d result failureStage batches)

/-! ### The exporter -/

structure OtlpExporterConfig where
  maxQueueSize : Nat
  maxQueuedSpans : Nat
  maxSpansPerRequest : Nat
  maxRequestBytes : Nat
  maxAttempts : Nat
  deriving DecidableEq, Repr

def kFailureStage : String := "export failed at wire codec"

structure RequestRange where
  first : Nat
  count : Nat
  deriving DecidableEq, Repr

/-- The batches a request carries. -/
def RequestRange.slice {α : Type} (range : RequestRange) (batches : List α) : List α :=
  (batches.drop range.first).take range.count

structure Grouping where
  requests : List RequestRange
  spansInRequest : Nat
  bytesInRequest : Nat

/-- One turn of the loop of `GroupIntoRequests`. -/
def groupNext (config : OtlpExporterConfig) (g : Grouping) (i spans bytes : Nat) : Grouping :=
  let overSpans := config.maxSpansPerRequest < g.spansInRequest + spans
  let overBytes := config.maxRequestBytes ≠ 0 ∧ config.maxRequestBytes < g.bytesInRequest + bytes
  let g := if g.requests = [] ∨ overSpans ∨ overBytes then
      { requests := g.requests ++ [{ first := i, count := 0 }], spansInRequest := 0
        bytesInRequest := 0 }
    else g
  { requests := g.requests.modify (g.requests.length - 1) fun r => { r with count := r.count + 1 }
    spansInRequest := g.spansInRequest + spans
    bytesInRequest := g.bytesInRequest + bytes }

/-- The loop of `GroupIntoRequests` from batch `i` on. -/
def groupFrom (config : OtlpExporterConfig) : Nat → List (Nat × Nat) → Grouping → Grouping
  | _, [], g => g
  | i, (spans, bytes) :: sizes, g =>
      groupFrom config (i + 1) sizes (groupNext config g i spans bytes)

/-- `GroupIntoRequests`, over the span count and the encoded size of each batch. -/
def groupIntoRequests (config : OtlpExporterConfig) (sizes : List (Nat × Nat)) :
    List RequestRange :=
  (groupFrom config 0 sizes ⟨[], 0, 0⟩).requests

/-- Where the worker is. Every state but `blocked` is on its way to its next
critical section; `blocked` waits on `m_cv`. -/
inductive ExporterWorker (ρ : Type)
  | top
  | blocked
  /-- In `FanOutAndProcess`, before `SendAll` has returned. -/
  | sending (batches : List (BatchHandle ρ))
  /-- In `FanOutAndProcess`, with these requests still to settle. -/
  | settling (batches : List (BatchHandle ρ)) (todo : List (RequestRange × WireResult))
  /-- The drain is over: it threw. -/
  | caught
  /-- Out of the loop, before the last critical section. -/
  | leaving
  | exited
  deriving DecidableEq, Repr

inductive WaiterPc
  /-- About to take the lock and test the predicate. -/
  | checking
  | blocked
  /-- Its timeout passed; about to test the predicate a last time. -/
  | expired
  | returned (status : Status)
  deriving DecidableEq, Repr

/-- A `ForceFlush` or `Shutdown` call past its first critical section. -/
structure Waiter (ρ : Type) where
  pc : WaiterPc := .checking
  /-- `m_flush_seq` as the call left it. -/
  target : Nat
  /-- Every batch offered before the call. -/
  before : List (BatchHandle ρ)
  deriving DecidableEq, Repr

def Waiter.wake (w : Waiter ρ) : Waiter ρ :=
  if w.pc = .blocked then { w with pc := .checking } else w

/-- What happened so far, for the statements only: no step reads it. -/
structure ExporterLedger (ρ : Type) where
  offered : List (BatchHandle ρ) := []
  accepted : List (BatchHandle ρ) := []
  refused : List (BatchHandle ρ × DropReason) := []
  /-- Settled as sent, and settled as failed. -/
  sent : List (BatchHandle ρ) := []
  failed : List (BatchHandle ρ) := []
  /-- Without an outcome when an exception ended their drain. -/
  abandoned : List (BatchHandle ρ) := []
  /-- The number of drains an exception ended. -/
  throws : Nat := 0

structure Exporter (ρ : Type) where
  config : OtlpExporterConfig
  queue : List (BatchHandle ρ) := []
  queuedSpans : Nat := 0
  flushSeq : Nat := 0
  flushDoneSeq : Nat := 0
  shutdown : Bool := false
  worker : ExporterWorker ρ := .top
  waiters : List (Waiter ρ) := []
  /-- The `notify_one` calls still to come: each is made by a caller that queued
  a batch and has released the lock. -/
  owed : Nat := 0
  diag : Diagnostics := {}
  ledger : ExporterLedger ρ := {}

def spanCount (batch : BatchHandle ρ) : Nat := batch.records.length

def queuedCount (queue : List (BatchHandle ρ)) : Nat := (queue.map spanCount).sum

namespace Exporter

/-! ### Callers -/

def refuse (e : Exporter ρ) (batch : BatchHandle ρ) (reason : DropReason) : Exporter ρ :=
  { e with
    diag := e.diag.recordDrop reason (spanCount batch)
    ledger := { e.ledger with
      offered := e.ledger.offered ++ [batch]
      refused := e.ledger.refused ++ [(batch, reason)] } }

/-- `EnqueueLocked`; `throws` says that `push_back` throws. -/
def enqueueLocked (e : Exporter ρ) (batch : BatchHandle ρ) (throws : Bool) : Exporter ρ × Bool :=
  if e.shutdown then (e.refuse batch .postShutdown, false)
  else if e.config.maxQueueSize ≤ e.queue.length ∨
      e.config.maxQueuedSpans < e.queuedSpans + spanCount batch then
    (e.refuse batch .queueFull, false)
  else if throws then (e.refuse batch .queueFull, false)
  else
    ({ e with
        queue := e.queue ++ [batch]
        queuedSpans := e.queuedSpans + spanCount batch
        diag := e.diag.setQueueDepth (e.queue.length + 1)
        ledger := { e.ledger with
          offered := e.ledger.offered ++ [batch]
          accepted := e.ledger.accepted ++ [batch] } },
      true)

/-- The loop of `ExportGroup`. -/
def enqueueAll (e : Exporter ρ) : List (BatchHandle ρ × Bool) → Exporter ρ × Bool
  | [] => (e, false)
  | (batch, throws) :: group =>
      let (e₁, queued) := e.enqueueLocked batch throws
      let (e₂, more) := e₁.enqueueAll group
      (e₂, queued || more)

/-- `Export` and `ExportGroup` up to the release of the lock; `Export` is a group of one. -/
def exportGroup (e : Exporter ρ) (group : List (BatchHandle ρ × Bool)) : Exporter ρ :=
  let (e', queued) := e.enqueueAll group
  if queued then { e' with owed := e'.owed + 1 } else e'

def wakeWorker (worker : ExporterWorker ρ) : ExporterWorker ρ :=
  match worker with
  | .blocked => .top
  | other => other

def notifyAll (e : Exporter ρ) : Exporter ρ :=
  { e with worker := wakeWorker e.worker, waiters := e.waiters.map Waiter.wake }

/-- The waiter that a notification wakes. -/
inductive Target
  | worker
  | waiter (i : Nat)
  deriving DecidableEq, Repr

/-- One thread leaves the wait set, if it is in it. -/
def wakeOne (e : Exporter ρ) : Target → Option (Exporter ρ)
  | .worker =>
      match e.worker with
      | .blocked => some { e with worker := .top }
      | _ => none
  | .waiter i =>
      match e.waiters[i]? with
      | none => none
      | some w =>
          if w.pc = .blocked then
            some { e with waiters := e.waiters.set i { w with pc := .checking } }
          else none

def nobodyBlocked (e : Exporter ρ) : Bool :=
  (match e.worker with
    | .blocked => false
    | _ => true) && e.waiters.all fun w => w.pc ≠ .blocked

/-- A `notify_one`: it wakes a thread of the wait set, or is lost on an empty one. -/
def notifyOne (e : Exporter ρ) (target : Option Target) : Option (Exporter ρ) :=
  if e.owed = 0 then none
  else
    let e := { e with owed := e.owed - 1 }
    match target with
    | some t => e.wakeOne t
    | none => if e.nobodyBlocked then some e else none

/-- The first critical section of `ForceFlush`. -/
def forceFlush (e : Exporter ρ) : Exporter ρ :=
  let e := { e with flushSeq := e.flushSeq + 1 }.notifyAll
  { e with waiters := e.waiters ++ [{ target := e.flushSeq, before := e.ledger.offered }] }

/-- The first critical section of `Shutdown`; a second call returns at once. -/
def shutDown (e : Exporter ρ) : Exporter ρ :=
  if e.shutdown then e
  else { e with shutdown := true }.forceFlush

def flushed (e : Exporter ρ) : Bool := e.flushSeq ≤ e.flushDoneSeq

/-- A waiter takes the lock and tests its predicate. -/
def check (e : Exporter ρ) (i : Nat) : Option (Exporter ρ) :=
  match e.waiters[i]? with
  | none => none
  | some w =>
      match w.pc with
      | .checking =>
          let pc : WaiterPc := if e.flushed then .returned .completed else .blocked
          some { e with waiters := e.waiters.set i { w with pc := pc } }
      | .expired =>
          let status : Status := if e.flushed then .completed else .timedOut
          some { e with waiters := e.waiters.set i { w with pc := .returned status } }
      | _ => none

/-- The timeout of a blocked waiter passes. -/
def expire (e : Exporter ρ) (i : Nat) : Option (Exporter ρ) :=
  match e.waiters[i]? with
  | none => none
  | some w =>
      if w.pc = .blocked then some { e with waiters := e.waiters.set i { w with pc := .expired } }
      else none

/-! ### The worker -/

/-- The end of an iteration of `WorkerLoop`, with the queue drained. -/
def endIteration (e : Exporter ρ) : Exporter ρ :=
  let e :=
    if e.flushDoneSeq < e.flushSeq then { e with flushDoneSeq := e.flushSeq }.notifyAll else e
  { e with worker := if e.shutdown then .leaving else .top }

/-- `DrainQueue` at its loop test, with the lock held. -/
def drain (e : Exporter ρ) : Exporter ρ :=
  if e.queue = [] then e.endIteration
  else { e with queue := [], queuedSpans := 0, worker := .sending e.queue }

/-- The worker takes the lock and tests the predicate of its wait. -/
def workerCheck (e : Exporter ρ) : Option (Exporter ρ) :=
  match e.worker with
  | .top =>
      if e.queue ≠ [] ∨ e.flushDoneSeq < e.flushSeq ∨ e.shutdown = true then some e.drain
      else some { e with worker := .blocked }
  | _ => none

/-- The batches of the drain that have no outcome yet. -/
def unsettled (e : Exporter ρ) : List (BatchHandle ρ) :=
  match e.worker with
  | .sending batches => batches
  | .settling batches todo => todo.flatMap fun request => request.1.slice batches
  | _ => []

/-- An exception of `FanOutAndProcess`, caught in `DrainQueue`. -/
def drainThrew (e : Exporter ρ) (what : String) : Exporter ρ :=
  { e with
    diag := e.diag.recordBatchFailed what
    worker := .caught
    ledger := { e.ledger with
      abandoned := e.ledger.abandoned ++ e.unsettled
      throws := e.ledger.throws + 1 } }

/-- `Encode`, the joining of the requests or `SendAll` throws. -/
def sendThrew (e : Exporter ρ) (what : String) : Option (Exporter ρ) :=
  match e.worker with
  | .sending _ => some (e.drainThrew what)
  | _ => none

/-- `SendAll` returns, with one result for each request. -/
def sendAll (e : Exporter ρ) (bytes : List Nat) (results : List WireResult) : Option (Exporter ρ) :=
  match e.worker with
  | .sending batches =>
      let requests := groupIntoRequests e.config ((batches.map spanCount).zip bytes)
      if bytes.length = batches.length ∧ results.length = requests.length then
        some { e with worker := .settling batches (requests.zip results) }
      else none
  | _ => none

/-- One request is settled, by the end of its retries or by an exception. -/
def settleNext (e : Exporter ρ) (attempts : List Attempt) (what : String) : Option (Exporter ρ) :=
  match e.worker with
  | .settling batches ((range, result) :: todo) =>
      match settle e.config.maxAttempts e.diag result attempts kFailureStage range.count with
      | .error () => some (e.drainThrew what)
      | .ok (sent, diag) =>
          let settled := range.slice batches
          some { e with
            diag := diag
            worker := .settling batches todo
            ledger := { e.ledger with
              sent := e.ledger.sent ++ if sent then settled else []
              failed := e.ledger.failed ++ if sent then [] else settled } }
  | _ => none

/-- `lock.lock()` after a drain. -/
def relock (e : Exporter ρ) : Option (Exporter ρ) :=
  match e.worker with
  | .settling _ [] => some { e with diag := e.diag.setQueueDepth e.queue.length }.drain
  | .caught => some { e with diag := e.diag.setQueueDepth e.queue.length }.drain
  | _ => none

/-- The critical section after the loop. -/
def leave (e : Exporter ρ) : Option (Exporter ρ) :=
  match e.worker with
  | .leaving => some { { e with flushDoneSeq := e.flushSeq }.notifyAll with worker := .exited }
  | _ => none

end Exporter

/-! ### Runs -/

inductive ExporterAction (ρ : Type)
  | exportGroup (group : List (BatchHandle ρ × Bool))
  | notifyOne (target : Option Exporter.Target)
  /-- A wakeup nobody sent. -/
  | spurious (target : Exporter.Target)
  | forceFlush
  | shutdown
  | check (waiter : Nat)
  | expire (waiter : Nat)
  | workerCheck
  | sendThrew (what : String)
  | sendAll (bytes : List Nat) (results : List WireResult)
  | settle (attempts : List Attempt) (what : String)
  | relock
  | leave

namespace Exporter

def step (e : Exporter ρ) : ExporterAction ρ → Option (Exporter ρ)
  | .exportGroup group => some (e.exportGroup group)
  | .notifyOne target => e.notifyOne target
  | .spurious target => e.wakeOne target
  | .forceFlush => some e.forceFlush
  | .shutdown => some e.shutDown
  | .check waiter => e.check waiter
  | .expire waiter => e.expire waiter
  | .workerCheck => e.workerCheck
  | .sendThrew what => e.sendThrew what
  | .sendAll bytes results => e.sendAll bytes results
  | .settle attempts what => e.settleNext attempts what
  | .relock => e.relock
  | .leave => e.leave

def new (config : OtlpExporterConfig) : Exporter ρ := { config }

end Exporter

end Microtel.Pipeline
