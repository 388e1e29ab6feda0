import Microtel.Api.Types
import Microtel.Lib.Machine

/-!
`BatchSpanProcessor` (`src/sdk/batch_span_processor.cpp`). Every critical
section under `m_mu` is one step, and so is every call into the exporter. The
worker's wait may end at any time (by a notification, spuriously or by its
timeout), so `WaitAndCollect` is enabled whenever the worker is at the top of its
loop. Byte counts are unbounded here: what they count is in memory all at once.
-/

namespace Microtel.Pipeline

variable {ρ : Type}

/-! ### The size estimate -/

def kRecordFixedBytes : Nat := 64
def kEventFixedBytes : Nat := 16
def kLinkFixedBytes : Nat := 32
def kScalarValueBytes : Nat := 8

def valueBytes : AttributeValue → Nat
  | .string s => s.length
  | .strings strings => (strings.map List.length).sum
  | .bools bools => bools.length
  | .ints ints => ints.length * 8
  | .doubles doubles => doubles.length * 8
  | .bool _ => kScalarValueBytes
  | .int _ => kScalarValueBytes
  | .double _ => kScalarValueBytes

def attributesBytes (attributes : List KeyValue) : Nat :=
  (attributes.map fun kv => kv.key.length + valueBytes kv.value).sum

def estimateRecordBytes (record : SpanRecord ρ) : Nat :=
  kRecordFixedBytes + record.name.length + record.statusDescription.length +
    attributesBytes record.attributes +
    (record.events.map fun event =>
      kEventFixedBytes + event.name.length + attributesBytes event.attributes).sum +
    (record.links.map fun link => kLinkFixedBytes + attributesBytes link.attributes).sum

/-! ### The processor -/

inductive DropPolicy
  | dropOldest | dropNewest
  deriving DecidableEq, Repr

structure BatchOptions where
  maxQueueSize : Nat := 8192
  maxExportBatchSize : Nat := 512
  /-- In milliseconds. -/
  scheduleDelay : Int := 5000
  dropPolicy : DropPolicy := .dropNewest
  deriving DecidableEq, Repr

structure QueuedSpan (ρ : Type) where
  record : SpanRecord ρ
  scope : InstrumentationScope
  bytes : Nat
  deriving DecidableEq, Repr

/-- A record and the scope of the tracer it was offered by. -/
abbrev Scoped (ρ : Type) := SpanRecord ρ × InstrumentationScope

def QueuedSpan.scoped (q : QueuedSpan ρ) : Scoped ρ := (q.record, q.scope)

/-- Where the worker is: at the top of its loop; in the iteration that collected
a batch, with the handles still to hand over; or out of its loop. -/
inductive Worker (ρ : Type)
  | waiting
  | exporting (handles : List (BatchHandle ρ)) (pendingFlushSeq : Nat) (done : Bool)
  | exited
  deriving DecidableEq, Repr

/-- A `ForceFlush` call that got past the shutdown test. -/
structure FlushCall (ρ : Type) where
  target : Nat
  result : Option Status := none
  /-- Every record accepted before the call. -/
  before : List (Scoped ρ)
  deriving DecidableEq, Repr

/-- What happened so far, for the statements only: no step reads it. -/
structure Ledger (ρ : Type) where
  offered : List (Scoped ρ) := []
  /-- The records queued, in the order their `Enqueue` returned `true`. -/
  accepted : List (Scoped ρ) := []
  /-- The records that left the queue, in the order they left it. -/
  departed : List (Scoped ρ) := []
  lost : List (Scoped ρ × DropReason) := []
  /-- The accepted records among the lost. -/
  evicted : List (Scoped ρ) := []
  handed : List (BatchHandle ρ) := []

structure Processor (ρ : Type) where
  resource : ρ
  opts : BatchOptions
  maxRecordBytes : Nat
  maxTotalQueueBytes : Nat
  /-- Whether there is a group exporter. -/
  grouped : Bool
  queue : List (QueuedSpan ρ) := []
  /-- An `Int`, so that an underflow would show. -/
  queueBytes : Int := 0
  shutdown : Bool := false
  flushSeq : Nat := 0
  flushDoneSeq : Nat := 0
  worker : Worker ρ := .waiting
  flushes : List (FlushCall ρ) := []
  drops : DropReason → Nat := fun _ => 0
  ledger : Ledger ρ := {}

def recordDropped (drops : DropReason → Nat) (reason : DropReason) (n : Nat := 1) :
    DropReason → Nat :=
  Function.update drops reason (drops reason + n)

theorem recordDropped_apply (drops : DropReason → Nat) (reason reason' : DropReason) (n : Nat) :
    recordDropped drops reason n reason' = drops reason' + if reason' = reason then n else 0 := by
  unfold recordDropped
  by_cases h : reason' = reason
  · subst h
    simp
  · simp [h]

/-- What `MakeRoomFor` leaves and whether the record fits. -/
structure Room (ρ : Type) where
  queue : List (QueuedSpan ρ)
  queueBytes : Int
  drops : DropReason → Nat
  evicted : List (QueuedSpan ρ)
  fits : Bool

/-- `MakeRoomFor`: its loop shortens the queue from the front. -/
def makeRoomFor (opts : BatchOptions) (maxTotalQueueBytes recordBytes : Nat)
    (queue : List (QueuedSpan ρ)) (queueBytes : Int) (drops : DropReason → Nat) : Room ρ :=
  if opts.maxQueueSize ≤ queue.length ∨ (maxTotalQueueBytes : Int) < queueBytes + recordBytes then
    let drops := recordDropped drops .queueFull
    if opts.dropPolicy ≠ .dropOldest then ⟨queue, queueBytes, drops, [], false⟩
    else
      match queue with
      | [] => ⟨[], queueBytes, drops, [], false⟩
      | front :: rest =>
          let room := makeRoomFor opts maxTotalQueueBytes recordBytes rest
            (queueBytes - front.bytes) drops
          { room with evicted := front :: room.evicted }
  else ⟨queue, queueBytes, drops, [], true⟩

namespace Processor

/-- The incoming record is the one that is lost. -/
def refuse (p : Processor ρ) (record : Scoped ρ) (reason : DropReason) : Processor ρ :=
  { p with ledger := { p.ledger with
      offered := p.ledger.offered ++ [record]
      lost := p.ledger.lost ++ [(record, reason)] } }

def enqueue (p : Processor ρ) (record : SpanRecord ρ) (scope : InstrumentationScope) :
    Processor ρ × Bool :=
  let recordBytes := estimateRecordBytes record
  if p.shutdown then
    ({ p with drops := recordDropped p.drops .postShutdown }.refuse (record, scope) .postShutdown,
      false)
  else if p.maxRecordBytes < recordBytes then
    ({ p with drops := recordDropped p.drops .recordTooLarge }.refuse (record, scope)
      .recordTooLarge, false)
  else
    let room := makeRoomFor p.opts p.maxTotalQueueBytes recordBytes p.queue p.queueBytes p.drops
    let evicted := room.evicted.map QueuedSpan.scoped
    let p₁ : Processor ρ :=
      { p with
        queue := room.queue
        queueBytes := room.queueBytes
        drops := room.drops
        ledger := { p.ledger with
          departed := p.ledger.departed ++ evicted
          evicted := p.ledger.evicted ++ evicted
          lost := p.ledger.lost ++ evicted.map (·, .queueFull) } }
    if room.fits then
      ({ p₁ with
          queueBytes := p₁.queueBytes + recordBytes
          queue := p₁.queue ++ [{ record := record, scope := scope, bytes := recordBytes }]
          ledger := { p₁.ledger with
            offered := p₁.ledger.offered ++ [(record, scope)]
            accepted := p₁.ledger.accepted ++ [(record, scope)] } },
        true)
    else (p₁.refuse (record, scope) .queueFull, false)

def setOptions (p : Processor ρ) (opts : BatchOptions) : Processor ρ := { p with opts := opts }

/-- `ForceFlush` up to its wait; after `Shutdown` the call returns at once. -/
def forceFlush (p : Processor ρ) : Processor ρ :=
  if p.shutdown then p
  else
    { p with
      flushSeq := p.flushSeq + 1
      flushes := p.flushes ++ [{ target := p.flushSeq + 1, before := p.ledger.accepted }] }

/-- The end of the wait of a `ForceFlush`, at any time: `wait_for` returns the
value of its predicate. -/
def flushReturn (p : Processor ρ) (i : Nat) : Option (Processor ρ) :=
  match p.flushes[i]? with
  | none => none
  | some call =>
      if call.result.isSome then none
      else
        let status : Status := if call.target ≤ p.flushDoneSeq then .completed else .timedOut
        some { p with flushes := p.flushes.set i { call with result := some status } }

/-- `Shutdown` up to its join. -/
def shutDown (p : Processor ρ) : Processor ρ := { p with shutdown := true }

/-! ### The worker -/

/-- `ExportBatch`'s `Group`. -/
structure Group (ρ : Type) where
  resource : ρ
  scope : InstrumentationScope
  records : List (SpanRecord ρ)

section ExportBatch

variable [DecidableEq ρ]

/-- The Resource a record goes out under: its own, else the processor's. -/
def owner (own : ρ) (record : SpanRecord ρ) : ρ := record.resource.getD own

def sameGroup (own : ρ) (item : QueuedSpan ρ) (group : Group ρ) : Bool :=
  group.resource = owner own item.record ∧ group.scope.name = item.scope.name ∧
    group.scope.version = item.scope.version

/-- The first pass: the groups, without their records, and the group of each record. -/
def findGroups (own : ρ) :
    List (QueuedSpan ρ) → List (Group ρ) → List Nat → List (Group ρ) × List Nat
  | [], groups, groupOf => (groups, groupOf)
  | item :: batch, groups, groupOf =>
      match groups.findIdx? (sameGroup own item) with
      | some g => findGroups own batch groups (groupOf ++ [g])
      | none =>
          findGroups own batch
            (groups ++ [{ resource := owner own item.record, scope := item.scope, records := [] }])
            (groupOf ++ [groups.length])

/-- The second pass: every record moves to its group. -/
def fillGroups : List (QueuedSpan ρ) → List Nat → List (Group ρ) → List (Group ρ)
  | item :: batch, g :: groupOf, groups =>
      fillGroups batch groupOf
        (groups.modify g fun group => { group with records := group.records ++ [item.record] })
  | _, _, groups => groups

/-- The handles `ExportBatch` makes of a batch. -/
def batchHandles (own : ρ) (batch : List (QueuedSpan ρ)) : List (BatchHandle ρ) :=
  let (groups, groupOf) := findGroups own batch [] []
  (fillGroups batch groupOf groups).map fun group =>
    { records := group.records, resource := group.resource, scope := group.scope }

/-- `WaitAndCollect`, from the end of its wait. -/
def collect (p : Processor ρ) : Option (Processor ρ) :=
  match p.worker with
  | .waiting =>
      let count := min p.queue.length p.opts.maxExportBatchSize
      let batch := p.queue.take count
      let queue := p.queue.drop count
      let pendingFlushSeq := if p.flushDoneSeq < p.flushSeq ∧ queue = [] then p.flushSeq else 0
      some { p with
        queue := queue
        queueBytes := batch.foldl (fun total q => total - q.bytes) p.queueBytes
        worker := .exporting (batchHandles p.resource batch) pendingFlushSeq
          (p.shutdown && queue.isEmpty)
        ledger := { p.ledger with
          departed := p.ledger.departed ++ batch.map QueuedSpan.scoped } }
  | _ => none

end ExportBatch

/-- The handles the worker's next call into the exporter carries. -/
def nextCall (p : Processor ρ) : List (BatchHandle ρ) :=
  match p.worker with
  | .exporting handles _ _ => if p.grouped then handles else handles.take 1
  | _ => []

/-- One `ExportGroup` call with all the handles, or one `Export` call. -/
def handOver (p : Processor ρ) : Option (Processor ρ) :=
  match p.worker with
  | .exporting (_ :: handles) pendingFlushSeq done =>
      some { p with
        worker := .exporting (if p.grouped then [] else handles) pendingFlushSeq done
        ledger := { p.ledger with handed := p.ledger.handed ++ p.nextCall } }
  | _ => none

/-- The end of an iteration of `WorkerLoop`. -/
def finish (p : Processor ρ) : Option (Processor ρ) :=
  match p.worker with
  | .exporting [] pendingFlushSeq done =>
      some { p with
        flushDoneSeq := if 0 < pendingFlushSeq then pendingFlushSeq else p.flushDoneSeq
        worker := if done then .exited else .waiting }
  | _ => none

end Processor

/-! ### Runs -/

inductive ProcessorAction (ρ : Type)
  | enqueue (record : SpanRecord ρ) (scope : InstrumentationScope)
  | setOptions (opts : BatchOptions)
  | forceFlush
  | flushReturn (call : Nat)
  | shutdown
  | collect
  | handOver
  | finish

namespace Processor

variable [DecidableEq ρ]

def step (p : Processor ρ) : ProcessorAction ρ → Option (Processor ρ)
  | .enqueue record scope => some (p.enqueue record scope).1
  | .setOptions opts => some (p.setOptions opts)
  | .forceFlush => some p.forceFlush
  | .flushReturn call => p.flushReturn call
  | .shutdown => some p.shutDown
  | .collect => p.collect
  | .handOver => p.handOver
  | .finish => p.finish

/-- The constructor: the worker starts at the top of its loop. -/
def new (resource : ρ) (opts : BatchOptions) (maxRecordBytes maxTotalQueueBytes : Nat)
    (grouped : Bool) : Processor ρ :=
  { resource, opts, maxRecordBytes, maxTotalQueueBytes, grouped }

end Processor

end Microtel.Pipeline
