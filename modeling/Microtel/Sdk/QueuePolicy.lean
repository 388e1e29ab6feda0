import Microtel.Pipeline.LogProcessor
import Microtel.Sdk.BatchOptions

/-!
The queue policy the span processor and the log processor are to share, and where
they part. Both are projected to one small machine that only differs in how many
records a full queue gives up under `DropOldest`.
-/

namespace Microtel.Sdk

open Machine Pipeline

/-! ### One queue -/

/-- What a queue is asked to do. -/
inductive QueueCall (α : Type)
  | enqueue (item : α)
  | setOptions (opts : BatchOptions)
  | collect
  | shutdown

def QueueCall.map {α β : Type} (f : α → β) : QueueCall α → QueueCall β
  | .enqueue item => .enqueue (f item)
  | .setOptions opts => .setOptions opts
  | .collect => .collect
  | .shutdown => .shutdown

@[ext]
structure QueueState (α : Type) where
  opts : BatchOptions
  queue : List α
  shutdown : Bool
  drops : DropReason → Nat

namespace QueueState

variable {α β : Type}

/-- The size of the next batch. -/
def batchSize (q : QueueState α) : Nat := min q.queue.length q.opts.maxExportBatchSize

/-- One call, where `evictions` says how many records a full queue gives up for a
new one. -/
def move (evictions : Nat → Nat → Nat) (q : QueueState α) : QueueCall α → QueueState α
  | .enqueue item =>
      if q.shutdown then { q with drops := recordDropped q.drops .postShutdown }
      else if q.queue.length < q.opts.maxQueueSize then { q with queue := q.queue ++ [item] }
      else if q.opts.dropPolicy = .dropOldest then
        { q with
          queue := q.queue.drop (evictions q.queue.length q.opts.maxQueueSize) ++ [item]
          drops :=
            recordDropped q.drops .queueFull (evictions q.queue.length q.opts.maxQueueSize) }
      else { q with drops := recordDropped q.drops .queueFull }
  | .setOptions opts => { q with opts }
  | .collect => { q with queue := q.queue.drop q.batchSize }
  | .shutdown => { q with shutdown := true }

/-- Until a record more fits. -/
def untilRoom (length maxQueueSize : Nat) : Nat := length + 1 - maxQueueSize

def justOne (_ _ : Nat) : Nat := 1

/-- The batch a call cuts. -/
def batch (q : QueueState α) : QueueCall α → Option (List α)
  | .collect => some (q.queue.take q.batchSize)
  | _ => none

/-- The batches a sequence of calls cuts. -/
def batches (evictions : Nat → Nat → Nat) (q : QueueState α) : List (QueueCall α) → List (List α)
  | [] => []
  | call :: calls => (q.batch call).toList ++ batches evictions (q.move evictions call) calls

/-- A record comes in while the queue is not over its limit, or it is not queued by
eviction. -/
def Within (q : QueueState α) : QueueCall α → Prop
  | .enqueue _ => q.shutdown = false → q.opts.dropPolicy = .dropOldest →
      q.queue.length ≤ q.opts.maxQueueSize
  | _ => True

theorem move_eq {q : QueueState α} {call : QueueCall α} (h : q.Within call) :
    q.move untilRoom call = q.move justOne call := by
  cases call with
  | enqueue item =>
      simp only [move]
      split
      · rfl
      · next hlive =>
        split
        · rfl
        · next hfull =>
          split
          · next holdest =>
            have hwithin := h (by simpa using hlive) holdest
            have hone : untilRoom q.queue.length q.opts.maxQueueSize =
                justOne q.queue.length q.opts.maxQueueSize := by
              unfold untilRoom justOne
              omega
            rw [hone]
          · rfl
  | setOptions opts => rfl
  | collect => rfl
  | shutdown => rfl

theorem opts_move (evictions : Nat → Nat → Nat) (q : QueueState α) (call : QueueCall α) :
    (q.move evictions call).opts = q.opts ∨
      ∃ opts, call = .setOptions opts ∧ (q.move evictions call).opts = opts := by
  cases call with
  | enqueue item =>
      left
      simp only [move]
      split
      · rfl
      · split
        · rfl
        · split <;> rfl
  | setOptions opts => exact .inr ⟨opts, rfl, rfl⟩
  | collect => exact .inl rfl
  | shutdown => exact .inl rfl

def map (f : α → β) (q : QueueState α) : QueueState β :=
  { q with queue := q.queue.map f }

theorem map_move (f : α → β) (evictions : Nat → Nat → Nat) (q : QueueState α)
    (call : QueueCall α) :
    (q.move evictions call).map f = (q.map f).move evictions (call.map f) := by
  cases call with
  | enqueue item =>
      simp only [move, QueueCall.map, map, List.length_map]
      split
      · rfl
      · split
        · simp
        · split
          · simp
          · rfl
  | setOptions opts => rfl
  | collect => simp [move, QueueCall.map, map, batchSize]
  | shutdown => rfl

theorem map_batch (f : α → β) (q : QueueState α) (call : QueueCall α) :
    (q.map f).batch (call.map f) = (q.batch call).map (List.map f) := by
  cases call with
  | collect => simp [batch, QueueCall.map, map, batchSize]
  | _ => rfl

theorem map_batches (f : α → β) (evictions : Nat → Nat → Nat) (q : QueueState α)
    (calls : List (QueueCall α)) :
    (q.map f).batches evictions (calls.map (QueueCall.map f)) =
      (q.batches evictions calls).map (List.map f) := by
  induction calls generalizing q with
  | nil => rfl
  | cons call calls ih =>
      rw [List.map_cons, batches, map_batch, ← map_move, ih, batches, List.map_append]
      cases q.batch call <;> rfl

theorem map_foldl (f : α → β) (evictions : Nat → Nat → Nat) (q : QueueState α)
    (calls : List (QueueCall α)) :
    (calls.foldl (move evictions) q).map f =
      (calls.map (QueueCall.map f)).foldl (move evictions) (q.map f) := by
  induction calls generalizing q with
  | nil => rfl
  | cons call calls ih => rw [List.foldl_cons, ih, map_move, List.map_cons, List.foldl_cons]

theorem batches_append (evictions : Nat → Nat → Nat) (q : QueueState α)
    (calls more : List (QueueCall α)) :
    q.batches evictions (calls ++ more) =
      q.batches evictions calls ++ (calls.foldl (move evictions) q).batches evictions more := by
  induction calls generalizing q with
  | nil => rfl
  | cons call calls ih =>
      rw [List.cons_append, batches, ih, batches, List.foldl_cons, List.append_assoc]

/-- The two policies are one as long as no record comes in over the limit. -/
theorem policies_agree (q : QueueState α) (calls : List (QueueCall α))
    (h : ∀ before call after, calls = before ++ call :: after →
      (before.foldl (move justOne) q).Within call) :
    calls.foldl (move untilRoom) q = calls.foldl (move justOne) q ∧
      q.batches untilRoom calls = q.batches justOne calls := by
  induction calls generalizing q with
  | nil => exact ⟨rfl, rfl⟩
  | cons call calls ih =>
      have hfirst : q.move untilRoom call = q.move justOne call := move_eq (h [] call calls rfl)
      obtain ⟨hfold, hbatches⟩ := ih (q.move justOne call) (by
        intro before c after hsplit
        exact h (call :: before) c after (by rw [hsplit]; rfl))
      constructor
      · rw [List.foldl_cons, List.foldl_cons, hfirst]
        exact hfold
      · rw [batches, batches, hfirst, hbatches]

end QueueState

open QueueState

/-- What a machine with a queue has to show, step by step, to be one of these queues:
`call` names what an action asks of the queue, `cut` the batch it takes. The steps
may rely on `P`, and on `Q` as long as they keep it. -/
theorem run_queue {σ γ α : Type} {step : σ → γ → Option σ} {view : σ → QueueState α}
    {call : γ → Option (QueueCall α)} {cut : σ → γ → Option (List α)}
    {evictions : Nat → Nat → Nat} {P : List γ → σ → γ → Prop} {Q : List γ → σ → Prop}
    (hstep : ∀ before s a s', Q before s → P before s a → step s a = some s' →
      view s' = (call a).toList.foldl (move evictions) (view s) ∧ Q (before ++ [a]) s')
    (hcut : ∀ s a, cut s a = (call a).bind (view s).batch)
    {s t : σ} {as : List γ} (hfirst : Q [] s)
    (hok : ∀ before a after s', as = before ++ a :: after → run step s before = some s' →
      P before s' a)
    (hrun : run step s as = some t) :
    (view t = (as.filterMap call).foldl (move evictions) (view s) ∧
      trace step cut s as = (view s).batches evictions (as.filterMap call)) ∧ Q as t := by
  let Facts (before : List γ) (s₁ : σ) : Prop :=
    (view s₁ = (before.filterMap call).foldl (move evictions) (view s) ∧
      trace step cut s before = (view s).batches evictions (before.filterMap call)) ∧ Q before s₁
  refine @run_history _ _ step P Facts s t as ⟨⟨rfl, rfl⟩, hfirst⟩ ?_ hok hrun
  rintro before a s₁ s₂ hbefore ⟨⟨hview, hbatches⟩, hfacts⟩ hok₁ hstep₁
  obtain ⟨hview', hfacts'⟩ := hstep before s₁ a s₂ hfacts hok₁ hstep₁
  have hlast : [a].filterMap call = (call a).toList := by
    cases hcall : call a <;> simp [hcall]
  refine ⟨⟨?_, ?_⟩, hfacts'⟩
  · rw [hview', hview, List.filterMap_append, List.foldl_append, hlast]
  · rw [trace_snoc cut hbefore hstep₁, hbatches, List.filterMap_append, batches_append, ← hview,
      hcut, hlast]
    cases call a with
    | none => rfl
    | some c => simp [batches]

theorem positive_of_check {opts : BatchOptions} (h : checkBatchOptions opts = none) :
    0 < opts.maxQueueSize := by
  have hparts := (checkBatchOptions_eq_none_iff opts).mp h
  omega

/-! ### The log processor -/

section Log

variable {ω : Type}

def QueuedLog.scoped (q : QueuedLog ω) : ω × InstrumentationScope := (q.record, q.scope)

/-- What `OnEmit` and `WaitAndCollect` read. -/
def logView (p : LogProcessor ω) : QueueState (ω × InstrumentationScope) where
  opts := p.opts
  queue := p.queue.map QueuedLog.scoped
  shutdown := p.shutdown
  drops := p.drops

def logCall : LogProcessorAction ω → Option (QueueCall (ω × InstrumentationScope))
  | .emit record scope => some (.enqueue (record, scope))
  | .setOptions opts => some (.setOptions opts)
  | .collect => some .collect
  | .shutdown => some .shutdown
  | _ => none

theorem logCall_enqueue {a : LogProcessorAction ω} {record : ω} {scope : InstrumentationScope}
    (h : logCall a = some (.enqueue (record, scope))) : a = .emit record scope := by
  cases a with
  | emit record' scope' =>
      cases h
      rfl
  | _ => cases h

theorem logCall_setOptions {a : LogProcessorAction ω} {opts : BatchOptions}
    (h : logCall a = some (.setOptions opts)) : a = .setOptions opts := by
  cases a with
  | setOptions opts' =>
      cases h
      rfl
  | _ => cases h

def logCut (p : LogProcessor ω) : LogProcessorAction ω → Option (List (ω × InstrumentationScope))
  | .collect => some (p.nextBatch.map QueuedLog.scoped)
  | _ => none

theorem logCut_eq (p : LogProcessor ω) (a : LogProcessorAction ω) :
    logCut p a = (logCall a).bind (logView p).batch := by
  cases a with
  | collect =>
      simp [logCut, logCall, batch, LogProcessor.nextBatch, logView, batchSize, List.map_take]
  | _ => rfl

theorem logView_onEmit (p : LogProcessor ω) (record : ω) (scope : InstrumentationScope) :
    logView (p.onEmit record scope).1 = (logView p).move justOne (.enqueue (record, scope)) := by
  unfold LogProcessor.onEmit
  simp only [move]
  by_cases hdown : p.shutdown = true
  · simp [logView, hdown]
  · by_cases hfull : p.opts.maxQueueSize ≤ p.queue.length
    · have hnot : ¬ p.queue.length < p.opts.maxQueueSize := by omega
      by_cases holdest : p.opts.dropPolicy = .dropOldest
      · simp [logView, hdown, hfull, holdest, justOne, QueuedLog.scoped]
      · simp [logView, hdown, hfull, holdest]
    · have hroom : p.queue.length < p.opts.maxQueueSize := by omega
      rw [if_neg hdown, if_neg hfull]
      simp [logView, hdown, hroom, QueuedLog.scoped]

theorem logView_step {p p' : LogProcessor ω} {a : LogProcessorAction ω} (h : p.step a = some p') :
    logView p' = (logCall a).toList.foldl (move justOne) (logView p) := by
  cases a with
  | emit record scope =>
      rw [← Option.some.inj h]
      exact logView_onEmit p record scope
  | setOptions opts =>
      rw [← Option.some.inj h]
      rfl
  | forceFlush =>
      rw [← Option.some.inj h]
      unfold LogProcessor.forceFlush
      split <;> rfl
  | flushReturn i =>
      simp only [LogProcessor.step, LogProcessor.flushReturn] at h
      split at h
      · rw [← Option.some.inj h]
        rfl
      · cases h
  | shutdown =>
      rw [← Option.some.inj h]
      rfl
  | collect =>
      simp only [LogProcessor.step, LogProcessor.collect] at h
      split at h
      · rw [← Option.some.inj h]
        simp [logView, logCall, move, batchSize, List.map_drop]
      · cases h
  | handOver =>
      simp only [LogProcessor.step, LogProcessor.handOver] at h
      split at h
      · rw [← Option.some.inj h]
        rfl
      · cases h
  | finish =>
      simp only [LogProcessor.step, LogProcessor.finish] at h
      split at h
      · rw [← Option.some.inj h]
        rfl
      · cases h

theorem log_run {p p' : LogProcessor ω} {as : List (LogProcessorAction ω)}
    (h : run LogProcessor.step p as = some p') :
    logView p' = (as.filterMap logCall).foldl (move justOne) (logView p) ∧
      trace LogProcessor.step logCut p as =
        (logView p).batches justOne (as.filterMap logCall) :=
  (run_queue (P := fun _ _ _ => True) (Q := fun _ _ => True)
    (fun _ _ _ _ _ _ hstep => ⟨logView_step hstep, trivial⟩) logCut_eq trivial
    (fun _ _ _ _ _ _ => trivial) h).1

end Log

/-! ### The span processor -/

section Span

variable {ρ : Type}

def spanView (p : Processor ρ) : QueueState (Scoped ρ) where
  opts := p.opts
  queue := p.queue.map QueuedSpan.scoped
  shutdown := p.shutdown
  drops := p.drops

def spanCall : ProcessorAction ρ → Option (QueueCall (Scoped ρ))
  | .enqueue record scope => some (.enqueue (record, scope))
  | .setOptions opts => some (.setOptions opts)
  | .collect => some .collect
  | .shutdown => some .shutdown
  | _ => none

theorem spanCall_setOptions {a : ProcessorAction ρ} {opts : BatchOptions}
    (h : spanCall a = some (.setOptions opts)) : a = .setOptions opts := by
  cases a with
  | setOptions opts' =>
      cases h
      rfl
  | _ => cases h

def spanCut (p : Processor ρ) : ProcessorAction ρ → Option (List (Scoped ρ))
  | .collect =>
      some ((p.queue.take (min p.queue.length p.opts.maxExportBatchSize)).map QueuedSpan.scoped)
  | _ => none

theorem spanCut_eq (p : Processor ρ) (a : ProcessorAction ρ) :
    spanCut p a = (spanCall a).bind (spanView p).batch := by
  cases a with
  | collect => simp [spanCut, spanCall, batch, spanView, batchSize, List.map_take]
  | _ => rfl

/-! Where the bytes do not count, `MakeRoomFor` is about the length alone. -/

section MakeRoom

variable {opts : BatchOptions} {maxTotalQueueBytes recordBytes : Nat}

theorem makeRoomFor_free {queue : List (QueuedSpan ρ)} {queueBytes : Int}
    (hfree : queue.length < opts.maxQueueSize)
    (hbytes : queueBytes + recordBytes ≤ maxTotalQueueBytes) (drops : DropReason → Nat) :
    makeRoomFor opts maxTotalQueueBytes recordBytes queue queueBytes drops =
      ⟨queue, queueBytes, drops, [], true⟩ := by
  unfold makeRoomFor
  rw [if_neg (by omega)]

theorem makeRoomFor_newest {queue : List (QueuedSpan ρ)}
    (hfull : opts.maxQueueSize ≤ queue.length) (hpolicy : opts.dropPolicy ≠ .dropOldest)
    (queueBytes : Int) (drops : DropReason → Nat) :
    makeRoomFor opts maxTotalQueueBytes recordBytes queue queueBytes drops =
      ⟨queue, queueBytes, recordDropped drops .queueFull, [], false⟩ := by
  unfold makeRoomFor
  rw [if_pos (.inl hfull), if_pos hpolicy]

theorem makeRoomFor_oldest (hopts : 0 < opts.maxQueueSize) (hpolicy : opts.dropPolicy = .dropOldest)
    (queue : List (QueuedSpan ρ)) (hfull : opts.maxQueueSize ≤ queue.length) (queueBytes : Int)
    (hbytes : queueBytes + recordBytes ≤ maxTotalQueueBytes) (drops : DropReason → Nat) :
    let room := makeRoomFor opts maxTotalQueueBytes recordBytes queue queueBytes drops
    room.queue = queue.drop (untilRoom queue.length opts.maxQueueSize) ∧
      room.drops = recordDropped drops .queueFull (untilRoom queue.length opts.maxQueueSize) ∧
      room.fits = true ∧ room.queueBytes ≤ queueBytes := by
  intro room
  induction queue generalizing queueBytes drops with
  | nil =>
      rw [List.length_nil] at hfull
      omega
  | cons front rest ih =>
      have hroom : room = { makeRoomFor opts maxTotalQueueBytes recordBytes rest
          (queueBytes - front.bytes) (recordDropped drops .queueFull) with
          evicted := front :: (makeRoomFor opts maxTotalQueueBytes recordBytes rest
            (queueBytes - front.bytes) (recordDropped drops .queueFull)).evicted } := by
        unfold room
        conv => lhs; unfold makeRoomFor
        rw [if_pos (.inl hfull), if_neg (by simp [hpolicy])]
      rw [hroom]
      dsimp only
      rw [List.length_cons] at hfull ⊢
      by_cases hfree : rest.length < opts.maxQueueSize
      · have hone : untilRoom (rest.length + 1) opts.maxQueueSize = 1 := by
          unfold untilRoom
          omega
        rw [makeRoomFor_free hfree (by omega), hone]
        exact ⟨rfl, rfl, rfl, by dsimp only; omega⟩
      · have hmore : untilRoom (rest.length + 1) opts.maxQueueSize =
            untilRoom rest.length opts.maxQueueSize + 1 := by
          unfold untilRoom
          omega
        obtain ⟨hqueue, hdrops, hfits, hless⟩ := ih (by omega) (queueBytes - front.bytes) (by omega)
          (recordDropped drops .queueFull)
        refine ⟨?_, ?_, hfits, by omega⟩
        · rw [hqueue, hmore, List.drop_succ_cons]
        · rw [hdrops, hmore]
          funext reason
          simp only [recordDropped_apply]
          split <;> omega

end MakeRoom

/-- `Enqueue` of a record no byte limit stands in the way of. -/
theorem spanView_enqueue (p : Processor ρ) (hopts : 0 < p.opts.maxQueueSize)
    (record : SpanRecord ρ) (scope : InstrumentationScope)
    (hrecord : estimateRecordBytes record ≤ p.maxRecordBytes)
    (hbytes : p.queueBytes + estimateRecordBytes record ≤ p.maxTotalQueueBytes) :
    spanView (p.enqueue record scope).1 = (spanView p).move untilRoom (.enqueue (record, scope)) ∧
      (p.enqueue record scope).1.queueBytes ≤ p.queueBytes + estimateRecordBytes record := by
  unfold Processor.enqueue
  dsimp only
  by_cases hdown : p.shutdown = true
  · rw [if_pos hdown]
    refine ⟨?_, ?_⟩
    · simp [spanView, Processor.refuse, move, hdown]
    · simp [Processor.refuse]
  · rw [if_neg hdown, if_neg (by omega)]
    by_cases hfull : p.opts.maxQueueSize ≤ p.queue.length
    · have hnot : ¬ p.queue.length < p.opts.maxQueueSize := by omega
      by_cases holdest : p.opts.dropPolicy = .dropOldest
      · obtain ⟨hqueue, hdrops, hfits, hless⟩ :=
          makeRoomFor_oldest hopts holdest p.queue hfull p.queueBytes hbytes p.drops
        rw [hqueue, hdrops, hfits, if_pos rfl]
        refine ⟨?_, by dsimp only; omega⟩
        simp [spanView, move, hdown, hfull, holdest, QueuedSpan.scoped]
      · rw [makeRoomFor_newest hfull holdest]
        refine ⟨?_, ?_⟩
        · simp [spanView, Processor.refuse, move, hdown, hfull, holdest]
        · simp [Processor.refuse]
    · have hfree : p.queue.length < p.opts.maxQueueSize := by omega
      rw [makeRoomFor_free hfree hbytes]
      refine ⟨?_, ?_⟩
      · simp [spanView, move, hdown, hfree, QueuedSpan.scoped]
      · simp

theorem enqueue_limits (p : Processor ρ) (record : SpanRecord ρ) (scope : InstrumentationScope) :
    (p.enqueue record scope).1.maxRecordBytes = p.maxRecordBytes ∧
      (p.enqueue record scope).1.maxTotalQueueBytes = p.maxTotalQueueBytes ∧
      (p.enqueue record scope).1.opts = p.opts := by
  unfold Processor.enqueue
  dsimp only
  split
  · exact ⟨rfl, rfl, rfl⟩
  · split
    · exact ⟨rfl, rfl, rfl⟩
    · split <;> exact ⟨rfl, rfl, rfl⟩

theorem foldl_bytes_le (batch : List (QueuedSpan ρ)) (bytes : Int) :
    batch.foldl (fun (total : Int) q => total - (q.bytes : Int)) bytes ≤ bytes := by
  induction batch generalizing bytes with
  | nil => exact le_refl _
  | cons q batch ih =>
      have hrest := ih (bytes - q.bytes)
      rw [List.foldl_cons]
      omega

/-- The estimate of the record an action offers. -/
def offeredBytes : ProcessorAction ρ → Nat
  | .enqueue record _ => estimateRecordBytes record
  | _ => 0

/-- Nothing of the byte limits, and `SetBatchOptions` refuses a queue of no length. -/
structure Unhindered (maxRecordBytes maxTotalQueueBytes : Nat) (before : List (ProcessorAction ρ))
    (p : Processor ρ) : Prop where
  record : p.maxRecordBytes = maxRecordBytes
  total : p.maxTotalQueueBytes = maxTotalQueueBytes
  queued : p.queueBytes ≤ ((before.map offeredBytes).sum : Nat)
  positive : 0 < p.opts.maxQueueSize

/-- What the next action has to meet. -/
def Admissible (maxRecordBytes maxTotalQueueBytes : Nat) (before : List (ProcessorAction ρ))
    (a : ProcessorAction ρ) : Prop :=
  offeredBytes a ≤ maxRecordBytes ∧
    ((before ++ [a]).map offeredBytes).sum ≤ maxTotalQueueBytes ∧
    ∀ opts, a = .setOptions opts → 0 < opts.maxQueueSize

variable [DecidableEq ρ]

theorem spanView_step {maxRecordBytes maxTotalQueueBytes : Nat}
    {before : List (ProcessorAction ρ)} {p p' : Processor ρ} {a : ProcessorAction ρ}
    (U : Unhindered maxRecordBytes maxTotalQueueBytes before p)
    (hok : Admissible maxRecordBytes maxTotalQueueBytes before a) (h : p.step a = some p') :
    spanView p' = (spanCall a).toList.foldl (move untilRoom) (spanView p) ∧
      Unhindered maxRecordBytes maxTotalQueueBytes (before ++ [a]) p' := by
  have hbefore : (before.map offeredBytes).sum ≤ ((before ++ [a]).map offeredBytes).sum := by
    rw [List.map_append, List.sum_append]
    omega
  have hqueued := U.queued
  cases a with
  | enqueue record scope =>
      obtain ⟨hrecord, htotal, -⟩ := hok
      have hsum : ((before ++ [ProcessorAction.enqueue record scope]).map offeredBytes).sum =
          (before.map offeredBytes).sum + estimateRecordBytes record := by
        simp [offeredBytes]
      rw [hsum] at htotal
      have hview := spanView_enqueue p U.positive record scope
        (by rw [U.record]; exact hrecord) (by rw [U.total]; omega)
      rw [← Option.some.inj h]
      obtain ⟨hsame₁, hsame₂, hsame₃⟩ := enqueue_limits p record scope
      refine ⟨hview.1, hsame₁.trans U.record, hsame₂.trans U.total, ?_, hsame₃ ▸ U.positive⟩
      · rw [hsum, Nat.cast_add]
        have hless := hview.2
        omega
  | setOptions opts =>
      rw [← Option.some.inj h]
      exact ⟨rfl, U.record, U.total, by dsimp only [Processor.setOptions]; omega, hok.2.2 opts rfl⟩
  | forceFlush =>
      rw [← Option.some.inj h]
      unfold Processor.forceFlush
      split
      · exact ⟨rfl, U.record, U.total, by omega, U.positive⟩
      · exact ⟨rfl, U.record, U.total, by dsimp only; omega, U.positive⟩
  | flushReturn i =>
      simp only [Processor.step, Processor.flushReturn] at h
      split at h
      · cases h
      · split at h
        · cases h
        · rw [← Option.some.inj h]
          exact ⟨rfl, U.record, U.total, by dsimp only; omega, U.positive⟩
  | shutdown =>
      rw [← Option.some.inj h]
      exact ⟨rfl, U.record, U.total, by dsimp only [Processor.shutDown]; omega, U.positive⟩
  | collect =>
      simp only [Processor.step, Processor.collect] at h
      split at h
      · have hless := foldl_bytes_le (p.queue.take (min p.queue.length p.opts.maxExportBatchSize))
          p.queueBytes
        rw [← Option.some.inj h]
        refine ⟨?_, U.record, U.total, by dsimp only; omega, U.positive⟩
        simp [spanView, spanCall, move, batchSize, List.map_drop]
      · cases h
  | handOver =>
      simp only [Processor.step, Processor.handOver] at h
      split at h
      · rw [← Option.some.inj h]
        exact ⟨rfl, U.record, U.total, by dsimp only; omega, U.positive⟩
      · cases h
  | finish =>
      simp only [Processor.step, Processor.finish] at h
      split at h
      · rw [← Option.some.inj h]
        exact ⟨rfl, U.record, U.total, by dsimp only; omega, U.positive⟩
      · cases h

/-- Limits no record and no run of records reaches. -/
structure Unbounded (maxRecordBytes maxTotalQueueBytes : Nat) (as : List (ProcessorAction ρ)) :
    Prop where
  record : ∀ a ∈ as, offeredBytes a ≤ maxRecordBytes
  total : (as.map offeredBytes).sum ≤ maxTotalQueueBytes

theorem span_run {resource : ρ} {opts : BatchOptions} {maxRecordBytes maxTotalQueueBytes : Nat}
    {grouped : Bool} {as : List (ProcessorAction ρ)} {p : Processor ρ}
    (hopts : checkBatchOptions opts = none)
    (hset : ∀ opts, .setOptions opts ∈ as → checkBatchOptions opts = none)
    (hbytes : Unbounded maxRecordBytes maxTotalQueueBytes as)
    (h : run Processor.step
      (.new resource opts maxRecordBytes maxTotalQueueBytes grouped) as = some p) :
    spanView p = (as.filterMap spanCall).foldl (move untilRoom) ⟨opts, [], false, fun _ => 0⟩ ∧
      trace Processor.step spanCut
          (.new resource opts maxRecordBytes maxTotalQueueBytes grouped) as =
        QueueState.batches untilRoom ⟨opts, [], false, fun _ => 0⟩ (as.filterMap spanCall) := by
  refine (run_queue (P := fun before _ a => Admissible maxRecordBytes maxTotalQueueBytes before a)
    (Q := Unhindered maxRecordBytes maxTotalQueueBytes)
    (fun before s a s' U hok hstep => spanView_step U hok hstep) spanCut_eq
    ⟨rfl, rfl, by simp [Processor.new], positive_of_check hopts⟩ ?_ h).1
  intro before a after s' hsplit _
  have hmem : a ∈ as := by simp [hsplit]
  refine ⟨hbytes.record a hmem, ?_, ?_⟩
  · have htotal := hbytes.total
    rw [hsplit, ← List.singleton_append, ← List.append_assoc, List.map_append, List.sum_append]
      at htotal
    omega
  · rintro o rfl
    exact positive_of_check (hset o hmem)

end Span

/-! ### Both -/

section Both

variable {ρ ω : Type}

/-- A queued record is the last of a queue that is not too long. -/
theorem length_enqueue {p : Processor ρ} {record : SpanRecord ρ} {scope : InstrumentationScope}
    (h : (p.enqueue record scope).2 = true) :
    (p.enqueue record scope).1.queue.length ≤ p.opts.maxQueueSize := by
  have hroom : ∀ (queue : List (QueuedSpan ρ)) (queueBytes : Int) (drops : DropReason → Nat),
      let room := makeRoomFor p.opts p.maxTotalQueueBytes (estimateRecordBytes record) queue
        queueBytes drops
      room.fits = true → room.queue.length < p.opts.maxQueueSize := by
    intro queue
    induction queue with
    | nil =>
        intro queueBytes drops room hfits
        unfold room makeRoomFor at hfits ⊢
        split at hfits
        · split at hfits <;> cases hfits
        · next hfree =>
          rw [if_neg hfree]
          dsimp only
          omega
    | cons front rest ih =>
        intro queueBytes drops room hfits
        unfold room makeRoomFor at hfits ⊢
        split at hfits
        · next hfull =>
          rw [if_pos hfull]
          split at hfits
          · cases hfits
          · next holdest =>
            rw [if_neg holdest]
            exact ih _ _ hfits
        · next hfree =>
          rw [if_neg hfree]
          dsimp only
          omega
  unfold Processor.enqueue at h ⊢
  dsimp only at h ⊢
  split at h
  · cases h
  · next hlive =>
    rw [if_neg hlive]
    split at h
    · cases h
    · next hsmall =>
      rw [if_neg hsmall]
      split at h
      · next hfits =>
        have hlt := hroom _ _ _ hfits
        rw [if_pos hfits, List.length_append, List.length_singleton]
        omega
      · cases h

theorem length_onEmit {p : LogProcessor ω} {record : ω} {scope : InstrumentationScope}
    (hpositive : 0 < p.opts.maxQueueSize)
    (hwithin : p.shutdown = false → p.opts.dropPolicy = .dropOldest →
      p.queue.length ≤ p.opts.maxQueueSize)
    (h : (p.onEmit record scope).2 = true) :
    (p.onEmit record scope).1.queue.length ≤ p.opts.maxQueueSize := by
  unfold LogProcessor.onEmit at h ⊢
  split at h
  · cases h
  · next hlive =>
    rw [if_neg hlive]
    split at h
    · next hfull =>
      rw [if_pos hfull]
      split at h
      · next holdest =>
        have hlen := hwithin (by simpa using hlive) holdest
        rw [if_pos holdest, List.length_append, List.length_singleton, List.length_tail]
        omega
      · cases h
    · next hfree =>
      rw [if_neg hfree, List.length_append, List.length_singleton]
      omega

/-- The condition on the states of a run, as one on the calls. -/
theorem within_of_run {l₀ l : LogProcessor ω} {bs : List (LogProcessorAction ω)}
    (hlog : run LogProcessor.step l₀ bs = some l)
    (hwithin : ∀ before record scope after l', bs = before ++ .emit record scope :: after →
      run LogProcessor.step l₀ before = some l' → l'.shutdown = false →
      l'.opts.dropPolicy = .dropOldest → l'.queue.length ≤ l'.opts.maxQueueSize)
    {calls later : List (QueueCall (ω × InstrumentationScope))}
    {call : QueueCall (ω × InstrumentationScope)}
    (hsplit : bs.filterMap logCall = calls ++ call :: later) :
    (calls.foldl (move justOne) (logView l₀)).Within call := by
  obtain ⟨before, rest, rfl, rfl, hrest⟩ := List.filterMap_eq_append_iff.mp hsplit
  obtain ⟨silent, a, after, rfl, hsilent, ha, -⟩ := List.filterMap_eq_cons_iff.mp hrest
  rw [← List.append_assoc] at hlog hwithin
  have hcalls : (before ++ silent).filterMap logCall = before.filterMap logCall := by
    rw [List.filterMap_append, List.filterMap_eq_nil_iff.mpr hsilent, List.append_nil]
  obtain ⟨l', hbefore, -⟩ := Option.bind_eq_some_iff.mp ((run_append _ _ _ _).symm.trans hlog)
  have hview := (log_run hbefore).1
  rw [hcalls] at hview
  rw [← hview]
  cases call with
  | enqueue item =>
      obtain ⟨record, scope⟩ := item
      obtain rfl := logCall_enqueue ha
      intro hlive holdest
      have hlen := hwithin (before ++ silent) record scope after l' rfl hbefore hlive holdest
      simpa [logView] using hlen
  | _ => trivial

/-- The options in force have passed the checks. -/
theorem log_positive {opts : BatchOptions} {bs : List (LogProcessorAction ω)} {l : LogProcessor ω}
    (hopts : 0 < opts.maxQueueSize)
    (hset : ∀ opts, .setOptions opts ∈ bs → 0 < opts.maxQueueSize)
    (h : run LogProcessor.step { opts } bs = some l) : 0 < l.opts.maxQueueSize := by
  refine @run_invariant_of _ _ _ (fun _ a => a ∈ bs)
    (fun l : LogProcessor ω => 0 < l.opts.maxQueueSize) ?_ _ _ _ hopts ?_ h
  · intro l a l' hpositive hmem hstep
    have hview : l'.opts = ((logCall a).toList.foldl (move justOne) (logView l)).opts :=
      congrArg QueueState.opts (logView_step hstep)
    rw [hview]
    cases hcall : logCall a with
    | none => exact hpositive
    | some call =>
        rcases opts_move justOne (logView l) call with hsame | ⟨o, rfl, hnew⟩
        · rw [Option.toList_some, List.foldl_cons, List.foldl_nil, hsame]
          exact hpositive
        · obtain rfl := logCall_setOptions hcall
          exact hset o hmem
  · intro before a after l' hsplit _
    simp [hsplit]

variable [DecidableEq ρ]

/-- As long as no record comes in over the limit under `DropOldest`, the two
processors keep the same records, cut the same batches and count the same drops. -/
theorem queues_agree (spanOf : ω → SpanRecord ρ) (resource : ρ) (opts : BatchOptions)
    (maxRecordBytes maxTotalQueueBytes : Nat) (grouped : Bool)
    (as : List (ProcessorAction ρ)) (bs : List (LogProcessorAction ω)) (p : Processor ρ)
    (l : LogProcessor ω)
    (hspan : run Processor.step
      (.new resource opts maxRecordBytes maxTotalQueueBytes grouped) as = some p)
    (hlog : run LogProcessor.step { opts } bs = some l)
    (hcalls : as.filterMap spanCall =
      (bs.filterMap logCall).map (QueueCall.map (Prod.map spanOf id)))
    (hopts : checkBatchOptions opts = none)
    (hset : ∀ opts, .setOptions opts ∈ as → checkBatchOptions opts = none)
    (hbytes : Unbounded maxRecordBytes maxTotalQueueBytes as)
    (hwithin : ∀ before record scope after l', bs = before ++ .emit record scope :: after →
      run LogProcessor.step { opts } before = some l' → l'.shutdown = false →
      l'.opts.dropPolicy = .dropOldest → l'.queue.length ≤ l'.opts.maxQueueSize) :
    p.queue.map QueuedSpan.scoped =
        (l.queue.map QueuedLog.scoped).map (Prod.map spanOf id) ∧
      trace Processor.step spanCut
          (.new resource opts maxRecordBytes maxTotalQueueBytes grouped) as =
        (trace LogProcessor.step logCut { opts } bs).map (List.map (Prod.map spanOf id)) ∧
      p.drops = l.drops ∧
      (∀ before record scope after p', as = before ++ .enqueue record scope :: after →
        run Processor.step (.new resource opts maxRecordBytes maxTotalQueueBytes grouped) before =
          some p' → (p'.enqueue record scope).2 = true →
        (p'.enqueue record scope).1.queue.length ≤ p'.opts.maxQueueSize) ∧
      (∀ before record scope after l', bs = before ++ .emit record scope :: after →
        run LogProcessor.step { opts } before = some l' → (l'.onEmit record scope).2 = true →
        (l'.onEmit record scope).1.queue.length ≤ l'.opts.maxQueueSize) := by
  obtain ⟨hview₁, hbatches₁⟩ := span_run hopts hset hbytes hspan
  obtain ⟨hview₂, hbatches₂⟩ := log_run hlog
  have hstart : (logView ({ opts } : LogProcessor ω)).map (Prod.map spanOf id) =
      ⟨opts, [], false, fun _ => 0⟩ := rfl
  obtain ⟨hstates, hbatches⟩ := policies_agree (logView ({ opts } : LogProcessor ω))
    (bs.filterMap logCall) (by
      intro calls call later hsplit
      exact within_of_run hlog hwithin hsplit)
  have hview : spanView p = (logView l).map (Prod.map spanOf id) := by
    rw [hview₁, hcalls, ← hstart, ← map_foldl, hstates, ← hview₂]
  refine ⟨congrArg QueueState.queue hview, ?_, congrArg QueueState.drops hview, ?_, ?_⟩
  · rw [hbatches₁, hcalls, ← hstart, map_batches, hbatches, ← hbatches₂]
  · intro before record scope after p' hsplit hbefore haccepted
    exact length_enqueue haccepted
  · intro before record scope after l' hsplit hbefore haccepted
    refine length_onEmit ?_ (hwithin before record scope after l' hsplit hbefore) haccepted
    refine log_positive (positive_of_check hopts) ?_ hbefore
    intro o ho
    have hcall : QueueCall.setOptions o ∈ as.filterMap spanCall := by
      rw [hcalls, List.mem_map]
      refine ⟨.setOptions o, ?_, rfl⟩
      rw [List.mem_filterMap]
      exact ⟨.setOptions o, by rw [hsplit]; simp [ho], rfl⟩
    obtain ⟨a, ha, hacall⟩ := List.mem_filterMap.mp hcall
    obtain rfl := spanCall_setOptions hacall
    exact positive_of_check (hset o ha)

end Both

/-- Two records for a queue of one, then a batch. -/
theorem queues_agree_eviction :
    let opts : BatchOptions :=
      { maxQueueSize := 1, maxExportBatchSize := 1, dropPolicy := .dropOldest }
    let scope : InstrumentationScope := ⟨[], []⟩
    let spans : List (ProcessorAction Unit) :=
      [.enqueue { name := [1] } scope, .enqueue { name := [2] } scope, .collect, .handOver]
    let logs : List (LogProcessorAction Nat) := [.emit 1 scope, .emit 2 scope, .collect]
    ∃ p l, run Processor.step (.new () opts 1000 1000 false) spans = some p ∧
      run LogProcessor.step { opts } logs = some l ∧ p.drops = l.drops ∧
        l.drops .queueFull = 1 ∧
        trace LogProcessor.step logCut { opts } logs = [[(2, scope)]] := by
  intro opts scope spans logs
  obtain ⟨p, hp⟩ := Option.isSome_iff_exists.mp
    (show (run Processor.step (.new () opts 1000 1000 false) spans).isSome = true by decide)
  obtain ⟨l, hl, hdrops⟩ : ∃ l, run LogProcessor.step { opts } logs = some l ∧
      l.drops .queueFull = 1 := ⟨_, rfl, rfl⟩
  refine ⟨p, l, hp, hl, ?_, hdrops, rfl⟩
  refine (queues_agree (fun n => { name := [UInt8.ofNat n] }) () opts 1000 1000 false spans logs p l
    hp hl rfl rfl (by simp [spans]) ⟨by decide, by decide⟩ ?_).2.2.1
  intro before record scope' after l' hsplit hbefore
  exact @throughout_sound _ _ LogProcessor.step
    (fun (l : LogProcessor Nat) _ => l.shutdown = false → l.opts.dropPolicy = .dropOldest →
      l.queue.length ≤ l.opts.maxQueueSize) inferInstance { opts } logs (by decide)
    before _ after l' hsplit hbefore

/-- Three records queued, the limit lowered to one, one more record: the span queue is
cut down to it, the log queue stays as long as it was. -/
theorem queues_part :
    let opts : BatchOptions :=
      { maxQueueSize := 3, maxExportBatchSize := 1, dropPolicy := .dropOldest }
    let scope : InstrumentationScope := ⟨[], []⟩
    let spans : List (ProcessorAction Unit) :=
      [.enqueue { name := [1] } scope, .enqueue { name := [2] } scope,
        .enqueue { name := [3] } scope,
        .setOptions { opts with maxQueueSize := 1 }, .enqueue { name := [4] } scope]
    let logs : List (LogProcessorAction Nat) :=
      [.emit 1 scope, .emit 2 scope, .emit 3 scope, .setOptions { opts with maxQueueSize := 1 },
        .emit 4 scope]
    checkBatchOptions opts = none ∧ checkBatchOptions { opts with maxQueueSize := 1 } = none ∧
      Unbounded 1000 1000 spans ∧
      spans.filterMap spanCall = (logs.filterMap logCall).map
        (QueueCall.map (Prod.map (fun n => { name := [UInt8.ofNat n] }) id)) ∧
      ∃ p l, run Processor.step (.new () opts 1000 1000 false) spans = some p ∧
        run LogProcessor.step { opts } logs = some l ∧
        p.queue.length = 1 ∧ p.drops .queueFull = 3 ∧
        l.queue.map QueuedLog.record = [2, 3, 4] ∧ l.drops .queueFull = 1 ∧
        l.opts.maxQueueSize = 1 := by
  refine ⟨rfl, rfl, ⟨by decide, by decide⟩, rfl, ?_⟩
  exact ⟨_, _, rfl, rfl, by decide, by decide, by decide, by decide, rfl⟩

end Microtel.Sdk
