import Microtel.Pipeline.ProcessorRuns

/-!
A `ForceFlush` of `BatchSpanProcessor` that completes: every record accepted before
the call has been evicted or handed to the exporter.
-/

namespace Microtel.Pipeline.Processor

open Machine

variable {ρ : Type} {p p' : Processor ρ}

/-- The accepted records that have left the processor. -/
def passed (p : Processor ρ) : List (Scoped ρ) :=
  p.ledger.evicted ++ p.ledger.handed.flatMap BatchHandle.scoped

structure Flushes (p : Processor ρ) : Prop where
  evicted : (p.ledger.evicted.map (·, DropReason.queueFull)).Sublist p.ledger.lost
  departed : p.ledger.departed.Perm (p.passed ++ p.held)
  doneLe : p.flushDoneSeq ≤ p.flushSeq
  targets : ∀ f ∈ p.flushes, 0 < f.target ∧ f.target ≤ p.flushSeq
  before : ∀ f ∈ p.flushes, f.before <+: p.ledger.accepted
  /-- What a flush served by the worker's iteration waits for is in the worker's hands. -/
  pending : ∀ handles seq done, p.worker = .exporting handles seq done →
    (seq = 0 ∨ p.flushDoneSeq ≤ seq) ∧ seq ≤ p.flushSeq ∧
      ∀ f ∈ p.flushes, f.target ≤ seq → f.before.Subperm (p.passed ++ p.held)
  done : ∀ f ∈ p.flushes, f.target ≤ p.flushDoneSeq → f.before.Subperm p.passed
  completed : ∀ f ∈ p.flushes, f.result = some .completed → f.target ≤ p.flushDoneSeq

theorem Flushes.new (resource : ρ) (opts : BatchOptions) (maxRecordBytes maxTotalQueueBytes : Nat)
    (grouped : Bool) :
    (new resource opts maxRecordBytes maxTotalQueueBytes grouped).Flushes where
  evicted := List.Sublist.refl _
  departed := List.Perm.nil
  doneLe := Nat.le_refl _
  targets := by simp [Processor.new]
  before := by simp [Processor.new]
  pending := by simp [Processor.new]
  done := by simp [Processor.new]
  completed := by simp [Processor.new]

/-! ### Callers -/

/-- A step that leaves the flushes and the worker, and only adds to the records
accepted and evicted. -/
theorem Flushes.grow (h : p.Flushes) {evicted : List (Scoped ρ)} (hflushes : p'.flushes = p.flushes)
    (hseq : p'.flushSeq = p.flushSeq) (hdone : p'.flushDoneSeq = p.flushDoneSeq)
    (hworker : p'.worker = p.worker) (haccepted : p.ledger.accepted <+: p'.ledger.accepted)
    (hdeparted : p'.ledger.departed = p.ledger.departed ++ evicted)
    (hevicted : p'.ledger.evicted = p.ledger.evicted ++ evicted)
    (hhanded : p'.ledger.handed = p.ledger.handed)
    (hlost : (p.ledger.lost ++ evicted.map (·, DropReason.queueFull)).Sublist p'.ledger.lost) :
    p'.Flushes := by
  have hheld : p'.held = p.held := by
    unfold Processor.held
    rw [hworker]
  have hpassed : p'.passed.Perm (p.passed ++ evicted) := by
    unfold passed
    rw [hevicted, hhanded]
    simp only [List.append_assoc]
    exact List.perm_append_comm.append_left _
  have hmore : p.passed.Subperm p'.passed :=
    (List.sublist_append_left _ _).subperm.trans hpassed.symm.subperm
  refine ⟨?_, ?_, ?_, ?_, ?_, ?_, ?_, ?_⟩
  · rw [hevicted, List.map_append]
    exact (h.evicted.append (List.Sublist.refl _)).trans hlost
  · rw [hdeparted, hheld]
    apply (h.departed.append_right evicted).trans
    rw [List.append_assoc]
    apply (List.perm_append_comm.append_left _).trans
    rw [← List.append_assoc]
    exact hpassed.symm.append_right _
  · rw [hseq, hdone]
    exact h.doneLe
  · rw [hflushes, hseq]
    exact h.targets
  · rw [hflushes]
    intro f hf
    exact (h.before f hf).trans haccepted
  · rw [hworker, hflushes, hseq, hdone, hheld]
    intro handles seq done hexporting
    obtain ⟨hless, hle, hpending⟩ := h.pending handles seq done hexporting
    refine ⟨hless, hle, fun f hf htarget => ?_⟩
    exact (hpending f hf htarget).trans (hmore.append (List.Subperm.refl _))
  · rw [hflushes, hdone]
    intro f hf htarget
    exact (h.done f hf htarget).trans hmore
  · rw [hflushes, hdone]
    exact h.completed

theorem Flushes.enqueue (h : p.Flushes) (record : SpanRecord ρ) (scope : InstrumentationScope) :
    (p.enqueue record scope).1.Flushes := by
  unfold Processor.enqueue
  dsimp only
  split
  · exact h.grow rfl rfl rfl rfl (List.prefix_refl _) (List.append_nil _).symm
      (List.append_nil _).symm rfl ((List.Sublist.refl _).append (List.nil_sublist _))
  split
  · exact h.grow rfl rfl rfl rfl (List.prefix_refl _) (List.append_nil _).symm
      (List.append_nil _).symm rfl ((List.Sublist.refl _).append (List.nil_sublist _))
  split
  · exact h.grow rfl rfl rfl rfl (List.prefix_append _ _) rfl rfl rfl (List.Sublist.refl _)
  · exact h.grow rfl rfl rfl rfl (List.prefix_refl _) rfl rfl rfl (List.sublist_append_left _ _)

theorem Flushes.same (h : p.Flushes) (hflushes : p'.flushes = p.flushes)
    (hseq : p'.flushSeq = p.flushSeq) (hdone : p'.flushDoneSeq = p.flushDoneSeq)
    (hworker : p'.worker = p.worker) (hledger : p'.ledger = p.ledger) : p'.Flushes := by
  apply h.grow hflushes hseq hdone hworker
  · rw [hledger]
  · rw [hledger]
    exact (List.append_nil _).symm
  · rw [hledger]
    exact (List.append_nil _).symm
  · rw [hledger]
  · rw [hledger, List.map_nil, List.append_nil]

/-- A new call waits for a sequence number nobody has served. -/
theorem Flushes.forceFlush (h : p.Flushes) : p.forceFlush.Flushes := by
  unfold Processor.forceFlush
  split
  · exact h
  have hdoneLe := h.doneLe
  refine ⟨h.evicted, h.departed, ?_, ?_, ?_, ?_, ?_, ?_⟩
  · dsimp only
    omega
  · intro f hf
    rcases List.mem_append.mp hf with hf | hf
    · have htarget := h.targets f hf
      exact ⟨htarget.1, by dsimp only; omega⟩
    · rw [List.mem_singleton.mp hf]
      exact ⟨Nat.succ_pos _, Nat.le_refl _⟩
  · intro f hf
    rcases List.mem_append.mp hf with hf | hf
    · exact h.before f hf
    · rw [List.mem_singleton.mp hf]
  · intro handles seq done hexporting
    obtain ⟨hless, hle, hpending⟩ := h.pending handles seq done hexporting
    refine ⟨hless, by dsimp only; omega, fun f hf htarget => ?_⟩
    rcases List.mem_append.mp hf with hf | hf
    · exact hpending f hf htarget
    · rw [List.mem_singleton.mp hf] at htarget
      dsimp only at htarget
      omega
  · intro f hf htarget
    rcases List.mem_append.mp hf with hf | hf
    · exact h.done f hf htarget
    · rw [List.mem_singleton.mp hf] at htarget
      dsimp only at htarget
      omega
  · intro f hf hcompleted
    rcases List.mem_append.mp hf with hf | hf
    · exact h.completed f hf hcompleted
    · rw [List.mem_singleton.mp hf] at hcompleted
      cases hcompleted

theorem Flushes.flushReturn (h : p.Flushes) {call : Nat} (hstep : p.flushReturn call = some p') :
    p'.Flushes := by
  unfold Processor.flushReturn at hstep
  split at hstep
  · cases hstep
  next f₀ hf₀ =>
  split at hstep
  · cases hstep
  have hmem : f₀ ∈ p.flushes := List.mem_of_getElem? hf₀
  cases hstep
  -- the call keeps its target and its records, so what holds of it before holds after
  have hold : ∀ (P : FlushCall ρ → Prop), (∀ f result, P f → P { f with result := result }) →
      (∀ f ∈ p.flushes, P f) → ∀ f ∈ p.flushes.set call { f₀ with
        result := some (if f₀.target ≤ p.flushDoneSeq then .completed else .timedOut) }, P f := by
    intro P hP hall f hf
    rcases List.mem_or_eq_of_mem_set hf with hf | rfl
    · exact hall f hf
    · exact hP f₀ _ (hall f₀ hmem)
  refine ⟨h.evicted, h.departed, h.doneLe, ?_, ?_, ?_, ?_, ?_⟩
  · exact hold (fun f => 0 < f.target ∧ f.target ≤ p.flushSeq) (fun _ _ hf => hf) h.targets
  · exact hold (fun f => f.before <+: p.ledger.accepted) (fun _ _ hf => hf) h.before
  · intro handles seq done hexporting
    obtain ⟨hless, hle, hpending⟩ := h.pending handles seq done hexporting
    exact ⟨hless, hle, hold (fun f => f.target ≤ seq → f.before.Subperm (p.passed ++ p.held))
      (fun _ _ hf => hf) hpending⟩
  · exact hold (fun f => f.target ≤ p.flushDoneSeq → f.before.Subperm p.passed)
      (fun _ _ hf => hf) h.done
  · intro f hf hcompleted
    rcases List.mem_or_eq_of_mem_set hf with hf | rfl
    · exact h.completed f hf hcompleted
    · dsimp only at hcompleted ⊢
      split at hcompleted
      · next hdone => exact hdone
      · cases hcompleted

/-! ### The worker -/

/-- The worker notes a flush only when it takes the last of the queue: then every
record accepted so far has left the queue. -/
theorem Flushes.collect [DecidableEq ρ] (h : p.Flushes) (hall : p.Conserves)
    (hstep : p.collect = some p') : p'.Flushes := by
  have hall' := hall.collect hstep
  unfold Processor.collect at hstep
  split at hstep
  · next hworker =>
    dsimp only at hstep
    generalize min p.queue.length p.opts.maxExportBatchSize = count at hstep
    have hheld : p.held = [] := by
      unfold Processor.held
      rw [hworker]
    have hdeparted := h.departed
    rw [hheld, List.append_nil] at hdeparted
    cases hstep
    have hnew : (p.ledger.departed ++ (p.queue.take count).map QueuedSpan.scoped).Perm
        (p.passed ++ (batchHandles p.resource (p.queue.take count)).flatMap BatchHandle.scoped) :=
      hdeparted.append (batchHandles_perm p.resource _).symm
    refine ⟨h.evicted, hnew, h.doneLe, h.targets, h.before, ?_, h.done, h.completed⟩
    intro handles seq done hexporting
    obtain ⟨-, hseq, -⟩ := Worker.exporting.inj hexporting
    dsimp only
    rw [← hseq]
    split
    · next hlast =>
      refine ⟨Or.inr h.doneLe, Nat.le_refl _, fun f hf _ => ?_⟩
      have horder := hall'.order
      dsimp only at horder
      rw [hlast.2, List.map_nil, List.append_nil] at horder
      have hbefore := (h.before f hf).sublist.subperm
      rw [horder] at hbefore
      exact hbefore.trans hnew.subperm
    · refine ⟨Or.inl rfl, Nat.zero_le _, fun f hf htarget => ?_⟩
      have hpos := (h.targets f hf).1
      omega
  · cases hstep

theorem Flushes.handOver (h : p.Flushes) (hstep : p.handOver = some p') : p'.Flushes := by
  unfold Processor.handOver at hstep
  split at hstep
  · next handle handles seq done hworker =>
    have hheld : p.held = (handle :: handles).flatMap BatchHandle.scoped := by
      unfold Processor.held
      rw [hworker]
    have hnext : p.nextCall ++ (if p.grouped then [] else handles) = handle :: handles := by
      unfold Processor.nextCall
      rw [hworker]
      dsimp only
      split
      · exact List.append_nil _
      · rfl
    cases hstep
    have hmoved : (p.passed ++ p.held).Perm
        (p.ledger.evicted ++ (p.ledger.handed ++ p.nextCall).flatMap BatchHandle.scoped ++
          (if p.grouped then [] else handles).flatMap BatchHandle.scoped) := by
      rw [hheld, ← hnext, List.flatMap_append, List.flatMap_append]
      unfold passed
      simp only [List.append_assoc]
      exact List.Perm.refl _
    have hmore : p.passed.Subperm
        (p.ledger.evicted ++ (p.ledger.handed ++ p.nextCall).flatMap BatchHandle.scoped) := by
      unfold passed
      rw [List.flatMap_append, ← List.append_assoc]
      exact (List.sublist_append_left _ _).subperm
    refine ⟨h.evicted, h.departed.trans hmoved, h.doneLe, h.targets, h.before, ?_, ?_, h.completed⟩
    · intro handles' seq' done' hexporting
      obtain ⟨-, hseq, -⟩ := Worker.exporting.inj hexporting
      obtain ⟨hless, hle, hpending⟩ := h.pending _ seq done hworker
      rw [← hseq]
      exact ⟨hless, hle, fun f hf htarget => (hpending f hf htarget).trans hmoved.subperm⟩
    · exact fun f hf htarget => (h.done f hf htarget).trans hmore
  · cases hstep

/-- A flush is done once everything the worker held for it is handed over. -/
theorem Flushes.finish (h : p.Flushes) (hstep : p.finish = some p') : p'.Flushes := by
  unfold Processor.finish at hstep
  split at hstep
  · next seq done hworker =>
    have hheld : p.held = [] := by
      unfold Processor.held
      rw [hworker]
      rfl
    obtain ⟨hless, hle, hpending⟩ := h.pending [] seq done hworker
    rw [hheld, List.append_nil] at hpending
    have hdeparted := h.departed
    rw [hheld, List.append_nil] at hdeparted
    have hdoneLe := h.doneLe
    cases hstep
    refine ⟨h.evicted, ?_, ?_, h.targets, h.before, ?_, ?_, ?_⟩
    · cases done with
      | true =>
          change p.ledger.departed.Perm (p.passed ++ [])
          rw [List.append_nil]
          exact hdeparted
      | false =>
          change p.ledger.departed.Perm (p.passed ++ [])
          rw [List.append_nil]
          exact hdeparted
    · dsimp only
      split
      · exact hle
      · exact hdoneLe
    · intro handles seq' done' hexporting
      cases done <;> cases hexporting
    · intro f hf htarget
      dsimp only at htarget
      split at htarget
      · exact hpending f hf htarget
      · exact h.done f hf htarget
    · intro f hf hcompleted
      have htarget := h.completed f hf hcompleted
      dsimp only
      split
      · omega
      · exact htarget
  · cases hstep

/-- Step lemma. -/
theorem Flushes.step [DecidableEq ρ] (h : p.Flushes) (hall : p.Conserves) {a : ProcessorAction ρ}
    (hstep : p.step a = some p') : p'.Flushes := by
  cases a with
  | enqueue record scope =>
      cases hstep
      exact h.enqueue record scope
  | setOptions opts =>
      cases hstep
      exact h.same rfl rfl rfl rfl rfl
  | forceFlush =>
      cases hstep
      exact h.forceFlush
  | flushReturn call => exact h.flushReturn hstep
  | shutdown =>
      cases hstep
      exact h.same rfl rfl rfl rfl rfl
  | collect => exact h.collect hall hstep
  | handOver => exact h.handOver hstep
  | finish => exact h.finish hstep

/-! ### What every step keeps -/

/-- What each flush call found accepted, in the order of the calls. -/
def befores (p : Processor ρ) : List (List (Scoped ρ)) := p.flushes.map FlushCall.before

structure Moves (p p' : Processor ρ) : Prop where
  evicted : p.ledger.evicted <+: p'.ledger.evicted
  befores : p.befores <+: p'.befores

theorem enqueue_moves (p : Processor ρ) (record : SpanRecord ρ) (scope : InstrumentationScope) :
    Moves p (p.enqueue record scope).1 ∧
      (p.enqueue record scope).1.ledger.handed = p.ledger.handed := by
  unfold Processor.enqueue
  dsimp only
  split
  · exact ⟨⟨List.prefix_refl _, List.prefix_refl _⟩, rfl⟩
  split
  · exact ⟨⟨List.prefix_refl _, List.prefix_refl _⟩, rfl⟩
  split
  · exact ⟨⟨List.prefix_append _ _, List.prefix_refl _⟩, rfl⟩
  · exact ⟨⟨List.prefix_append _ _, List.prefix_refl _⟩, rfl⟩

theorem forceFlush_moves (p : Processor ρ) : Moves p p.forceFlush := by
  unfold Processor.forceFlush
  split
  · exact ⟨List.prefix_refl _, List.prefix_refl _⟩
  · refine ⟨List.prefix_refl _, ?_⟩
    change p.befores <+: List.map FlushCall.before (_ ++ _)
    rw [List.map_append]
    exact List.prefix_append _ _

theorem flushReturn_moves {call : Nat} (hstep : p.flushReturn call = some p') :
    Moves p p' ∧ p'.ledger.handed = p.ledger.handed := by
  unfold Processor.flushReturn at hstep
  split at hstep
  · cases hstep
  next f hf =>
  split at hstep
  · cases hstep
  cases hstep
  refine ⟨⟨List.prefix_refl _, ?_⟩, rfl⟩
  obtain ⟨hlt, rfl⟩ := List.getElem?_eq_some_iff.mp hf
  have hlt' : call < (p.flushes.map FlushCall.before).length := by simpa using hlt
  have hself := List.set_getElem_self hlt'
  rw [List.getElem_map] at hself
  change p.befores <+: List.map FlushCall.before (List.set _ _ _)
  rw [List.map_set, hself]
  exact List.prefix_refl _

theorem handOver_moves (hstep : p.handOver = some p') :
    Moves p p' ∧ p'.ledger.handed = p.ledger.handed ++ p.nextCall := by
  unfold Processor.handOver at hstep
  split at hstep
  · cases hstep
    exact ⟨⟨List.prefix_refl _, List.prefix_refl _⟩, rfl⟩
  · cases hstep

/-- Every step but the calls into the exporter hands nothing over. -/
theorem step_moves [DecidableEq ρ] {a : ProcessorAction ρ} (hstep : p.step a = some p')
    (ha : a ≠ .handOver) : Moves p p' ∧ p'.ledger.handed = p.ledger.handed := by
  cases a with
  | enqueue record scope =>
      cases hstep
      exact enqueue_moves p record scope
  | setOptions opts =>
      cases hstep
      exact ⟨⟨List.prefix_refl _, List.prefix_refl _⟩, rfl⟩
  | forceFlush =>
      cases hstep
      refine ⟨forceFlush_moves p, ?_⟩
      unfold Processor.forceFlush
      split
      · rfl
      · rfl
  | flushReturn call => exact flushReturn_moves hstep
  | shutdown =>
      cases hstep
      exact ⟨⟨List.prefix_refl _, List.prefix_refl _⟩, rfl⟩
  | collect =>
      simp only [Processor.step, Processor.collect] at hstep
      split at hstep
      · cases hstep
        exact ⟨⟨List.prefix_refl _, List.prefix_refl _⟩, rfl⟩
      · cases hstep
  | handOver => exact absurd rfl ha
  | finish =>
      simp only [Processor.step, Processor.finish] at hstep
      split at hstep
      · cases hstep
        exact ⟨⟨List.prefix_refl _, List.prefix_refl _⟩, rfl⟩
      · cases hstep

end Microtel.Pipeline.Processor
