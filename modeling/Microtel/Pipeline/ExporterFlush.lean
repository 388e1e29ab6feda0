import Microtel.Pipeline.ExporterRuns

/-!
A `ForceFlush` of `OtlpExporter` that completes: every batch offered before the
call has been refused, settled, or was in a drain that an exception ended.
-/

namespace Microtel.Pipeline.Exporter

open Machine

variable {ρ : Type} {e e' : Exporter ρ}

/-- The batches offered that the exporter is done with. -/
def outcomes (e : Exporter ρ) : List (BatchHandle ρ) :=
  e.ledger.refused.map Prod.fst ++ e.ledger.sent ++ e.ledger.failed ++ e.ledger.abandoned

structure Flushes (e : Exporter ρ) : Prop where
  doneLe : e.flushDoneSeq ≤ e.flushSeq
  targets : ∀ w ∈ e.waiters, w.target ≤ e.flushSeq
  before : ∀ w ∈ e.waiters, w.before <+: e.ledger.offered
  done : ∀ w ∈ e.waiters, w.target ≤ e.flushDoneSeq → w.before.Subperm e.outcomes
  completed : ∀ w ∈ e.waiters, w.pc = .returned .completed → w.target ≤ e.flushDoneSeq

theorem Flushes.new (config : OtlpExporterConfig) : (new config : Exporter ρ).Flushes where
  doneLe := Nat.le_refl _
  targets := by simp [Exporter.new]
  before := by simp [Exporter.new]
  done := by simp [Exporter.new]
  completed := by simp [Exporter.new]

/-- A step that changes no sequence number, adds to the batches offered and done
with, and lets a waiter complete only if its flush is done. -/
structure Grows (e e' : Exporter ρ) : Prop where
  flushSeq : e'.flushSeq = e.flushSeq
  flushDoneSeq : e'.flushDoneSeq = e.flushDoneSeq
  offered : e.ledger.offered <+: e'.ledger.offered
  outcomes : e.outcomes.Subperm e'.outcomes
  waiters : ∀ w' ∈ e'.waiters, ∃ w ∈ e.waiters, w'.target = w.target ∧ w'.before = w.before ∧
    (w'.pc = .returned .completed → w.pc = .returned .completed ∨ w.target ≤ e.flushDoneSeq)

theorem Flushes.grow (h : e.Flushes) (G : Grows e e') : e'.Flushes := by
  refine ⟨?_, ?_, ?_, ?_, ?_⟩
  · rw [G.flushSeq, G.flushDoneSeq]
    exact h.doneLe
  · intro w' hw'
    obtain ⟨w, hw, htarget, -⟩ := G.waiters w' hw'
    rw [htarget, G.flushSeq]
    exact h.targets w hw
  · intro w' hw'
    obtain ⟨w, hw, -, hbefore, -⟩ := G.waiters w' hw'
    rw [hbefore]
    exact (h.before w hw).trans G.offered
  · intro w' hw'
    obtain ⟨w, hw, htarget, hbefore, -⟩ := G.waiters w' hw'
    rw [htarget, hbefore, G.flushDoneSeq]
    exact fun hdone => (h.done w hw hdone).trans G.outcomes
  · intro w' hw' hcompleted
    obtain ⟨w, hw, htarget, -, hpc⟩ := G.waiters w' hw'
    rw [htarget, G.flushDoneSeq]
    rcases hpc hcompleted with hpc | hdone
    · exact h.completed w hw hpc
    · exact hdone

theorem same_waiters (hwaiters : e'.waiters = e.waiters) :
    ∀ w' ∈ e'.waiters, ∃ w ∈ e.waiters, w'.target = w.target ∧ w'.before = w.before ∧
      (w'.pc = .returned .completed → w.pc = .returned .completed ∨ w.target ≤ e.flushDoneSeq) := by
  intro w' hw'
  rw [hwaiters] at hw'
  exact ⟨w', hw', rfl, rfl, Or.inl⟩

/-- A step that leaves the waiters, the sequence numbers and the ledger. -/
theorem Grows.of_same (hseq : e'.flushSeq = e.flushSeq) (hdone : e'.flushDoneSeq = e.flushDoneSeq)
    (hledger : e'.ledger = e.ledger) (hwaiters : e'.waiters = e.waiters) : Grows e e' := by
  refine ⟨hseq, hdone, ?_, ?_, same_waiters hwaiters⟩
  · rw [hledger]
  · unfold Exporter.outcomes
    rw [hledger]

theorem Grows.trans {e₁ e₂ e₃ : Exporter ρ} (G : Grows e₁ e₂) (G' : Grows e₂ e₃) : Grows e₁ e₃ where
  flushSeq := G'.flushSeq.trans G.flushSeq
  flushDoneSeq := G'.flushDoneSeq.trans G.flushDoneSeq
  offered := G.offered.trans G'.offered
  outcomes := G.outcomes.trans G'.outcomes
  waiters := by
    intro w₃ hw₃
    obtain ⟨w₂, hw₂, htarget, hbefore, hpc⟩ := G'.waiters w₃ hw₃
    obtain ⟨w₁, hw₁, htarget', hbefore', hpc'⟩ := G.waiters w₂ hw₂
    refine ⟨w₁, hw₁, htarget.trans htarget', hbefore.trans hbefore', ?_⟩
    intro hcompleted
    rcases hpc hcompleted with hpc | hdone
    · exact hpc' hpc
    · rw [htarget', G.flushDoneSeq] at hdone
      exact Or.inr hdone

/-! ### Callers -/

theorem refuse_grows (e : Exporter ρ) (batch : BatchHandle ρ) (reason : DropReason) :
    Grows e (e.refuse batch reason) := by
  refine ⟨rfl, rfl, List.prefix_append _ _, ?_, same_waiters rfl⟩
  change e.outcomes.Subperm (List.map Prod.fst (e.ledger.refused ++ [_]) ++ _ ++ _ ++ _)
  unfold outcomes
  rw [List.map_append]
  simp only [List.append_assoc]
  exact ((List.Sublist.refl _).append (List.sublist_append_right _ _)).subperm

theorem enqueueLocked_grows (e : Exporter ρ) (batch : BatchHandle ρ) (throws : Bool) :
    Grows e (e.enqueueLocked batch throws).1 := by
  unfold Exporter.enqueueLocked
  split
  · exact refuse_grows e batch _
  split
  · exact refuse_grows e batch _
  split
  · exact refuse_grows e batch _
  · exact ⟨rfl, rfl, List.prefix_append _ _, List.Subperm.refl _, same_waiters rfl⟩

theorem enqueueAll_grows (e : Exporter ρ) (group : List (BatchHandle ρ × Bool)) :
    Grows e (e.enqueueAll group).1 := by
  induction group generalizing e with
  | nil => exact Grows.of_same rfl rfl rfl rfl
  | cons item group ih => exact (enqueueLocked_grows e item.1 item.2).trans (ih _)

theorem exportGroup_grows (e : Exporter ρ) (group : List (BatchHandle ρ × Bool)) :
    Grows e (e.exportGroup group) := by
  have G := enqueueAll_grows e group
  unfold Exporter.exportGroup
  dsimp only
  split
  · exact G.trans (Grows.of_same rfl rfl rfl rfl)
  · exact G

/-- A step that only moves the program counter of one waiter. -/
theorem Grows.set {i : Nat} {w : Waiter ρ} {pc : WaiterPc} (hw : e.waiters[i]? = some w)
    (hseq : e'.flushSeq = e.flushSeq) (hdone : e'.flushDoneSeq = e.flushDoneSeq)
    (hledger : e'.ledger = e.ledger) (hwaiters : e'.waiters = e.waiters.set i { w with pc := pc })
    (hpc : pc = .returned .completed → w.target ≤ e.flushDoneSeq) : Grows e e' := by
  have G : Grows e { e with waiters := e.waiters.set i { w with pc := pc } } := by
    refine ⟨rfl, rfl, List.prefix_refl _, List.Subperm.refl _, ?_⟩
    intro w' hw'
    rcases List.mem_or_eq_of_mem_set hw' with hw' | rfl
    · exact ⟨w', hw', rfl, rfl, Or.inl⟩
    · exact ⟨w, List.mem_of_getElem? hw, rfl, rfl, fun hcompleted => Or.inr (hpc hcompleted)⟩
  exact G.trans (Grows.of_same hseq hdone hledger hwaiters)

theorem wakeOne_grows {target : Target} (hstep : e.wakeOne target = some e') : Grows e e' := by
  unfold Exporter.wakeOne at hstep
  split at hstep
  · split at hstep
    · cases hstep
      exact Grows.of_same rfl rfl rfl rfl
    · cases hstep
  · split at hstep
    · cases hstep
    next w hw =>
    split at hstep
    · cases hstep
      exact Grows.set hw rfl rfl rfl rfl nofun
    · cases hstep

theorem notifyOne_grows {target : Option Target} (hstep : e.notifyOne target = some e') :
    Grows e e' := by
  unfold Exporter.notifyOne at hstep
  split at hstep
  · cases hstep
  have G : Grows e { e with owed := e.owed - 1 } := Grows.of_same rfl rfl rfl rfl
  dsimp only at hstep
  split at hstep
  · exact G.trans (wakeOne_grows hstep)
  · split at hstep
    · cases hstep
      exact G
    · cases hstep

theorem notifyAll_grows (e : Exporter ρ) : Grows e e.notifyAll := by
  refine ⟨rfl, rfl, List.prefix_refl _, List.Subperm.refl _, ?_⟩
  intro w' hw'
  obtain ⟨w, hw, rfl⟩ := List.mem_map.mp hw'
  refine ⟨w, hw, ?_⟩
  unfold Waiter.wake
  split
  · exact ⟨rfl, rfl, nofun⟩
  · exact ⟨rfl, rfl, Or.inl⟩

/-- A new call waits for a sequence number that is not yet done. -/
theorem Flushes.forceFlush (h : e.Flushes) : e.forceFlush.Flushes := by
  have hdoneLe := h.doneLe
  have hmore : Flushes { e with flushSeq := e.flushSeq + 1 } := by
    refine ⟨?_, ?_, h.before, h.done, h.completed⟩
    · dsimp only
      omega
    · intro w hw
      exact Nat.le_succ_of_le (h.targets w hw)
  have hnotified := hmore.grow (notifyAll_grows _)
  refine ⟨hnotified.doneLe, ?_, ?_, ?_, ?_⟩
  · intro w hw
    rcases List.mem_append.mp hw with hw | hw
    · exact hnotified.targets w hw
    · rw [List.mem_singleton.mp hw]
      exact Nat.le_refl _
  · intro w hw
    rcases List.mem_append.mp hw with hw | hw
    · exact hnotified.before w hw
    · rw [List.mem_singleton.mp hw]
      exact List.prefix_refl _
  · intro w hw htarget
    rcases List.mem_append.mp hw with hw | hw
    · exact hnotified.done w hw htarget
    · rw [List.mem_singleton.mp hw] at htarget
      change e.flushSeq + 1 ≤ e.flushDoneSeq at htarget
      omega
  · intro w hw hcompleted
    rcases List.mem_append.mp hw with hw | hw
    · exact hnotified.completed w hw hcompleted
    · rw [List.mem_singleton.mp hw] at hcompleted
      cases hcompleted

theorem Flushes.shutDown (h : e.Flushes) : e.shutDown.Flushes := by
  unfold Exporter.shutDown
  split
  · exact h
  · have hshut : Flushes { e with shutdown := true } := h.grow (Grows.of_same rfl rfl rfl rfl)
    exact hshut.forceFlush

/-- A waiter completes only when its own sequence number is done. -/
theorem Flushes.check (h : e.Flushes) {i : Nat} (hstep : e.check i = some e') : e'.Flushes := by
  unfold Exporter.check at hstep
  split at hstep
  · cases hstep
  next w hw =>
  have htarget := h.targets w (List.mem_of_getElem? hw)
  have hflushed : e.flushed = true → w.target ≤ e.flushDoneSeq := by
    intro hflushed
    unfold flushed at hflushed
    exact le_trans htarget (by simpa using hflushed)
  split at hstep
  · cases hstep
    refine h.grow (Grows.set hw rfl rfl rfl rfl ?_)
    split
    · next hdone => exact fun _ => hflushed hdone
    · exact nofun
  · cases hstep
    refine h.grow (Grows.set hw rfl rfl rfl rfl ?_)
    split
    · next hdone => exact fun _ => hflushed hdone
    · exact nofun
  · cases hstep

theorem expire_grows {i : Nat} (hstep : e.expire i = some e') : Grows e e' := by
  unfold Exporter.expire at hstep
  split at hstep
  · cases hstep
  next w hw =>
  split at hstep
  · cases hstep
    exact Grows.set hw rfl rfl rfl rfl nofun
  · cases hstep

/-! ### The worker -/

/-- With the queue empty and no drain under way every batch offered has an outcome,
so every flush may be marked done. -/
theorem Flushes.markDone (h : e.Flushes) (hall : e.Accounts) (hunsettled : e.unsettled = [])
    (hempty : e.queue = []) : Flushes { e with flushDoneSeq := e.flushSeq } := by
  have haccepted := hall.accepted
  rw [hempty, hunsettled, List.nil_append, List.nil_append] at haccepted
  have hoffered : e.ledger.offered.Perm e.outcomes := by
    apply hall.offered.trans
    apply (haccepted.append_right _).trans
    unfold outcomes
    simp only [← Multiset.coe_eq_coe, ← Multiset.coe_add]
    abel
  refine ⟨Nat.le_refl _, h.targets, h.before, ?_, ?_⟩
  · intro w hw _
    exact (h.before w hw).sublist.subperm.trans hoffered.subperm
  · intro w hw _
    exact h.targets w hw

theorem Flushes.drain (h : e.Flushes) (hall : e.Accounts) (hunsettled : e.unsettled = []) :
    e.drain.Flushes := by
  unfold Exporter.drain
  split
  · next hempty =>
    unfold Exporter.endIteration
    dsimp only
    split
    · have hdone := (h.markDone hall hunsettled hempty).grow (notifyAll_grows _)
      exact hdone.grow (Grows.of_same rfl rfl rfl rfl)
    · exact h.grow (Grows.of_same rfl rfl rfl rfl)
  · exact h.grow (Grows.of_same rfl rfl rfl rfl)

theorem Flushes.workerCheck (h : e.Flushes) (hall : e.Accounts) (hstep : e.workerCheck = some e') :
    e'.Flushes := by
  unfold Exporter.workerCheck at hstep
  split at hstep
  · next htop =>
    split at hstep
    · cases hstep
      exact h.drain hall (unsettled_of_free (Or.inl htop))
    · cases hstep
      exact h.grow (Grows.of_same rfl rfl rfl rfl)
  · cases hstep

theorem drainThrew_grows (e : Exporter ρ) (what : String) : Grows e (e.drainThrew what) := by
  refine ⟨rfl, rfl, List.prefix_refl _, ?_, same_waiters rfl⟩
  change e.outcomes.Subperm (_ ++ _ ++ _ ++ (e.ledger.abandoned ++ e.unsettled))
  unfold outcomes
  rw [← List.append_assoc]
  exact (List.sublist_append_left _ _).subperm

theorem settleNext_grows {attempts : List Attempt} {what : String}
    (hstep : e.settleNext attempts what = some e') : Grows e e' := by
  unfold Exporter.settleNext at hstep
  split at hstep
  · split at hstep
    · cases hstep
      exact drainThrew_grows e what
    · cases hstep
      refine ⟨rfl, rfl, List.prefix_refl _, ?_, same_waiters rfl⟩
      apply List.Sublist.subperm
      apply List.Sublist.append _ (List.Sublist.refl _)
      apply List.Sublist.append _ (List.sublist_append_left _ _)
      exact (List.Sublist.refl _).append (List.sublist_append_left _ _)
  · cases hstep

theorem Flushes.relock (h : e.Flushes) (hall : e.Accounts) (hstep : e.relock = some e') :
    e'.Flushes := by
  unfold Exporter.relock at hstep
  have hdepth : Flushes { e with diag := e.diag.setQueueDepth e.queue.length } :=
    h.grow (Grows.of_same rfl rfl rfl rfl)
  have halldepth : Accounts { e with diag := e.diag.setQueueDepth e.queue.length } :=
    hall.same_free ⟨rfl, rfl, rfl, rfl, rfl, rfl, rfl⟩ (Or.inl ⟨rfl, id⟩)
  split at hstep
  · next hworker =>
    cases hstep
    apply hdepth.drain halldepth
    unfold Exporter.unsettled
    rw [hworker]
    rfl
  · next hworker =>
    cases hstep
    exact hdepth.drain halldepth (unsettled_of_free (Or.inr (Or.inr hworker)))
  · cases hstep

/-- Step lemma. -/
theorem Flushes.step (h : e.Flushes) (hall : e.Accounts) {a : ExporterAction ρ}
    (hstep : e.step a = some e') : e'.Flushes := by
  cases a with
  | exportGroup group =>
      cases hstep
      exact h.grow (exportGroup_grows e group)
  | notifyOne target => exact h.grow (notifyOne_grows hstep)
  | spurious target => exact h.grow (wakeOne_grows hstep)
  | forceFlush =>
      cases hstep
      exact h.forceFlush
  | shutdown =>
      cases hstep
      exact h.shutDown
  | check waiter => exact h.check hstep
  | expire waiter => exact h.grow (expire_grows hstep)
  | workerCheck => exact h.workerCheck hall hstep
  | sendThrew what =>
      simp only [Exporter.step, Exporter.sendThrew] at hstep
      split at hstep
      · cases hstep
        exact h.grow (drainThrew_grows e what)
      · cases hstep
  | sendAll bytes results =>
      simp only [Exporter.step, Exporter.sendAll] at hstep
      split at hstep
      · split at hstep
        · cases hstep
          exact h.grow (Grows.of_same rfl rfl rfl rfl)
        · cases hstep
      · cases hstep
  | settle attempts what => exact h.grow (settleNext_grows hstep)
  | relock => exact h.relock hall hstep
  | leave =>
      simp only [Exporter.step, Exporter.leave] at hstep
      split at hstep
      · next hworker =>
        have hunsettled : e.unsettled = [] := by
          unfold Exporter.unsettled
          rw [hworker]
        cases hstep
        have hdone := (h.markDone hall hunsettled (hall.leaving (Or.inl hworker)).2).grow
          (notifyAll_grows _)
        exact hdone.grow (Grows.of_same rfl rfl rfl rfl)
      · cases hstep

/-! ### What every step keeps -/

/-- What each waiting call found offered, in the order of the calls. -/
def befores (e : Exporter ρ) : List (List (BatchHandle ρ)) := e.waiters.map Waiter.before

/-- A step other than one of `Export`. -/
structure Moves (e e' : Exporter ρ) : Prop where
  offered : e'.ledger.offered = e.ledger.offered
  befores : e.befores <+: e'.befores
  outcomes : e.outcomes.Subperm e'.outcomes

theorem Moves.of_same (hledger : e'.ledger = e.ledger) (hbefores : e'.befores = e.befores) :
    Moves e e' := by
  refine ⟨by rw [hledger], by rw [hbefores], ?_⟩
  unfold Exporter.outcomes
  rw [hledger]

theorem befores_set {i : Nat} {w : Waiter ρ} (hw : e.waiters[i]? = some w) (pc : WaiterPc) :
    (e.waiters.set i { w with pc := pc }).map Waiter.before = e.befores := by
  obtain ⟨hlt, rfl⟩ := List.getElem?_eq_some_iff.mp hw
  have hlt' : i < (e.waiters.map Waiter.before).length := by simpa using hlt
  have hself := List.set_getElem_self hlt'
  rw [List.getElem_map] at hself
  rw [List.map_set]
  exact hself

theorem wakeOne_moves {target : Target} (hstep : e.wakeOne target = some e') : Moves e e' := by
  unfold Exporter.wakeOne at hstep
  split at hstep
  · split at hstep
    · cases hstep
      exact Moves.of_same rfl rfl
    · cases hstep
  · split at hstep
    · cases hstep
    next w hw =>
    split at hstep
    · cases hstep
      exact Moves.of_same rfl (befores_set hw .checking)
    · cases hstep

theorem notifyAll_befores (e : Exporter ρ) : e.notifyAll.befores = e.befores := by
  unfold befores Exporter.notifyAll
  rw [List.map_map]
  congr 1
  funext w
  simp only [Function.comp_apply, Waiter.wake]
  split <;> rfl

theorem forceFlush_moves (e : Exporter ρ) : Moves e e.forceFlush := by
  refine ⟨rfl, ?_, List.Subperm.refl _⟩
  have hnotified := notifyAll_befores { e with flushSeq := e.flushSeq + 1 }
  change e.befores <+: List.map Waiter.before (_ ++ [_])
  rw [List.map_append]
  change e.befores <+: befores _ ++ _
  rw [hnotified]
  exact List.prefix_append _ _

theorem drain_moves (e : Exporter ρ) : Moves e e.drain := by
  unfold Exporter.drain
  split
  · unfold Exporter.endIteration
    dsimp only
    split
    · exact Moves.of_same rfl (notifyAll_befores { e with flushDoneSeq := e.flushSeq })
    · exact Moves.of_same rfl rfl
  · exact Moves.of_same rfl rfl

theorem settleNext_offered {attempts : List Attempt} {what : String}
    (hstep : e.settleNext attempts what = some e') :
    e'.ledger.offered = e.ledger.offered ∧ e'.befores = e.befores := by
  unfold Exporter.settleNext at hstep
  split at hstep
  · split at hstep
    · cases hstep
      exact ⟨rfl, rfl⟩
    · cases hstep
      exact ⟨rfl, rfl⟩
  · cases hstep

/-- Every step but `Export` offers nothing, and keeps the waiting calls and the outcomes. -/
theorem step_moves {a : ExporterAction ρ} (hstep : e.step a = some e')
    (ha : ∀ group, a ≠ .exportGroup group) : Moves e e' := by
  cases a with
  | exportGroup group => exact absurd rfl (ha group)
  | notifyOne target =>
      simp only [Exporter.step, Exporter.notifyOne] at hstep
      split at hstep
      · cases hstep
      split at hstep
      · have h := wakeOne_moves hstep
        exact ⟨h.offered, h.befores, h.outcomes⟩
      · split at hstep
        · cases hstep
          exact Moves.of_same rfl rfl
        · cases hstep
  | spurious target => exact wakeOne_moves hstep
  | forceFlush =>
      cases hstep
      exact forceFlush_moves e
  | shutdown =>
      cases hstep
      unfold Exporter.shutDown
      split
      · exact Moves.of_same rfl rfl
      · have h := forceFlush_moves { e with shutdown := true }
        exact ⟨h.offered, h.befores, h.outcomes⟩
  | check waiter =>
      simp only [Exporter.step, Exporter.check] at hstep
      split at hstep
      · cases hstep
      next w hw =>
      split at hstep
      · cases hstep
        exact Moves.of_same rfl (befores_set hw _)
      · cases hstep
        exact Moves.of_same rfl (befores_set hw _)
      · cases hstep
  | expire waiter =>
      simp only [Exporter.step, Exporter.expire] at hstep
      split at hstep
      · cases hstep
      next w hw =>
      split at hstep
      · cases hstep
        exact Moves.of_same rfl (befores_set hw .expired)
      · cases hstep
  | workerCheck =>
      simp only [Exporter.step, Exporter.workerCheck] at hstep
      split at hstep
      · split at hstep
        · cases hstep
          exact drain_moves e
        · cases hstep
          exact Moves.of_same rfl rfl
      · cases hstep
  | sendThrew what =>
      simp only [Exporter.step, Exporter.sendThrew] at hstep
      split at hstep
      · cases hstep
        exact ⟨rfl, List.prefix_refl _, (drainThrew_grows e what).outcomes⟩
      · cases hstep
  | sendAll bytes results =>
      simp only [Exporter.step, Exporter.sendAll] at hstep
      split at hstep
      · split at hstep
        · cases hstep
          exact Moves.of_same rfl rfl
        · cases hstep
      · cases hstep
  | settle attempts what =>
      obtain ⟨hoffered, hbefores⟩ := settleNext_offered hstep
      exact ⟨hoffered, by rw [hbefores], (settleNext_grows hstep).outcomes⟩
  | relock =>
      simp only [Exporter.step, Exporter.relock] at hstep
      have h := drain_moves { e with diag := e.diag.setQueueDepth e.queue.length }
      split at hstep
      · cases hstep
        exact ⟨h.offered, h.befores, h.outcomes⟩
      · cases hstep
        exact ⟨h.offered, h.befores, h.outcomes⟩
      · cases hstep
  | leave =>
      simp only [Exporter.step, Exporter.leave] at hstep
      split at hstep
      · cases hstep
        exact Moves.of_same rfl (notifyAll_befores { e with flushDoneSeq := e.flushSeq })
      · cases hstep

theorem enqueueLocked_offered (e : Exporter ρ) (batch : BatchHandle ρ) (throws : Bool) :
    (e.enqueueLocked batch throws).1.ledger.offered = e.ledger.offered ++ [batch] ∧
      (e.enqueueLocked batch throws).1.waiters = e.waiters := by
  unfold Exporter.enqueueLocked
  split
  · exact ⟨rfl, rfl⟩
  split
  · exact ⟨rfl, rfl⟩
  split
  · exact ⟨rfl, rfl⟩
  · exact ⟨rfl, rfl⟩

theorem enqueueAll_offered (e : Exporter ρ) (group : List (BatchHandle ρ × Bool)) :
    (e.enqueueAll group).1.ledger.offered = e.ledger.offered ++ group.map Prod.fst ∧
      (e.enqueueAll group).1.waiters = e.waiters := by
  induction group generalizing e with
  | nil => exact ⟨(List.append_nil _).symm, rfl⟩
  | cons item group ih =>
      obtain ⟨hoffered, hwaiters⟩ := enqueueLocked_offered e item.1 item.2
      obtain ⟨hoffered', hwaiters'⟩ := ih (e.enqueueLocked item.1 item.2).1
      rw [hoffered, List.append_assoc] at hoffered'
      exact ⟨hoffered', hwaiters'.trans hwaiters⟩

theorem exportGroup_offered (e : Exporter ρ) (group : List (BatchHandle ρ × Bool)) :
    (e.exportGroup group).ledger.offered = e.ledger.offered ++ group.map Prod.fst ∧
      (e.exportGroup group).befores = e.befores := by
  obtain ⟨hoffered, hwaiters⟩ := enqueueAll_offered e group
  unfold Exporter.exportGroup befores
  dsimp only
  rw [← hwaiters]
  split
  · exact ⟨hoffered, rfl⟩
  · exact ⟨hoffered, rfl⟩

end Microtel.Pipeline.Exporter
