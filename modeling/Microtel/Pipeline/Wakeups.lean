import Microtel.Pipeline.ExporterRuns

/-!
The one condition variable of `OtlpExporter`: who can be blocked on it, and with
what still to come. The worker and the flush waiters are never blocked at the same
time, so a `notify_one` meant for the worker cannot be taken by a waiter.
-/

namespace Microtel.Pipeline.Exporter

open Machine

variable {ρ : Type} {e e' : Exporter ρ}

/-- Nobody is blocked on a condition that holds, but for a worker whose
notification is still to come. -/
structure Wakeful (e : Exporter ρ) : Prop where
  worker : e.worker = .blocked →
    e.flushSeq ≤ e.flushDoneSeq ∧ e.shutdown = false ∧ (e.queue ≠ [] → 0 < e.owed)
  waiters : ∀ w ∈ e.waiters, w.pc = .blocked → e.flushDoneSeq < e.flushSeq

theorem Wakeful.new (config : OtlpExporterConfig) : (new config : Exporter ρ).Wakeful :=
  ⟨by simp [Exporter.new], by simp [Exporter.new]⟩

theorem Wakeful.alone (h : e.Wakeful) (hworker : e.worker = .blocked) :
    ∀ w ∈ e.waiters, w.pc ≠ .blocked := by
  intro w hw hblocked
  exact absurd (h.waiters w hw hblocked) (Nat.not_lt.mpr (h.worker hworker).1)

/-! ### Callers -/

/-- What a caller that queues batches leaves as it is. -/
structure SameThreads (e e' : Exporter ρ) : Prop where
  worker : e'.worker = e.worker
  waiters : e'.waiters = e.waiters
  flushSeq : e'.flushSeq = e.flushSeq
  flushDoneSeq : e'.flushDoneSeq = e.flushDoneSeq
  shutdown : e'.shutdown = e.shutdown
  owed : e'.owed = e.owed

theorem enqueueLocked_threads (e : Exporter ρ) (batch : BatchHandle ρ) (throws : Bool) :
    SameThreads e (e.enqueueLocked batch throws).1 ∧
      ((e.enqueueLocked batch throws).2 = false →
        (e.enqueueLocked batch throws).1.queue = e.queue) := by
  unfold Exporter.enqueueLocked
  split
  · exact ⟨⟨rfl, rfl, rfl, rfl, rfl, rfl⟩, fun _ => rfl⟩
  split
  · exact ⟨⟨rfl, rfl, rfl, rfl, rfl, rfl⟩, fun _ => rfl⟩
  split
  · exact ⟨⟨rfl, rfl, rfl, rfl, rfl, rfl⟩, fun _ => rfl⟩
  · exact ⟨⟨rfl, rfl, rfl, rfl, rfl, rfl⟩, fun hfalse => by cases hfalse⟩

theorem enqueueAll_threads (e : Exporter ρ) (group : List (BatchHandle ρ × Bool)) :
    SameThreads e (e.enqueueAll group).1 ∧
      ((e.enqueueAll group).2 = false → (e.enqueueAll group).1.queue = e.queue) := by
  induction group generalizing e with
  | nil => exact ⟨⟨rfl, rfl, rfl, rfl, rfl, rfl⟩, fun _ => rfl⟩
  | cons item group ih =>
      obtain ⟨S, hqueue⟩ := enqueueLocked_threads e item.1 item.2
      obtain ⟨S', hqueue'⟩ := ih (e.enqueueLocked item.1 item.2).1
      refine ⟨⟨S'.worker.trans S.worker, S'.waiters.trans S.waiters, S'.flushSeq.trans S.flushSeq,
        S'.flushDoneSeq.trans S.flushDoneSeq, S'.shutdown.trans S.shutdown, S'.owed.trans S.owed⟩,
          ?_⟩
      intro hnone
      obtain ⟨hfirst, hrest⟩ := Bool.or_eq_false_iff.mp hnone
      exact (hqueue' hrest).trans (hqueue hfirst)

/-- A caller that queued a batch owes a notification. -/
theorem Wakeful.exportGroup (h : e.Wakeful) (group : List (BatchHandle ρ × Bool)) :
    (e.exportGroup group).Wakeful := by
  obtain ⟨S, hqueue⟩ := enqueueAll_threads e group
  unfold Exporter.exportGroup
  dsimp only
  generalize e.enqueueAll group = result at S hqueue ⊢
  obtain ⟨e₁, queued⟩ := result
  dsimp only at S hqueue ⊢
  have hwaiters : ∀ w ∈ e₁.waiters, w.pc = .blocked → e₁.flushDoneSeq < e₁.flushSeq := by
    rw [S.waiters, S.flushDoneSeq, S.flushSeq]
    exact h.waiters
  cases queued with
  | true =>
      refine ⟨?_, hwaiters⟩
      intro hblocked
      obtain ⟨hdone, hopen, -⟩ := h.worker (S.worker.symm.trans hblocked)
      refine ⟨?_, S.shutdown.trans hopen, fun _ => Nat.succ_pos _⟩
      rw [← S.flushSeq, ← S.flushDoneSeq] at hdone
      exact hdone
  | false =>
      refine ⟨?_, hwaiters⟩
      intro hblocked
      have hworker := h.worker (S.worker.symm.trans hblocked)
      simp only [Bool.false_eq_true, if_false]
      rw [S.flushSeq, S.flushDoneSeq, S.shutdown, S.owed, hqueue rfl]
      exact hworker

theorem mem_set {w' : Waiter ρ} {i : Nat} {ws : List (Waiter ρ)} {w : Waiter ρ}
    (hw : w ∈ ws.set i w') : w ∈ ws ∨ w = w' :=
  List.mem_or_eq_of_mem_set hw

theorem Wakeful.wakeOne (h : e.Wakeful) {target : Target} (hstep : e.wakeOne target = some e') :
    e'.Wakeful := by
  unfold Exporter.wakeOne at hstep
  split at hstep
  · split at hstep
    · cases hstep
      exact ⟨by simp, h.waiters⟩
    · cases hstep
  · split at hstep
    · cases hstep
    split at hstep
    · cases hstep
      refine ⟨h.worker, ?_⟩
      intro w hw hblocked
      rcases mem_set hw with hw | rfl
      · exact h.waiters w hw hblocked
      · cases hblocked
    · cases hstep

/-- A `notify_one` leaves no worker blocked: a blocked worker is the one it wakes. -/
theorem Wakeful.notifyOne (h : e.Wakeful) {target : Option Target}
    (hstep : e.notifyOne target = some e') :
    e'.Wakeful ∧ e'.worker ≠ .blocked ∧ (e.worker = .blocked → e'.worker = .top) := by
  unfold Exporter.notifyOne at hstep
  split at hstep
  · cases hstep
  dsimp only at hstep
  cases target with
  | none =>
      dsimp only at hstep
      split at hstep
      · next hnobody =>
        cases hstep
        have hfree : e.worker ≠ .blocked := by
          intro hblocked
          simp [nobodyBlocked, hblocked] at hnobody
        exact ⟨⟨fun hblocked => absurd hblocked hfree, h.waiters⟩, hfree,
          fun hblocked => absurd hblocked hfree⟩
      · cases hstep
  | some target =>
      cases target with
      | worker =>
          simp only [Exporter.wakeOne] at hstep
          split at hstep
          · cases hstep
            exact ⟨⟨by simp, h.waiters⟩, by simp, fun _ => rfl⟩
          · cases hstep
      | waiter i =>
          simp only [Exporter.wakeOne] at hstep
          split at hstep
          · cases hstep
          next w hw =>
          split at hstep
          · next hblocked =>
            -- a waiter is blocked, so the worker is not
            have hfree : e.worker ≠ .blocked := fun hworker =>
              h.alone hworker w (List.mem_of_getElem? hw) hblocked
            cases hstep
            refine ⟨⟨fun hworker => absurd hworker hfree, ?_⟩, hfree,
              fun hworker => absurd hworker hfree⟩
            intro w' hw' hblocked'
            rcases mem_set hw' with hw' | rfl
            · exact h.waiters w' hw' hblocked'
            · cases hblocked'
          · cases hstep

theorem wake_not_blocked (w : Waiter ρ) : w.wake.pc ≠ .blocked := by
  unfold Waiter.wake
  split
  · simp
  · next hpc => exact hpc

theorem wakeWorker_not_blocked (worker : ExporterWorker ρ) : wakeWorker worker ≠ .blocked := by
  cases worker <;> simp [wakeWorker]

/-- After a `notify_all` nobody is blocked. -/
theorem notifyAll_free (e : Exporter ρ) :
    e.notifyAll.worker ≠ .blocked ∧ ∀ w ∈ e.notifyAll.waiters, w.pc ≠ .blocked := by
  refine ⟨wakeWorker_not_blocked e.worker, ?_⟩
  intro w hw
  obtain ⟨w₀, -, rfl⟩ := List.mem_map.mp hw
  exact wake_not_blocked w₀

theorem Wakeful.of_free (hworker : e.worker ≠ .blocked)
    (hwaiters : ∀ w ∈ e.waiters, w.pc ≠ .blocked) :
    e.Wakeful :=
  ⟨fun hblocked => absurd hblocked hworker, fun w hw hblocked => absurd hblocked (hwaiters w hw)⟩

theorem forceFlush_wakeful (e : Exporter ρ) : e.forceFlush.Wakeful := by
  obtain ⟨hworker, hwaiters⟩ := notifyAll_free { e with flushSeq := e.flushSeq + 1 }
  refine Wakeful.of_free hworker ?_
  intro w hw
  rcases List.mem_append.mp hw with hw | hw
  · exact hwaiters w hw
  · rw [List.mem_singleton.mp hw]
    simp

theorem Wakeful.shutDown (h : e.Wakeful) : e.shutDown.Wakeful := by
  unfold Exporter.shutDown
  split
  · exact h
  · exact forceFlush_wakeful _

/-- A waiter blocks only while its predicate is false. -/
theorem Wakeful.check (h : e.Wakeful) {i : Nat} (hstep : e.check i = some e') : e'.Wakeful := by
  unfold Exporter.check at hstep
  split at hstep
  · cases hstep
  split at hstep
  · cases hstep
    refine ⟨h.worker, ?_⟩
    intro w hw hblocked
    rcases mem_set hw with hw | rfl
    · exact h.waiters w hw hblocked
    · dsimp only at hblocked
      split at hblocked
      · cases hblocked
      · next hpending =>
        unfold flushed at hpending
        simpa using hpending
  · cases hstep
    refine ⟨h.worker, ?_⟩
    intro w hw hblocked
    rcases mem_set hw with hw | rfl
    · exact h.waiters w hw hblocked
    · cases hblocked
  · cases hstep

theorem Wakeful.expire (h : e.Wakeful) {i : Nat} (hstep : e.expire i = some e') : e'.Wakeful := by
  unfold Exporter.expire at hstep
  split at hstep
  · cases hstep
  split at hstep
  · cases hstep
    refine ⟨h.worker, ?_⟩
    intro w hw hblocked
    rcases mem_set hw with hw | rfl
    · exact h.waiters w hw hblocked
    · cases hblocked
  · cases hstep

/-! ### The worker -/

theorem Wakeful.of_running (h : e.Wakeful) (hworker : e'.worker ≠ .blocked)
    (hwaiters : e'.waiters = e.waiters) (hseq : e'.flushSeq = e.flushSeq)
    (hdone : e'.flushDoneSeq = e.flushDoneSeq) : e'.Wakeful := by
  refine ⟨fun hblocked => absurd hblocked hworker, ?_⟩
  rw [hwaiters, hseq, hdone]
  exact h.waiters

theorem Wakeful.drain (h : e.Wakeful) : e.drain.Wakeful := by
  unfold Exporter.drain
  split
  · have hleft : ∀ down : Bool, (if down then .leaving else .top : ExporterWorker ρ) ≠
        .blocked := by
      intro down
      cases down <;> simp
    unfold Exporter.endIteration
    dsimp only
    split
    · exact Wakeful.of_free (hleft _) (notifyAll_free { e with flushDoneSeq := e.flushSeq }).2
    · exact h.of_running (hleft _) rfl rfl rfl
  · exact h.of_running (by simp) rfl rfl rfl

/-- The worker blocks only while the predicate of its wait is false. -/
theorem Wakeful.workerCheck (h : e.Wakeful) (hstep : e.workerCheck = some e') : e'.Wakeful := by
  unfold Exporter.workerCheck at hstep
  split at hstep
  · split at hstep
    · cases hstep
      exact h.drain
    · next hidle =>
      push Not at hidle
      cases hstep
      refine ⟨fun _ => ⟨hidle.2.1, ?_, fun hsome => absurd hidle.1 hsome⟩, h.waiters⟩
      simpa using hidle.2.2
  · cases hstep

theorem Wakeful.relock (h : e.Wakeful) (hstep : e.relock = some e') : e'.Wakeful := by
  unfold Exporter.relock at hstep
  have hdepth : Wakeful { e with diag := e.diag.setQueueDepth e.queue.length } :=
    ⟨h.worker, h.waiters⟩
  split at hstep
  · cases hstep
    exact hdepth.drain
  · cases hstep
    exact hdepth.drain
  · cases hstep

/-- Step lemma. -/
theorem Wakeful.step (h : e.Wakeful) {a : ExporterAction ρ} (hstep : e.step a = some e') :
    e'.Wakeful := by
  cases a with
  | exportGroup group =>
      cases hstep
      exact h.exportGroup group
  | notifyOne target => exact (h.notifyOne hstep).1
  | spurious target => exact h.wakeOne hstep
  | forceFlush =>
      cases hstep
      exact forceFlush_wakeful e
  | shutdown =>
      cases hstep
      exact h.shutDown
  | check waiter => exact h.check hstep
  | expire waiter => exact h.expire hstep
  | workerCheck => exact h.workerCheck hstep
  | sendThrew what =>
      simp only [Exporter.step, Exporter.sendThrew] at hstep
      split at hstep
      · cases hstep
        exact h.of_running (by simp [Exporter.drainThrew]) rfl rfl rfl
      · cases hstep
  | sendAll bytes results =>
      simp only [Exporter.step, Exporter.sendAll] at hstep
      split at hstep
      · split at hstep
        · cases hstep
          exact h.of_running (by simp) rfl rfl rfl
        · cases hstep
      · cases hstep
  | settle attempts what =>
      simp only [Exporter.step, Exporter.settleNext] at hstep
      split at hstep
      · split at hstep
        · cases hstep
          exact h.of_running (by simp [Exporter.drainThrew]) rfl rfl rfl
        · cases hstep
          exact h.of_running (by simp) rfl rfl rfl
      · cases hstep
  | relock => exact h.relock hstep
  | leave =>
      simp only [Exporter.step, Exporter.leave] at hstep
      split at hstep
      · cases hstep
        exact Wakeful.of_free (by simp) (notifyAll_free { e with flushDoneSeq := e.flushSeq }).2
      · cases hstep

/-- No wakeup is lost, in any run: nobody is blocked on a predicate that holds,
except a worker whose queue was filled by a caller that has released the lock and
not yet sent its notification. That notification can only wake the worker. -/
theorem no_lost_wakeup (config : OtlpExporterConfig) (actions : List (ExporterAction ρ))
    (e : Exporter ρ) (hrun : run step (new config) actions = some e) :
    (e.worker = .blocked → e.flushSeq ≤ e.flushDoneSeq ∧ e.shutdown = false ∧
      (e.queue ≠ [] → 0 < e.owed ∧ (∀ w ∈ e.waiters, w.pc ≠ .blocked) ∧
        ∀ target e', e.step (.notifyOne target) = some e' → e'.worker = .top)) ∧
    ∀ w ∈ e.waiters, w.pc = .blocked → e.flushDoneSeq < e.flushSeq := by
  have h : e.Wakeful := run_invariant (fun _ _ _ h hstep => h.step hstep) (Wakeful.new config) hrun
  refine ⟨?_, h.waiters⟩
  intro hblocked
  obtain ⟨hdone, hopen, howed⟩ := h.worker hblocked
  refine ⟨hdone, hopen, fun hsome => ⟨howed hsome, h.alone hblocked, ?_⟩⟩
  intro target e' hstep
  exact (h.notifyOne hstep).2.2 hblocked

/-- A caller that queued a batch for the blocked worker, and has yet to notify it. -/
def unnotified : List (ExporterAction Nat) := [.workerCheck, .exportGroup [(oneSpan, false)]]

theorem no_lost_wakeup_unnotified :
    ∃ e : Exporter Nat, run step (new smallConfig) unnotified = some e ∧ e.worker = .blocked ∧
      0 < e.owed := by
  obtain ⟨e, hrun, hblocked, hqueue⟩ : ∃ e : Exporter Nat,
      run step (new smallConfig) unnotified = some e ∧ e.worker = .blocked ∧ e.queue = [oneSpan] :=
    ⟨_, rfl, rfl, rfl⟩
  obtain ⟨-, -, howed⟩ := (no_lost_wakeup smallConfig unnotified e hrun).1 hblocked
  exact ⟨e, hrun, hblocked, (howed (by simp [hqueue])).1⟩

/-- Between the release of the lock and the notification the worker is blocked
with a batch in its queue. -/
theorem blocked_with_queue :
    ∃ e : Exporter Nat, run step (new smallConfig) unnotified = some e ∧ e.worker = .blocked ∧
      e.queue = [oneSpan] :=
  ⟨_, rfl, rfl, rfl⟩

end Microtel.Pipeline.Exporter
