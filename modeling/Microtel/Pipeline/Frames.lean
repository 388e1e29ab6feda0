import Microtel.Pipeline.Flush

/-!
What the steps of the trace pipeline leave as it is: the shutdown flags and the
options, which only calls on the provider change, and a worker that has left its
loop.
-/

namespace Microtel.Pipeline

variable {ρ : Type}

namespace Processor

variable {p p' : Processor ρ}

structure Stays (p p' : Processor ρ) : Prop where
  shutdown : p'.shutdown = p.shutdown
  opts : p'.opts = p.opts
  exited : p.worker = .exited → p'.worker = .exited

theorem enqueue_stays (p : Processor ρ) (record : SpanRecord ρ) (scope : InstrumentationScope) :
    Stays p (p.enqueue record scope).1 := by
  unfold enqueue refuse
  dsimp only
  split
  · exact ⟨rfl, rfl, id⟩
  · split
    · exact ⟨rfl, rfl, id⟩
    · split
      · exact ⟨rfl, rfl, id⟩
      · exact ⟨rfl, rfl, id⟩

theorem forceFlush_stays (p : Processor ρ) : Stays p p.forceFlush := by
  unfold forceFlush
  split
  · exact ⟨rfl, rfl, id⟩
  · exact ⟨rfl, rfl, id⟩

theorem handOver_stays (hstep : p.handOver = some p') : Stays p p' := by
  unfold handOver at hstep
  split at hstep
  · next hworker =>
    cases hstep
    refine ⟨rfl, rfl, ?_⟩
    rw [hworker]
    intro hexited
    cases hexited
  · cases hstep

/-- A step that is neither a retune nor a shutdown. -/
theorem step_stays [DecidableEq ρ] {a : ProcessorAction ρ} (hstep : p.step a = some p')
    (hshutdown : a ≠ .shutdown) (hretune : ∀ opts, a ≠ .setOptions opts) : Stays p p' := by
  cases a with
  | enqueue record scope =>
      cases hstep
      exact enqueue_stays p record scope
  | setOptions opts => exact absurd rfl (hretune opts)
  | forceFlush =>
      cases hstep
      exact forceFlush_stays p
  | flushReturn call =>
      simp only [step, flushReturn] at hstep
      split at hstep
      · cases hstep
      · split at hstep
        · cases hstep
        · cases hstep
          exact ⟨rfl, rfl, id⟩
  | shutdown => exact absurd rfl hshutdown
  | collect =>
      simp only [step, collect] at hstep
      split at hstep
      · next hworker =>
        cases hstep
        refine ⟨rfl, rfl, ?_⟩
        rw [hworker]
        intro hexited
        cases hexited
      · cases hstep
  | handOver => exact handOver_stays hstep
  | finish =>
      simp only [step, finish] at hstep
      split at hstep
      · next hworker =>
        cases hstep
        refine ⟨rfl, rfl, ?_⟩
        rw [hworker]
        intro hexited
        cases hexited
      · cases hstep

end Processor

namespace Exporter

variable {e e' : Exporter ρ}

structure Stays (e e' : Exporter ρ) : Prop where
  shutdown : e'.shutdown = e.shutdown
  refused : e'.ledger.refused = e.ledger.refused
  exited : e.worker = .exited → e'.worker = .exited

theorem Stays.refl (e : Exporter ρ) : Stays e e := ⟨rfl, rfl, id⟩

/-- The worker is not out of its loop, so there is nothing to keep of it. -/
theorem Stays.of_running (hshutdown : e'.shutdown = e.shutdown)
    (hrefused : e'.ledger.refused = e.ledger.refused) {worker : ExporterWorker ρ}
    (hworker : e.worker = worker) (hrunning : worker ≠ .exited) : Stays e e' := by
  refine ⟨hshutdown, hrefused, ?_⟩
  intro hexited
  rw [hworker] at hexited
  exact absurd hexited hrunning

theorem notifyAll_stays (e : Exporter ρ) : Stays e e.notifyAll := by
  refine ⟨rfl, rfl, ?_⟩
  intro hexited
  simp [notifyAll, hexited, wakeWorker]

theorem forceFlush_stays (e : Exporter ρ) : Stays e e.forceFlush := by
  obtain ⟨hshutdown, hrefused, hexited⟩ := notifyAll_stays { e with flushSeq := e.flushSeq + 1 }
  exact ⟨hshutdown, hrefused, hexited⟩

theorem wakeOne_stays {target : Target} (hstep : e.wakeOne target = some e') : Stays e e' := by
  cases target with
  | worker =>
      simp only [wakeOne] at hstep
      split at hstep
      · next hworker =>
        cases hstep
        exact Stays.of_running rfl rfl hworker (by simp)
      · cases hstep
  | waiter i =>
      simp only [wakeOne] at hstep
      split at hstep
      · cases hstep
      · split at hstep
        · cases hstep
          exact ⟨rfl, rfl, id⟩
        · cases hstep

theorem notifyOne_stays {target : Option Target} (hstep : e.notifyOne target = some e') :
    Stays e e' := by
  unfold notifyOne at hstep
  split at hstep
  · cases hstep
  · dsimp only at hstep
    split at hstep
    · obtain ⟨hshutdown, hrefused, hexited⟩ := wakeOne_stays hstep
      exact ⟨hshutdown, hrefused, hexited⟩
    · split at hstep
      · cases hstep
        exact ⟨rfl, rfl, id⟩
      · cases hstep

/-- A drain, of a worker that is not out of its loop. -/
theorem drain_same (e : Exporter ρ) :
    e.drain.shutdown = e.shutdown ∧ e.drain.ledger.refused = e.ledger.refused := by
  unfold drain
  split
  · unfold endIteration
    dsimp only
    split
    · exact ⟨rfl, rfl⟩
    · exact ⟨rfl, rfl⟩
  · exact ⟨rfl, rfl⟩

/-- A step that is neither an `Export` nor a shutdown. -/
theorem step_stays {a : ExporterAction ρ} (hstep : e.step a = some e')
    (hexport : ∀ group, a ≠ .exportGroup group) (hshutdown : a ≠ .shutdown) : Stays e e' := by
  cases a with
  | exportGroup group => exact absurd rfl (hexport group)
  | notifyOne target => exact notifyOne_stays hstep
  | spurious target => exact wakeOne_stays hstep
  | forceFlush =>
      cases hstep
      exact forceFlush_stays e
  | shutdown => exact absurd rfl hshutdown
  | check waiter =>
      simp only [step, check] at hstep
      split at hstep
      · cases hstep
      · split at hstep
        · cases hstep
          exact ⟨rfl, rfl, id⟩
        · cases hstep
          exact ⟨rfl, rfl, id⟩
        · cases hstep
  | expire waiter =>
      simp only [step, expire] at hstep
      split at hstep
      · cases hstep
      · split at hstep
        · cases hstep
          exact ⟨rfl, rfl, id⟩
        · cases hstep
  | workerCheck =>
      simp only [step, workerCheck] at hstep
      split at hstep
      · next hworker =>
        split at hstep
        · cases hstep
          exact Stays.of_running e.drain_same.1 e.drain_same.2 hworker (by simp)
        · cases hstep
          exact Stays.of_running rfl rfl hworker (by simp)
      · cases hstep
  | sendThrew what =>
      simp only [step, sendThrew] at hstep
      split at hstep
      · next hworker =>
        cases hstep
        exact Stays.of_running rfl rfl hworker (by simp)
      · cases hstep
  | sendAll bytes results =>
      simp only [step, sendAll] at hstep
      split at hstep
      · next hworker =>
        split at hstep
        · cases hstep
          exact Stays.of_running rfl rfl hworker (by simp)
        · cases hstep
      · cases hstep
  | settle attempts what =>
      simp only [step, settleNext] at hstep
      split at hstep
      · next hworker =>
        split at hstep
        · cases hstep
          exact Stays.of_running rfl rfl hworker (by simp)
        · cases hstep
          exact Stays.of_running rfl rfl hworker (by simp)
      · cases hstep
  | relock =>
      simp only [step, relock] at hstep
      split at hstep
      · next hworker =>
        cases hstep
        have hsame := drain_same { e with diag := e.diag.setQueueDepth e.queue.length }
        exact Stays.of_running hsame.1 hsame.2 hworker (by simp)
      · next hworker =>
        cases hstep
        have hsame := drain_same { e with diag := e.diag.setQueueDepth e.queue.length }
        exact Stays.of_running hsame.1 hsame.2 hworker (by simp)
      · cases hstep
  | leave =>
      simp only [step, leave] at hstep
      split at hstep
      · next hworker =>
        cases hstep
        exact Stays.of_running rfl rfl hworker (by simp)
      · cases hstep

/-- What `Export` changes is the queue and the books. -/
theorem enqueueAll_same (e : Exporter ρ) (group : List (BatchHandle ρ × Bool)) :
    (e.enqueueAll group).1.shutdown = e.shutdown ∧ (e.enqueueAll group).1.worker = e.worker := by
  induction group generalizing e with
  | nil => exact ⟨rfl, rfl⟩
  | cons x group ih =>
      obtain ⟨batch, throws⟩ := x
      have hlocked : (e.enqueueLocked batch throws).1.shutdown = e.shutdown ∧
          (e.enqueueLocked batch throws).1.worker = e.worker := by
        unfold enqueueLocked refuse
        split
        · exact ⟨rfl, rfl⟩
        · split
          · exact ⟨rfl, rfl⟩
          · split
            · exact ⟨rfl, rfl⟩
            · exact ⟨rfl, rfl⟩
      obtain ⟨hshutdown, hworker⟩ := ih (e.enqueueLocked batch throws).1
      exact ⟨hshutdown.trans hlocked.1, hworker.trans hlocked.2⟩

theorem exportGroup_same (e : Exporter ρ) (group : List (BatchHandle ρ × Bool)) :
    (e.exportGroup group).shutdown = e.shutdown ∧ (e.exportGroup group).worker = e.worker := by
  unfold exportGroup
  dsimp only
  split
  · exact e.enqueueAll_same group
  · exact e.enqueueAll_same group

end Exporter

namespace TracePipeline

variable {t t' : TracePipeline ρ}

/-- What a step of the pipeline's own leaves of its two stages: the exporter is
offered a batch by the processor's worker only. -/
structure Stays (t t' : TracePipeline ρ) : Prop where
  processor : Processor.Stays t.processor t'.processor
  exporter : Exporter.Stays t.exporter t'.exporter ∨
    t.processor.worker ≠ .exited ∧ ∃ group, t'.exporter = t.exporter.exportGroup group

theorem Stays.exporterShutdown (S : Stays t t') : t'.exporter.shutdown = t.exporter.shutdown := by
  rcases S.exporter with E | ⟨-, group, hexport⟩
  · exact E.shutdown
  · rw [hexport]
    exact (t.exporter.exportGroup_same group).1

theorem Stays.exporterExited (S : Stays t t') (hexited : t.exporter.worker = .exited) :
    t'.exporter.worker = .exited := by
  rcases S.exporter with E | ⟨-, group, hexport⟩
  · exact E.exited hexited
  · rw [hexport, (t.exporter.exportGroup_same group).2]
    exact hexited

theorem handOver_stays {throws : List Bool} (hstep : t.handOver throws = some t') : Stays t t' := by
  unfold handOver at hstep
  split at hstep
  · obtain ⟨p', hover, rfl⟩ := Option.map_eq_some_iff.mp hstep
    refine ⟨Processor.handOver_stays hover, .inr ⟨?_, _, rfl⟩⟩
    intro hexited
    unfold Processor.handOver at hover
    rw [hexited] at hover
    cases hover
  · cases hstep

theorem flush_stays (t : TracePipeline ρ) : Stays t t.flush := by
  unfold flush
  dsimp only
  split
  · exact ⟨⟨rfl, rfl, id⟩, .inl (.refl _)⟩
  · exact ⟨t.processor.forceFlush_stays, .inl (.refl _)⟩

theorem flushNext_stays {i : Nat} (hstep : t.flushNext i = some t') : Stays t t' := by
  unfold flushNext at hstep
  split at hstep
  · cases hstep
  · split at hstep
    · split at hstep
      · cases hstep
      · cases hstep
        exact ⟨⟨rfl, rfl, id⟩, .inl t.exporter.forceFlush_stays⟩
      · cases hstep
        exact ⟨⟨rfl, rfl, id⟩, .inl (.refl _)⟩
    · split at hstep
      · cases hstep
        exact ⟨⟨rfl, rfl, id⟩, .inl (.refl _)⟩
      · cases hstep
    · cases hstep

theorem step_stays [DecidableEq ρ] {a : PipelineAction ρ} (hstep : t.step a = some t')
    (hprocessor : a ≠ .processor .shutdown) (hretune : ∀ opts, a ≠ .processor (.setOptions opts))
    (hexporter : a ≠ .exporter .shutdown) : Stays t t' := by
  cases a with
  | processor a =>
      obtain ⟨p', -, hp, rfl⟩ := step_processor hstep
      refine ⟨Processor.step_stays hp ?_ ?_, .inl (.refl _)⟩
      · rintro rfl
        exact hprocessor rfl
      · rintro opts rfl
        exact hretune opts rfl
  | exporter a =>
      obtain ⟨e', hexport, he, rfl⟩ := step_exporter hstep
      refine ⟨⟨rfl, rfl, id⟩, .inl (Exporter.step_stays he hexport ?_)⟩
      rintro rfl
      exact hexporter rfl
  | handOver throws => exact handOver_stays hstep
  | flush =>
      cases hstep
      exact flush_stays t
  | flushNext i => exact flushNext_stays hstep

end TracePipeline

end Microtel.Pipeline
