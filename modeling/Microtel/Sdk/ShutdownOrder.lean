import Microtel.Sdk.TeardownRuns

/-!
The order of the teardown when `Shutdown` is called more than once. The span
processor answers a second `Shutdown` at once, also while its worker is still
draining for the first.
-/

namespace Microtel.Sdk.SdkProvider

open Machine Pipeline

variable {ρ : Type} {s s' : SdkProvider ρ}

/-- No wait for the span processor's worker runs out of time, and no `Shutdown`
is answered by the span processor that it is shut down already while its worker has
not left its loop. -/
def spansDrained (s : SdkProvider ρ) : ProviderAction ρ → Bool
  | .next k answer =>
      match (s.calls[k]?).map Call.pc with
      | some (.shuttingDown .stopSpans _) => !s.trace.processor.shutdown || s.spansExited
      | some (.shuttingDown .joinSpans _) => answer ≠ .timedOut
      | _ => true
  | _ => true

/-! ### The trace pipeline within the provider -/

/-- Every step of the provider is a step of its trace pipeline or leaves it alone. -/
theorem step_trace [DecidableEq ρ] {a : ProviderAction ρ} (h : s.step a = some s') :
    s'.trace = s.trace ∨ ∃ b, s.trace.step b = some s'.trace := by
  cases step_spec h with
  | @entered request =>
      left
      cases request <;> rfl
  | @moved _ k half c next pc' ha hc M =>
      obtain ⟨request, pc⟩ := c
      cases M with
      | meter M => cases M <;> exact .inl rfl
      | logger L => cases L <;> exact .inl rfl
      | @spansRetuned opts => exact .inr ⟨.processor (.setOptions opts), rfl⟩
      | wound W =>
          cases W with
          | spansStopped => exact .inr ⟨.processor .shutdown, rfl⟩
          | exporterStopped => exact .inr ⟨.exporter .shutdown, rfl⟩
          | _ => exact .inl rfl
      | _ => exact .inl rfl
  | traced hown htrace => exact .inr ⟨_, htrace⟩
  | readerExited => exact .inl rfl
  | logsExited => exact .inl rfl

theorem step_traceInv [DecidableEq ρ] {a : ProviderAction ρ} (hinv : s.trace.Inv)
    (h : s.step a = some s') : s'.trace.Inv := by
  rcases step_trace h with hsame | ⟨b, hb⟩
  · rw [hsame]
    exact hinv
  · exact hinv.step hb

/-- A worker of the span processor that has left its loop does not come back. -/
theorem step_spansExited [DecidableEq ρ] {a : ProviderAction ρ} (h : s.step a = some s')
    (hexited : s.trace.processor.worker = .exited) : s'.trace.processor.worker = .exited := by
  cases step_spec h with
  | @entered request => cases request <;> exact hexited
  | @moved _ k half c next pc' ha hc M =>
      obtain ⟨request, pc⟩ := c
      cases M with
      | meter M => cases M <;> exact hexited
      | logger L => cases L <;> exact hexited
      | wound W => cases W <;> exact hexited
      | _ => exact hexited
  | traced hown htrace => exact (traceOwn_stays hown htrace).processor.exited hexited
  | readerExited => exact hexited
  | logsExited => exact hexited

/-- Only a `Shutdown` that has come to it shuts the exporter down. -/
theorem step_exporterShutdown [DecidableEq ρ] {a : ProviderAction ρ} (h : s.step a = some s')
    (hopen : s.trace.exporter.shutdown = false) (hshut : s'.trace.exporter.shutdown = true) :
    ∃ c ∈ s.calls, ∃ status, c = ⟨.shutdown, .shuttingDown .stopExporter status⟩ := by
  cases step_spec h with
  | @entered request =>
      cases request <;> exact absurd (hopen.symm.trans hshut) (by simp)
  | @moved _ k half c next pc' ha hc M =>
      obtain ⟨request, pc⟩ := c
      cases M with
      | meter M => cases M <;> exact absurd (hopen.symm.trans hshut) (by simp)
      | logger L => cases L <;> exact absurd (hopen.symm.trans hshut) (by simp)
      | @wound pc status _ _ W =>
          cases W with
          | exporterStopped => exact ⟨_, List.mem_of_getElem? hc, status, rfl⟩
          | _ => exact absurd (hopen.symm.trans hshut) (by simp)
      | _ => exact absurd (hopen.symm.trans hshut) (by simp)
  | traced hown htrace =>
      rw [(traceOwn_stays hown htrace).exporterShutdown, hopen] at hshut
      cases hshut
  | readerExited => exact absurd (hopen.symm.trans hshut) (by simp)
  | logsExited => exact absurd (hopen.symm.trans hshut) (by simp)

/-! ### What is refused -/

/-- A batch that finds the exporter open is refused for want of room only. -/
theorem enqueueAll_open {e : Exporter ρ} (hopen : e.shutdown = false)
    (group : List (BatchHandle ρ × Bool)) (r : BatchHandle ρ × DropReason)
    (hr : r ∈ (e.enqueueAll group).1.ledger.refused) : r ∈ e.ledger.refused ∨ r.2 = .queueFull := by
  induction group generalizing e with
  | nil => exact .inl hr
  | cons x group ih =>
      obtain ⟨batch, throws⟩ := x
      have hlocked : (e.enqueueLocked batch throws).1.shutdown = false ∧
          ∀ r ∈ (e.enqueueLocked batch throws).1.ledger.refused,
            r ∈ e.ledger.refused ∨ r.2 = .queueFull := by
        unfold Exporter.enqueueLocked Exporter.refuse
        rw [if_neg (by simp [hopen])]
        split
        · refine ⟨hopen, ?_⟩
          intro r hr
          rcases List.mem_append.mp hr with hr | hr
          · exact .inl hr
          · rw [List.mem_singleton.mp hr]
            exact .inr rfl
        · split
          · refine ⟨hopen, ?_⟩
            intro r hr
            rcases List.mem_append.mp hr with hr | hr
            · exact .inl hr
            · rw [List.mem_singleton.mp hr]
              exact .inr rfl
          · exact ⟨hopen, fun r hr => .inl hr⟩
      rcases ih hlocked.1 hr with hr | hr
      · exact hlocked.2 r hr
      · exact .inr hr

theorem exportGroup_open {e : Exporter ρ} (hopen : e.shutdown = false)
    (group : List (BatchHandle ρ × Bool)) (r : BatchHandle ρ × DropReason)
    (hr : r ∈ (e.exportGroup group).ledger.refused) : r ∈ e.ledger.refused ∨ r.2 = .queueFull := by
  apply enqueueAll_open hopen group r
  unfold Exporter.exportGroup at hr
  dsimp only at hr
  split at hr
  · exact hr
  · exact hr

/-- Only what the worker of the span processor hands over is refused. -/
theorem step_refused [DecidableEq ρ] {a : ProviderAction ρ} (h : s.step a = some s') :
    s'.trace.exporter.ledger.refused = s.trace.exporter.ledger.refused ∨
      s.trace.processor.worker ≠ .exited ∧
        ∃ group, s'.trace.exporter = s.trace.exporter.exportGroup group := by
  cases step_spec h with
  | @entered request =>
      left
      cases request <;> rfl
  | @moved _ k half c next pc' ha hc M =>
      left
      obtain ⟨request, pc⟩ := c
      cases M with
      | meter M => cases M <;> rfl
      | logger L => cases L <;> rfl
      | wound W =>
          cases W with
          | exporterStopped hopen =>
              change s.trace.exporter.shutDown.ledger.refused = _
              unfold Exporter.shutDown
              rw [if_neg (by simp [hopen])]
              exact (Exporter.forceFlush_stays _).refused
          | _ => rfl
      | _ => rfl
  | traced hown htrace =>
      rcases (traceOwn_stays hown htrace).exporter with E | hexport
      · exact .inl E.refused
      · exact .inr hexport
  | readerExited => exact .inl rfl
  | logsExited => exact .inl rfl

/-! ### The order -/

structure Ordered (s : SdkProvider ρ) : Prop where
  /-- A `Shutdown` past the span processor left it with its worker out of its loop. -/
  calls : ∀ c ∈ s.calls, c.request = .shutdown → 2 ≤ rank c.pc →
    s.trace.processor.worker = .exited
  exporter : s.trace.exporter.shutdown = true → s.trace.processor.worker = .exited
  refused : ∀ r ∈ s.trace.exporter.ledger.refused, r.2 ≠ .postShutdown

/-- The ways past the span processor. -/
theorem Winds.past_spans {pc : ShutdownPc} {pc' : Pc} (W : Winds s pc s' pc')
    (hpast : 2 ≤ rank pc') :
    pc = .stopSpans ∧ s.trace.processor.shutdown = true ∨ pc = .joinSpans ∨
      2 ≤ shutdownRank pc := by
  cases W with
  | passed P =>
      cases P with
      | spansAlready h => exact .inl ⟨rfl, h⟩
      | spansJoined h => exact .inr (.inl rfl)
      | _ => exact .inr (.inr (by simp [shutdownRank]))
  | spansStopped h => exact absurd hpast (by simp [rank, shutdownRank])
  | spansAbandoned => exact .inr (.inl rfl)
  | _ => exact .inr (.inr (by simp [shutdownRank]))

/-- A join that does not run out of time has seen the worker out of its loop. -/
theorem join_exited [DecidableEq ρ] {k : Nat} {answer status : Status}
    (hstep : s.step (.next k answer) = some s')
    (hc : s.calls[k]? = some ⟨.shutdown, .shuttingDown .joinSpans status⟩)
    (hanswer : answer ≠ .timedOut) : s.trace.processor.worker = .exited := by
  obtain ⟨c, next, pc', hc', hmove, -⟩ := moveCall_spec hstep
  rw [hc] at hc'
  cases hc'
  simp only [advance, shutdownNext, if_neg hanswer] at hmove
  split at hmove
  · next hexited => exact spansExited_iff.mp hexited
  · cases hmove

/-- A `Shutdown` that comes past the span processor leaves its worker out of its loop. -/
theorem Ordered.moved [DecidableEq ρ] {a : ProviderAction ρ} {k : Nat} {half : Bool} {c : Call}
    {next : SdkProvider ρ} {pc' : Pc} (h : s.Ordered) (hok : s.spansDrained a = true)
    (hstep : s.step a = some s')
    (ha : (∃ answer, a = .next k answer) ∧ half = false ∨
      ∃ point flag, a = .throws k point ∧ c.pc = .building flag ∧ (half = true → point = .second))
    (hc : s.calls[k]? = some c) (M : Moves s k half c.request c.pc next pc')
    (hrequest : c.request = .shutdown) (hpast : 2 ≤ rank pc') :
    s.trace.processor.worker = .exited := by
  obtain ⟨request, pc⟩ := c
  cases hrequest
  cases M with
  | @wound pc status _ _ W =>
      rcases ha with ⟨⟨answer, rfl⟩, -⟩ | ⟨point, flag, -, hbuilding, -⟩
      · rcases W.past_spans hpast with ⟨rfl, htold⟩ | rfl | hpassed
        · simp only [spansDrained, hc, Option.map_some, htold, Bool.not_true, Bool.false_or] at hok
          exact spansExited_iff.mp hok
        · simp only [spansDrained, hc, Option.map_some, decide_eq_true_eq] at hok
          exact join_exited hstep hc hok
        · exact h.calls _ (List.mem_of_getElem? hc) rfl hpassed
      · cases hbuilding

theorem Ordered.step [DecidableEq ρ] {a : ProviderAction ρ} (h : s.Ordered)
    (hok : s.spansDrained a = true) (hstep : s.step a = some s') : s'.Ordered := by
  have hcalls : ∀ c ∈ s'.calls, c.request = .shutdown → 2 ≤ rank c.pc →
      s'.trace.processor.worker = .exited := by
    intro c hc hrequest hpast
    apply step_spansExited hstep
    cases step_spec hstep with
    | @entered request =>
        have hmem : c ∈ s.calls ++ [⟨request, (s.enter request).2⟩] := by
          cases request <;> exact hc
        rcases List.mem_append.mp hmem with hmem | hmem
        · exact h.calls c hmem hrequest hpast
        · rw [List.mem_singleton.mp hmem] at hrequest hpast
          cases hrequest
          simp [enter, rank, shutdownRank] at hpast
    | moved ha hd M =>
        rcases List.mem_or_eq_of_mem_set hc with hmem | rfl
        · exact h.calls c hmem hrequest hpast
        · exact h.moved hok hstep ha hd M hrequest hpast
    | traced | readerExited | logsExited => exact h.calls c hc hrequest hpast
  have hexporter : s'.trace.exporter.shutdown = true → s'.trace.processor.worker = .exited := by
    intro hshut
    apply step_spansExited hstep
    cases hopen : s.trace.exporter.shutdown with
    | true => exact h.exporter hopen
    | false =>
        obtain ⟨c, hc, status, rfl⟩ := step_exporterShutdown hstep hopen hshut
        exact h.calls _ hc rfl (by simp [rank, shutdownRank])
  refine ⟨hcalls, hexporter, ?_⟩
  intro r hr
  rcases step_refused hstep with hsame | ⟨hrunning, group, hexport⟩
  · rw [hsame] at hr
    exact h.refused r hr
  · have hopen : s.trace.exporter.shutdown = false := by
      by_contra hshut
      exact hrunning (h.exporter (by simpa using hshut))
    rw [hexport] at hr
    rcases exportGroup_open hopen group r hr with hold | hfull
    · exact h.refused r hold
    · rw [hfull]
      simp

theorem refusedSpans_zero {refused : List (BatchHandle ρ × DropReason)} {reason : DropReason}
    (h : ∀ r ∈ refused, r.2 ≠ reason) : Exporter.refusedSpans refused reason = 0 := by
  have hnone : refused.filter (·.2 = reason) = [] := by
    rw [List.filter_eq_nil_iff]
    intro r hr
    simpa using h r hr
  rw [Exporter.refusedSpans, hnone]
  rfl

theorem Ordered.new (wiring : Wiring) (resource : ρ) (batch : BatchOptions)
    (maxRecordBytes maxTotalQueueBytes : Nat) (metricInterval : Int) :
    (new wiring resource batch maxRecordBytes maxTotalQueueBytes metricInterval).Ordered where
  calls c hc := by cases hc
  exporter hshut := by cases hshut
  refused r hr := by cases hr

/-- In a run in which no wait for the span processor's worker runs out of time and
no second `Shutdown` passes it while it drains: when the trace exporter is shut down,
that worker has left its loop, and every span ever offered to the processor has been
handed to the exporter or is counted as lost by the processor; and the exporter
refuses no span for being shut down. -/
theorem exporter_stops_after_drain [DecidableEq ρ] (wiring : Wiring) (resource : ρ)
    (batch : BatchOptions) (maxRecordBytes maxTotalQueueBytes : Nat) (metricInterval : Int)
    (actions : List (ProviderAction ρ)) (s : SdkProvider ρ)
    (hok : ∀ done a rest t, actions = done ++ a :: rest →
      run step (new wiring resource batch maxRecordBytes maxTotalQueueBytes metricInterval) done =
        some t → t.spansDrained a = true)
    (hrun : run step
      (new wiring resource batch maxRecordBytes maxTotalQueueBytes metricInterval) actions =
        some s) :
    (s.trace.exporter.shutdown = true →
      s.trace.processor.worker = .exited ∧
        s.trace.processor.ledger.offered.Perm
          (s.trace.exporter.ledger.offered.flatMap BatchHandle.scoped ++
            s.trace.processor.ledger.lost.map Prod.fst)) ∧
      s.trace.exporter.diag.drops .postShutdown = 0 := by
  have hstep : ∀ (t : SdkProvider ρ) a t', (t.trace.Inv ∧ t.Ordered) → t.spansDrained a = true →
      t.step a = some t' → t'.trace.Inv ∧ t'.Ordered := by
    rintro t a t' ⟨htrace, hordered⟩ hdrained hstep
    exact ⟨step_traceInv htrace hstep, hordered.step hdrained hstep⟩
  have hnew :=
    And.intro (TracePipeline.Inv.new resource batch maxRecordBytes maxTotalQueueBytes true
    (traceExporterConfig batch))
    (Ordered.new wiring resource batch maxRecordBytes maxTotalQueueBytes metricInterval)
  obtain ⟨htrace, hordered⟩ := run_invariant_of hstep hnew hok hrun
  constructor
  · intro hshut
    have hexited := hordered.exporter hshut
    have hempty := (htrace.conserves.leaving (.inl hexited)).2
    have hplaces := htrace.conserves.places
    refine ⟨hexited, ?_⟩
    rw [htrace.handed]
    simpa [Processor.places, Processor.held, hexited, hempty] using hplaces
  · rw [htrace.accounts.counted .postShutdown (.inl rfl)]
    exact refusedSpans_zero hordered.refused

/-- A span, then two `Shutdown` calls one after the other. -/
def shutDownTwice : List (ProviderAction Nat) :=
  .trace (.processor (.enqueue {} default)) :: .call .shutdown :: .next 0 .completed ::
    .trace (.processor .collect) :: .trace (.handOver [false]) :: .trace (.processor .finish) ::
    .next 0 .completed :: .next 0 .completed :: .call .shutdown :: .next 1 .completed ::
    (exporterStopped 0 ++ [.next 0 .completed, .next 0 .completed])

theorem exporter_stops_after_drain_shutDownTwice :
    ∃ s, run step small shutDownTwice = some s ∧ s.trace.exporter.shutdown = true ∧
      s.trace.processor.ledger.offered.length = 1 ∧ s.trace.processor.worker = .exited ∧
      s.trace.exporter.diag.drops .postShutdown = 0 := by
  have hends : (run step small shutDownTwice).map (fun s =>
      (s.trace.exporter.shutdown, s.trace.processor.ledger.offered.length)) = some (true, 1) := by
    decide +kernel
  have hok : throughout step (fun s a => s.spansDrained a = true) small shutDownTwice = true := by
    decide +kernel
  obtain ⟨s, hs, hat⟩ := Option.map_eq_some_iff.mp hends
  simp only [Prod.mk.injEq] at hat
  obtain ⟨hdrained, hrefused⟩ := exporter_stops_after_drain {} 0 {} 4096 4096 60000 shutDownTwice s
    (throughout_sound hok) hs
  exact ⟨s, hs, hat.1, hat.2, (hdrained hat.1).1, hrefused⟩

/-- A span; a `Shutdown` that waits for the worker; a second one that passes it and
shuts the exporter down; then the worker hands the span over. -/
def overtaken : List (ProviderAction Nat) :=
  .trace (.processor (.enqueue {} default)) :: .call .shutdown :: .next 0 .completed ::
    .call .shutdown :: .next 1 .completed :: .next 1 .completed :: .next 1 .completed ::
    .next 1 .completed :: .next 1 .completed :: .next 1 .completed ::
    .trace (.processor .collect) :: .trace (.handOver [false]) :: []

theorem span_lost_after_shutdown :
    ∃ s, run step small overtaken = some s ∧
      s.trace.processor.ledger.accepted.length = 1 ∧ s.trace.exporter.shutdown = true ∧
      s.spansExited = false ∧ s.trace.exporter.diag.drops .postShutdown = 1 := by
  have hends : (run step small overtaken).map (fun s =>
      (s.trace.processor.ledger.accepted.length, s.trace.exporter.shutdown, s.spansExited,
        s.trace.exporter.diag.drops .postShutdown)) = some (1, true, false, 1) := by
    decide +kernel
  obtain ⟨s, hs, hat⟩ := Option.map_eq_some_iff.mp hends
  simp only [Prod.mk.injEq] at hat
  exact ⟨s, hs, hat⟩

end Microtel.Sdk.SdkProvider
