import Microtel.Sdk.Teardown

/-!
What a `Shutdown` that has returned leaves: a component that was told to stop has
left its loop, or the `Shutdown` that told it still waits for it or gave up.
-/

namespace Microtel.Sdk.SdkProvider

open Machine Pipeline

variable {ρ : Type} {s s' : SdkProvider ρ}

/-- Some `Shutdown` is at such a place. -/
def At (calls : List Call) (p : ShutdownPc → Prop) : Prop :=
  ∃ c ∈ calls, ∃ pc status, c.pc = .shuttingDown pc status ∧ p pc

def AwaitsExporter (pc : ShutdownPc) : Prop :=
  (∃ waiter, pc = .awaitExporter waiter) ∨ ∃ answered, pc = .joinExporter answered

section At

variable {calls : List Call} {k : Nat} {c c' : Call} {p : ShutdownPc → Prop}

/-- A call that was not there may move. -/
theorem At.set (h : At calls p) (hc : calls[k]? = some c)
    (hnot : ∀ pc status, c.pc = .shuttingDown pc status → ¬ p pc) : At (calls.set k c') p := by
  obtain ⟨d, hd, pc, status, hpc, hp⟩ := h
  obtain ⟨j, hj⟩ := List.mem_iff_getElem?.mp hd
  have hjk : j ≠ k := by
    rintro rfl
    rw [hj] at hc
    cases hc
    exact hnot pc status hpc hp
  refine ⟨d, List.mem_of_getElem? (i := j) ?_, pc, status, hpc, hp⟩
  rw [Threads.set_other hjk]
  exact hj

theorem At.arrived {pc : ShutdownPc} {status : Status} (hc : calls[k]? = some c)
    (hpc : c'.pc = .shuttingDown pc status) (hp : p pc) : At (calls.set k c') p :=
  ⟨c', List.mem_of_getElem? (Threads.set_self hc), pc, status, hpc, hp⟩

theorem At.push (h : At calls p) : At (calls ++ [c]) p := by
  obtain ⟨d, hd, hat⟩ := h
  exact ⟨d, List.mem_append_left _ hd, hat⟩

end At

structure Waited (s : SdkProvider ρ) : Prop where
  spans : s.trace.processor.shutdown = true →
    s.trace.processor.worker = .exited ∨ s.spansAbandoned = true ∨ At s.calls (· = .joinSpans)
  reader : ∀ r, s.metricReader = some r → r.shutdown = true →
    r.running = false ∨ At s.calls (· = .joinReader)
  logs : ∀ l, s.logPipeline = some l → l.shutdown = true →
    l.running = false ∨ l.abandoned = true ∨ At s.calls (· = .joinLogs)
  exporter : s.trace.exporter.shutdown = true →
    s.trace.exporter.worker = .exited ∨ At s.calls AwaitsExporter

theorem spansExited_iff : s.spansExited = true ↔ s.trace.processor.worker = .exited := by
  unfold spansExited
  split
  · next h => simp [h]
  · next h =>
    constructor
    · intro hfalse
      cases hfalse
    · intro hexited
      exact absurd hexited h

theorem exporterExited_iff : s.exporterExited = true ↔ s.trace.exporter.worker = .exited := by
  unfold exporterExited
  split
  · next h => simp [h]
  · next h =>
    constructor
    · intro hfalse
      cases hfalse
    · intro hexited
      exact absurd hexited h

/-! ### One field for each component -/

section Wind

variable {pc : ShutdownPc} {status : Status} {next : SdkProvider ρ} {k : Nat} {pc' : Pc}

theorem not_there {p : ShutdownPc → Prop} (hp : ¬ p pc) :
    ∀ pc' status', (⟨.shutdown, .shuttingDown pc status⟩ : Call).pc = .shuttingDown pc' status' →
      ¬ p pc' := by
  intro pc' status' heq
  cases heq
  exact hp

theorem Waited.windSpans (h : s.Waited) (W : Winds s pc next pc')
    (hc : s.calls[k]? = some ⟨.shutdown, .shuttingDown pc status⟩)
    (htold : next.trace.processor.shutdown = true) :
    next.trace.processor.worker = .exited ∨ next.spansAbandoned = true ∨
      At (s.calls.set k ⟨.shutdown, pc'⟩) (· = .joinSpans) := by
  cases W with
  | passed P =>
      by_cases hpc : pc = .joinSpans
      · subst hpc
        cases P with
        | spansJoined hexited => exact .inl (spansExited_iff.mp hexited)
      · exact (h.spans htold).imp_right (Or.imp_right fun hat => hat.set hc (not_there hpc))
  | spansStopped hopen => exact .inr (.inr (At.arrived hc rfl rfl))
  | spansAbandoned => exact .inr (.inl rfl)
  | readerStopped | logsStopped | logsAbandoned | exporterStopped | closed =>
      exact (h.spans htold).imp_right (Or.imp_right fun hat => hat.set hc (not_there (by simp)))

theorem Waited.windReader (h : s.Waited) (W : Winds s pc next pc')
    (hc : s.calls[k]? = some ⟨.shutdown, .shuttingDown pc status⟩) {r : Component Int}
    (hr : next.metricReader = some r) (htold : r.shutdown = true) :
    r.running = false ∨ At (s.calls.set k ⟨.shutdown, pc'⟩) (· = .joinReader) := by
  cases W with
  | passed P =>
      by_cases hpc : pc = .joinReader
      · subst hpc
        cases P with
        | readerJoined hr' hexited =>
            rw [hr] at hr'
            cases hr'
            exact .inl hexited
      · exact (h.reader r hr htold).imp_right fun hat => hat.set hc (not_there hpc)
  | readerStopped hr' hopen => exact .inr (At.arrived hc rfl rfl)
  | spansStopped | spansAbandoned | logsStopped | logsAbandoned | exporterStopped | closed =>
      exact (h.reader r hr htold).imp_right fun hat => hat.set hc (not_there (by simp))

theorem Waited.windLogs (h : s.Waited) (W : Winds s pc next pc')
    (hc : s.calls[k]? = some ⟨.shutdown, .shuttingDown pc status⟩) {l : Component BatchOptions}
    (hl : next.logPipeline = some l) (htold : l.shutdown = true) :
    l.running = false ∨ l.abandoned = true ∨
      At (s.calls.set k ⟨.shutdown, pc'⟩) (· = .joinLogs) := by
  cases W with
  | passed P =>
      by_cases hpc : pc = .joinLogs
      · subst hpc
        cases P with
        | logsJoined hl' hexited =>
            rw [hl] at hl'
            cases hl'
            exact .inl hexited
      · exact (h.logs l hl htold).imp_right (Or.imp_right fun hat => hat.set hc (not_there hpc))
  | logsStopped hl' hopen => exact .inr (.inr (At.arrived hc rfl rfl))
  | logsAbandoned hl' =>
      cases hl
      exact .inr (.inl rfl)
  | spansStopped | spansAbandoned | readerStopped | exporterStopped | closed =>
      exact (h.logs l hl htold).imp_right (Or.imp_right fun hat => hat.set hc (not_there (by simp)))

theorem Waited.windExporter (h : s.Waited) (W : Winds s pc next pc')
    (hc : s.calls[k]? = some ⟨.shutdown, .shuttingDown pc status⟩)
    (htold : next.trace.exporter.shutdown = true) :
    next.trace.exporter.worker = .exited ∨
      At (s.calls.set k ⟨.shutdown, pc'⟩) AwaitsExporter := by
  cases W with
  | passed P =>
      by_cases hpc : AwaitsExporter pc
      · cases P with
        | exporterAnswered => exact .inr (At.arrived hc rfl (.inr ⟨_, rfl⟩))
        | exporterJoined hexited => exact .inl (exporterExited_iff.mp hexited)
        | _ => simp [AwaitsExporter] at hpc
      · exact (h.exporter htold).imp_right fun hat => hat.set hc (not_there hpc)
  | exporterStopped hopen => exact .inr (At.arrived hc rfl (.inl ⟨_, rfl⟩))
  | spansStopped | spansAbandoned | readerStopped | logsStopped | logsAbandoned | closed =>
      exact (h.exporter htold).imp_right fun hat =>
        hat.set hc (not_there (by simp [AwaitsExporter]))

theorem Waited.wind (h : s.Waited) (W : Winds s pc next pc')
    (hc : s.calls[k]? = some ⟨.shutdown, .shuttingDown pc status⟩) :
    ({ next with calls := s.calls.set k ⟨.shutdown, pc'⟩ } : SdkProvider ρ).Waited where
  spans := by
    intro htold
    have hspans := windSpans h W hc htold
    exact hspans
  reader := by
    intro r hr htold
    have hreader := windReader h W hc hr htold
    exact hreader
  logs := by
    intro l hl htold
    have hlogs := windLogs h W hc hl htold
    exact hlogs
  exporter := by
    intro htold
    have hexporter := windExporter h W hc htold
    exact hexporter

end Wind

/-! ### Every step -/

/-- A step that moves no `Shutdown`. -/
theorem Waited.other (h : s.Waited) (hcalls : ∀ p, At s.calls p → At s'.calls p)
    (hspans : s'.trace.processor.shutdown = s.trace.processor.shutdown)
    (hspansExited : s.trace.processor.worker = .exited → s'.trace.processor.worker = .exited)
    (hexporter : s'.trace.exporter.shutdown = s.trace.exporter.shutdown)
    (hexporterExited : s.trace.exporter.worker = .exited → s'.trace.exporter.worker = .exited)
    (hgiven : s'.spansAbandoned = s.spansAbandoned)
    (hreader : ∀ r', s'.metricReader = some r' → r'.shutdown = true → r'.running = false ∨
      ∃ r, s.metricReader = some r ∧ r.shutdown = true ∧ r'.running = r.running)
    (hlogs : ∀ l', s'.logPipeline = some l' → l'.shutdown = true → l'.running = false ∨
      ∃ l, s.logPipeline = some l ∧ l.shutdown = true ∧ l'.running = l.running ∧
        l'.abandoned = l.abandoned) : s'.Waited where
  spans htold := by
    rw [hspans] at htold
    rcases h.spans htold with hexited | habandoned | hat
    · exact .inl (hspansExited hexited)
    · exact .inr (.inl (hgiven.trans habandoned))
    · exact .inr (.inr (hcalls _ hat))
  reader r' hr' htold' := by
    rcases hreader r' hr' htold' with hexited | ⟨r, hr, htold, hrunning⟩
    · exact .inl hexited
    · rw [hrunning]
      exact (h.reader r hr htold).imp_right (hcalls _)
  logs l' hl' htold' := by
    rcases hlogs l' hl' htold' with hexited | ⟨l, hl, htold, hrunning, habandoned⟩
    · exact .inl hexited
    · rw [hrunning, habandoned]
      exact (h.logs l hl htold).imp_right (Or.imp_right (hcalls _))
  exporter htold := by
    rw [hexporter] at htold
    rcases h.exporter htold with hexited | hat
    · exact .inl (hexporterExited hexited)
    · exact .inr (hcalls _ hat)

/-- The reader as it was. -/
theorem sameReader (r' : Component Int) (hr' : s.metricReader = some r')
    (htold : r'.shutdown = true) :
    r'.running = false ∨
      ∃ r, s.metricReader = some r ∧ r.shutdown = true ∧ r'.running = r.running :=
  .inr ⟨r', hr', htold, rfl⟩

theorem sameLogs (l' : Component BatchOptions) (hl' : s.logPipeline = some l')
    (htold : l'.shutdown = true) : l'.running = false ∨
      ∃ l, s.logPipeline = some l ∧ l.shutdown = true ∧ l'.running = l.running ∧
        l'.abandoned = l.abandoned :=
  .inr ⟨l', hl', htold, rfl, rfl⟩

theorem Waited.moved {k : Nat} {half : Bool} {c : Call} {next : SdkProvider ρ} {pc' : Pc}
    (h : s.Waited) (M : Moves s k half c.request c.pc next pc') (hc : s.calls[k]? = some c) :
    ({ next with calls := s.calls.set k { c with pc := pc' } } : SdkProvider ρ).Waited := by
  obtain ⟨request, pc⟩ := c
  have hat : (∀ pc₀ status, pc ≠ .shuttingDown pc₀ status) →
      ∀ p, At s.calls p → At (s.calls.set k ⟨request, pc'⟩) p := by
    intro hpc p hat
    exact hat.set hc fun pc₀ status heq => absurd heq (hpc pc₀ status)
  cases M with
  | meter M =>
      cases M with
      | kept | produced =>
          exact h.other (hat (by simp)) rfl id rfl id rfl sameReader sameLogs
      | built =>
          refine h.other (hat (by simp)) rfl id rfl id rfl ?_ sameLogs
          intro r' hr' htold
          cases hr'
          cases htold
  | logger L =>
      cases L with
      | kept => exact h.other (hat (by simp)) rfl id rfl id rfl sameReader sameLogs
      | built | stored =>
          refine h.other (hat (by simp)) rfl id rfl id rfl sameReader ?_
          intro l' hl' htold
          cases hl'
          cases htold
  | spansRetuned | logsSeeded | seedLeft | intervalSeeded | intervalLeft =>
      exact h.other (hat (by simp)) rfl id rfl id rfl sameReader sameLogs
  | logsRetuned =>
      refine h.other (hat (by simp)) rfl id rfl id rfl sameReader ?_
      intro l' hl' htold
      obtain ⟨l, hl, rfl⟩ := Option.map_eq_some_iff.mp hl'
      exact .inr ⟨l, hl, htold, rfl, rfl⟩
  | readerRetuned =>
      refine h.other (hat (by simp)) rfl id rfl id rfl ?_ sameLogs
      intro r' hr' htold
      obtain ⟨r, hr, rfl⟩ := Option.map_eq_some_iff.mp hr'
      exact .inr ⟨r, hr, htold, rfl⟩
  | wound W => exact h.wind W hc

theorem Waited.step [DecidableEq ρ] {a : ProviderAction ρ} (h : s.Waited)
    (hstep : s.step a = some s') : s'.Waited := by
  cases step_spec hstep with
  | @entered request =>
      have hpush : ∀ p, At s.calls p → At (s.call request).calls p := by
        intro p hat
        cases request <;> exact hat.push
      cases request <;> exact h.other hpush rfl id rfl id rfl sameReader sameLogs
  | moved _ hc M => exact h.moved M hc
  | traced hown htrace =>
      have S := traceOwn_stays hown htrace
      exact h.other (fun _ => id) S.processor.shutdown S.processor.exited S.exporterShutdown
        S.exporterExited rfl sameReader sameLogs
  | readerExited hr htold =>
      refine h.other (fun _ => id) rfl id rfl id rfl ?_ sameLogs
      intro r' hr' _
      cases hr'
      exact .inl rfl
  | logsExited hl htold =>
      refine h.other (fun _ => id) rfl id rfl id rfl sameReader ?_
      intro l' hl' _
      cases hl'
      exact .inl rfl

/-! ### Every run -/

theorem CallsOk.new (wiring : Wiring) (resource : ρ) (batch : BatchOptions)
    (maxRecordBytes maxTotalQueueBytes : Nat) (metricInterval : Int) :
    (new wiring resource batch maxRecordBytes maxTotalQueueBytes metricInterval).CallsOk := by
  intro c hc
  cases hc

theorem Waited.new (wiring : Wiring) (resource : ρ) (batch : BatchOptions)
    (maxRecordBytes maxTotalQueueBytes : Nat) (metricInterval : Int) :
    (new wiring resource batch maxRecordBytes maxTotalQueueBytes metricInterval).Waited where
  spans htold := by cases htold
  reader r hr := by cases hr
  logs l hl := by cases hl
  exporter htold := by cases htold

/-- A `Shutdown` has returned. -/
def ShutdownReturned (s : SdkProvider ρ) : Prop :=
  ∃ c ∈ s.calls, ∃ status, c = ⟨.shutdown, .returned (.status status)⟩

/-- Every component with a worker was told to stop. Its worker has left its loop,
unless a `Shutdown` is still waiting for it or found its timeout over. -/
structure Stopped (s : SdkProvider ρ) : Prop where
  spans : s.trace.processor.shutdown = true ∧
    (s.trace.processor.worker = .exited ∨ s.spansAbandoned = true ∨ At s.calls (· = .joinSpans))
  reader : ∀ r, s.metricReader = some r →
    r.shutdown = true ∧ (r.running = false ∨ At s.calls (· = .joinReader))
  logs : ∀ l, s.logPipeline = some l →
    l.shutdown = true ∧ (l.running = false ∨ l.abandoned = true ∨ At s.calls (· = .joinLogs))
  exporter : s.trace.exporter.shutdown = true ∧
    (s.trace.exporter.worker = .exited ∨ At s.calls AwaitsExporter)

/-- No component is built, and none is on its way. -/
structure NoneBuilt (s s' : SdkProvider ρ) : Prop where
  reader : s.metricReader = none → s'.metricReader = none
  readerToCome : s'.readerToCome = false
  logs : s.logPipeline = none → s'.logPipeline = none
  logsToCome : s'.logsToCome = false

theorem ShutdownReturned.reached (h : s.ShutdownReturned) (hcalls : s.CallsOk) :
    ∀ n ≤ 14, s.Reached n := by
  obtain ⟨c, hc, status, rfl⟩ := h
  exact hcalls _ hc rfl

theorem CallsOk.stopped (h : s.CallsOk) (hreturned : s.ShutdownReturned) (hwaited : s.Waited) :
    s.Stopped where
  spans := by
    have htold := hreturned.reached h 1 (by omega)
    exact ⟨htold, hwaited.spans htold⟩
  reader r hr := by
    have htold := hreturned.reached h 4 (by omega) r hr
    exact ⟨htold, hwaited.reader r hr htold⟩
  logs l hl := by
    have htold := hreturned.reached h 8 (by omega) l hl
    exact ⟨htold, hwaited.logs l hl htold⟩
  exporter := by
    have htold := hreturned.reached h 11 (by omega)
    exact ⟨htold, hwaited.exporter htold⟩

/-- A call that has returned has returned for good. -/
theorem Stepped.returned_stays [DecidableEq ρ] {a : ProviderAction ρ} (S : Stepped s a s')
    (h : s.ShutdownReturned) : s'.ShutdownReturned := by
  obtain ⟨c, hmem, status, hc⟩ := h
  cases S with
  | @entered request =>
      refine ⟨c, ?_, status, hc⟩
      cases request <;> exact List.mem_append_left _ hmem
  | @moved _ k half d next pc' _ hd M =>
      obtain ⟨j, hj⟩ := List.mem_iff_getElem?.mp hmem
      have hjk : j ≠ k := by
        rintro rfl
        rw [hj] at hd
        cases hd
        rw [hc] at M
        cases M
      refine ⟨c, List.mem_of_getElem? (i := j) ?_, status, hc⟩
      change (s.calls.set k _)[j]? = _
      rw [Threads.set_other hjk]
      exact hj
  | traced | readerExited | logsExited => exact ⟨c, hmem, status, hc⟩

section Runs

variable [DecidableEq ρ]

theorem run_noneBuilt {after : List (ProviderAction ρ)} (hflag : s.shutDown = true)
    (hreader : s.readerToCome = false) (hlogs : s.logsToCome = false)
    (hrun : run step s after = some s') : NoneBuilt s s' := by
  have hinv : ∀ t a t', (t.shutDown = true ∧ NoneBuilt s t) → t.step a = some t' →
      t'.shutDown = true ∧ NoneBuilt s t' := by
    rintro t a t' ⟨hset, N⟩ hstep
    have K := step_keeps hstep hset
    refine ⟨K.flag, ?_, K.readerToCome N.readerToCome, ?_, K.logsToCome N.logsToCome⟩
    · intro hnone
      by_contra hsome
      obtain ⟨r', hr'⟩ := Option.ne_none_iff_exists'.mp hsome
      obtain ⟨r, hr, -⟩ := K.reader N.readerToCome r' hr'
      rw [N.reader hnone] at hr
      cases hr
    · intro hnone
      by_contra hsome
      obtain ⟨l', hl'⟩ := Option.ne_none_iff_exists'.mp hsome
      obtain ⟨l, hl, -⟩ := K.logs N.logsToCome l' hl'
      rw [N.logs hnone] at hl
      cases hl
  exact (run_invariant hinv ⟨hflag, ⟨id, hreader, id, hlogs⟩⟩ hrun).2

/-- In a run in which, whenever a `Shutdown` looks for the metric reader or the log
processor, no call is on its way to build it: from the return of a `Shutdown` on
nothing is built, and every worker there is was told to stop. -/
theorem nothing_built_after_shutdown (wiring : Wiring) (resource : ρ) (batch : BatchOptions)
    (maxRecordBytes maxTotalQueueBytes : Nat) (metricInterval : Int)
    (before after : List (ProviderAction ρ)) (s s' : SdkProvider ρ)
    (hok : ∀ done a rest t, before ++ after = done ++ a :: rest →
      run step (new wiring resource batch maxRecordBytes maxTotalQueueBytes metricInterval) done =
        some t → t.noneToCome a = true)
    (hbefore : run step
      (new wiring resource batch maxRecordBytes maxTotalQueueBytes metricInterval) before = some s)
    (hreturned : s.ShutdownReturned) (hafter : run step s after = some s') :
    NoneBuilt s s' ∧ Stopped s' := by
  have hrun : run step (new wiring resource batch maxRecordBytes maxTotalQueueBytes metricInterval)
      (before ++ after) = some s' := by
    rw [run_append, hbefore]
    exact hafter
  have hstep : ∀ (t : SdkProvider ρ) a t', (t.CallsOk ∧ t.Waited) → t.noneToCome a = true →
      t.step a = some t' → t'.CallsOk ∧ t'.Waited := by
    rintro t a t' ⟨hcalls, hwaited⟩ hnone hstep
    exact ⟨hcalls.step hnone hstep, hwaited.step hstep⟩
  have hnew := And.intro
    (CallsOk.new wiring resource batch maxRecordBytes maxTotalQueueBytes metricInterval)
    (Waited.new wiring resource batch maxRecordBytes maxTotalQueueBytes metricInterval)
  have hold : ∀ done a rest t, before = done ++ a :: rest →
      run step (new wiring resource batch maxRecordBytes maxTotalQueueBytes metricInterval) done =
        some t → t.noneToCome a = true := by
    intro done a rest t hsplit
    apply hok done a (rest ++ after) t
    rw [hsplit, List.append_assoc, List.cons_append]
  obtain ⟨hcalls, -⟩ := run_invariant_of hstep hnew hold hbefore
  obtain ⟨hcalls', hwaited'⟩ := run_invariant_of hstep hnew hok hrun
  have hreturned' : s'.ShutdownReturned :=
    run_invariant (fun t a t' h hstep => (step_spec hstep).returned_stays h) hreturned hafter
  refine ⟨run_noneBuilt (hreturned.reached hcalls 0 (by omega))
    (hreturned.reached hcalls 3 (by omega))
    (hreturned.reached hcalls 7 (by omega)) hafter, hcalls'.stopped hreturned' hwaited'⟩

end Runs

/-- The span processor is stopped and joined by call `k`, which looks for the reader. -/
def spansTornDown (k : Nat) : List (ProviderAction Nat) :=
  [.next k .completed, .trace (.processor .collect), .trace (.processor .finish),
    .next k .completed, .next k .completed]

def readerTornDown (k : Nat) : List (ProviderAction Nat) :=
  [.next k .completed, .readerExits, .next k .completed]

def logsTornDown (k : Nat) : List (ProviderAction Nat) :=
  [.next k .completed, .logWorkerExits, .next k .completed]

/-- What comes after a component: the exporter behind it, and the look for the next. -/
def exporterStopped (k : Nat) : List (ProviderAction Nat) :=
  [.next k .completed, .next k .completed]

/-- The trace exporter is stopped and joined, and the call returns. -/
def exporterTornDown (k : Nat) : List (ProviderAction Nat) :=
  [.next k .completed, .next k .completed, .trace (.exporter .workerCheck),
    .trace (.exporter .leave), .trace (.exporter (.check 0)), .next k .completed,
    .next k .completed, .next k .completed]

/-- One `Shutdown` as call `k` from its first access to its return, of a provider
with a reader and a log processor. -/
def wholeShutdown (k : Nat) : List (ProviderAction Nat) :=
  spansTornDown k ++ readerTornDown k ++ exporterStopped k ++ logsTornDown k ++ exporterTornDown k

/-- The same of a provider with neither. -/
def bareShutdown (k : Nat) : List (ProviderAction Nat) :=
  spansTornDown k ++ exporterStopped k ++ exporterTornDown k

/-- A meter, a logger, a `Shutdown`; then a `GetMeter` on the provider that was shut down. -/
def builtThenShutDown : List (ProviderAction Nat) :=
  .call (.getMeter [] []) :: .next 0 .completed :: .call (.getLogger [] []) :: .next 1 .completed ::
    .call .shutdown :: wholeShutdown 2

def meterAfterwards : List (ProviderAction Nat) := [.call (.getMeter [1] []), .next 3 .completed]

theorem nothing_built_after_shutdown_meterAfterwards :
    ∃ s s', run step small builtThenShutDown = some s ∧ s.ShutdownReturned ∧
      run step s meterAfterwards = some s' ∧ NoneBuilt s s' ∧ Stopped s' := by
  have hcalls : (run step small builtThenShutDown).map calls =
      some [⟨.getMeter [] [], .returned (.entry [0])⟩, ⟨.getLogger [] [], .returned (.entry [0])⟩,
        ⟨.shutdown, .returned (.status .completed)⟩] := by
    decide +kernel
  have hwhole : (run step small (builtThenShutDown ++ meterAfterwards)).isSome = true := by
    decide +kernel
  obtain ⟨s, hs, hat⟩ := Option.map_eq_some_iff.mp hcalls
  obtain ⟨s', hs'⟩ := Option.isSome_iff_exists.mp hwhole
  rw [run_append, hs] at hs'
  have hreturned : s.ShutdownReturned := by
    refine ⟨⟨.shutdown, .returned (.status .completed)⟩, ?_, .completed, rfl⟩
    rw [hat]
    simp
  have hok : throughout step (fun s a => s.noneToCome a = true) small
      (builtThenShutDown ++ meterAfterwards) = true := by
    decide +kernel
  obtain ⟨hnone, hstopped⟩ := nothing_built_after_shutdown {} 0 {} 4096 4096 60000 builtThenShutDown
    meterAfterwards s s' (throughout_sound hok) hs hreturned hs'
  exact ⟨s, s', hs, hreturned, hs', hnone, hstopped⟩

/-- `GetMeter` and `GetLogger` read the flag, a whole `Shutdown` runs and returns,
and only then do they take their locks. -/
def shutDownBetween : List (ProviderAction Nat) :=
  .call (.getMeter [] []) :: .call (.getLogger [] []) :: .call .shutdown :: bareShutdown 2

def builtAfterwards : List (ProviderAction Nat) := [.next 0 .completed, .next 1 .completed]

theorem built_after_shutdown :
    ∃ s s', run step small shutDownBetween = some s ∧ s.ShutdownReturned ∧
      s.metricReader = none ∧ s.logPipeline = none ∧ run step s builtAfterwards = some s' ∧
      s'.metricReader = some { setting := 60000, shutdown := false, running := true } ∧
      s'.logPipeline = some { setting := {}, shutdown := false, running := true } := by
  have hbefore : (run step small shutDownBetween).map
      (fun s => (s.calls[2]?, s.metricReader, s.logPipeline)) =
      some (some ⟨.shutdown, .returned (.status .completed)⟩, none, none) := by
    decide +kernel
  have hafter : (run step small (shutDownBetween ++ builtAfterwards)).map
      (fun s => (s.metricReader, s.logPipeline)) =
      some (some { setting := 60000 }, some { setting := {} }) := by
    decide +kernel
  obtain ⟨s, hs, hat⟩ := Option.map_eq_some_iff.mp hbefore
  obtain ⟨s', hs', hat'⟩ := Option.map_eq_some_iff.mp hafter
  rw [run_append, hs] at hs'
  simp only [Prod.mk.injEq] at hat hat'
  exact ⟨s, s', hs, ⟨_, List.mem_of_getElem? hat.1, .completed, rfl⟩, hat.2.1, hat.2.2, hs',
    hat'.1, hat'.2⟩

end Microtel.Sdk.SdkProvider
