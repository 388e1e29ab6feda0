import Microtel.Sdk.SdkProviderSteps

/-!
`Shutdown` against `GetMeter` and `GetLogger`. The two getters read the shutdown
flag before they take their lock and not under it, so what `Shutdown` finds when
it looks for a component need not be all there will be.
-/

namespace Microtel.Sdk.SdkProvider

open Machine Pipeline

variable {ρ : Type} {s s' : SdkProvider ρ}

/-! ### What is still to be built -/

/-- A `GetMeter` that read the flag as not set, before its critical section. -/
def asksMeter (c : Call) : Bool :=
  match c.request, c.pc with
  | .getMeter _ _, .building false => true
  | _, _ => false

def asksLogger (c : Call) : Bool :=
  match c.request, c.pc with
  | .getLogger _ _, .building _ => true
  | _, _ => false

/-- Some call is on its way to build the metric reader. -/
def readerToCome (s : SdkProvider ρ) : Bool :=
  s.wiring.metricExporter && !s.metricProducer && s.calls.any asksMeter

/-- Some call is on its way to build the log pipeline. -/
def logsToCome (s : SdkProvider ρ) : Bool := s.logPipeline.isNone && s.calls.any asksLogger

/-- When a `Shutdown` looks for the metric reader or the log processor, none is
on its way. -/
def noneToCome (s : SdkProvider ρ) : ProviderAction ρ → Bool
  | .next k _ =>
      match (s.calls[k]?).map Call.pc with
      | some (.shuttingDown .findReader _) => !s.readerToCome
      | some (.shuttingDown .findLogs _) => !s.logsToCome
      | _ => true
  | _ => true

/-! ### How far a `Shutdown` is -/

def shutdownRank : ShutdownPc → Nat
  | .stopSpans => 0
  | .joinSpans => 1
  | .findReader => 2
  | .stopReader => 3
  | .joinReader => 4
  | .stopMetricExporter => 5
  | .findLogs => 6
  | .stopLogs => 7
  | .joinLogs => 8
  | .stopLogExporter => 9
  | .stopExporter => 10
  | .awaitExporter _ => 11
  | .joinExporter _ => 12
  | .close => 13

def rank : Pc → Nat
  | .shuttingDown pc _ => shutdownRank pc
  | _ => 14

/-- What holds once a `Shutdown` has come so far. -/
def Reached (s : SdkProvider ρ) : Nat → Prop
  | 0 => s.shutDown = true
  | 1 => s.trace.processor.shutdown = true
  | 3 => s.readerToCome = false
  | 4 => ∀ r, s.metricReader = some r → r.shutdown = true
  | 7 => s.logsToCome = false
  | 8 => ∀ l, s.logPipeline = some l → l.shutdown = true
  | 11 => s.trace.exporter.shutdown = true
  | _ => True

def CallOk (s : SdkProvider ρ) (c : Call) : Prop :=
  c.request = .shutdown → ∀ n ≤ rank c.pc, s.Reached n

/-- What no step undoes once the flag is set. -/
structure Keeps (s s' : SdkProvider ρ) : Prop where
  flag : s'.shutDown = true
  spans : s.trace.processor.shutdown = true → s'.trace.processor.shutdown = true
  readerToCome : s.readerToCome = false → s'.readerToCome = false
  reader : s.readerToCome = false → ∀ r', s'.metricReader = some r' →
    ∃ r, s.metricReader = some r ∧ (r.shutdown = true → r'.shutdown = true)
  logsToCome : s.logsToCome = false → s'.logsToCome = false
  logs : s.logsToCome = false → ∀ l', s'.logPipeline = some l' →
    ∃ l, s.logPipeline = some l ∧ (l.shutdown = true → l'.shutdown = true)
  exporter : s.trace.exporter.shutdown = true → s'.trace.exporter.shutdown = true

theorem CallOk.keep {c : Call} (h : s.CallOk c) (K : Keeps s s') : s'.CallOk c := by
  intro hrequest n hn
  have hold := h hrequest
  match n with
  | 0 => exact K.flag
  | 1 => exact K.spans (hold 1 hn)
  | 3 => exact K.readerToCome (hold 3 hn)
  | 4 =>
      intro r' hr'
      obtain ⟨r, hr, htold⟩ := K.reader (hold 3 (by omega)) r' hr'
      exact htold (hold 4 hn r hr)
  | 7 => exact K.logsToCome (hold 7 hn)
  | 8 =>
      intro l' hl'
      obtain ⟨l, hl, htold⟩ := K.logs (hold 7 (by omega)) l' hl'
      exact htold (hold 8 hn l hl)
  | 11 => exact K.exporter (hold 11 hn)
  | 2 | 5 | 6 | 9 | 10 | n + 12 => trivial

/-! ### Every step keeps it -/

theorem Keeps.of_same (hflag : s'.shutDown = true)
    (hspans : s.trace.processor.shutdown = true → s'.trace.processor.shutdown = true)
    (hexporter : s.trace.exporter.shutdown = true → s'.trace.exporter.shutdown = true)
    (hcalls : s'.calls = s.calls) (hwiring : s'.wiring = s.wiring)
    (hproducer : s'.metricProducer = s.metricProducer) (hreader : s'.metricReader = s.metricReader)
    (hlogs : s'.logPipeline = s.logPipeline) : Keeps s s' where
  flag := hflag
  spans := hspans
  readerToCome h := by
    rw [← h]
    simp only [SdkProvider.readerToCome, hcalls, hwiring, hproducer]
  reader _ r' hr' := ⟨r', hreader ▸ hr', id⟩
  logsToCome h := by
    rw [← h]
    simp only [SdkProvider.logsToCome, hcalls, hlogs]
  logs _ l' hl' := ⟨l', hlogs ▸ hl', id⟩
  exporter := hexporter

/-- A call that comes once the flag is set builds nothing. -/
theorem enter_builds_nothing (hflag : s.shutDown = true) (request : Request) :
    asksMeter ⟨request, (s.enter request).2⟩ = false ∧
      asksLogger ⟨request, (s.enter request).2⟩ = false := by
  cases request with
  | getMeter name version =>
      simp only [enter, hflag]
      split
      · exact ⟨rfl, rfl⟩
      · exact ⟨rfl, rfl⟩
  | getLogger name version =>
      simp only [enter, hflag, or_true, if_true]
      exact ⟨rfl, rfl⟩
  | setBatchOptions opts => exact ⟨rfl, rfl⟩
  | setMetricInterval interval => exact ⟨rfl, rfl⟩
  | shutdown => exact ⟨rfl, rfl⟩

theorem call_keeps (hflag : s.shutDown = true) (request : Request) : Keeps s (s.call request) := by
  obtain ⟨hmeter, hlogger⟩ := enter_builds_nothing hflag request
  have hsame : (s.enter request).1.trace = s.trace ∧ (s.enter request).1.wiring = s.wiring ∧
      (s.enter request).1.metricProducer = s.metricProducer ∧
      (s.enter request).1.metricReader = s.metricReader ∧
      (s.enter request).1.logPipeline = s.logPipeline ∧
      (s.enter request).1.calls = s.calls ∧ (s.enter request).1.shutDown = true := by
    cases request <;> simp [enter, hflag]
  obtain ⟨htrace, hwiring, hproducer, hreader, hlogs, hcalls, hset⟩ := hsame
  exact {
    flag := hset
    spans := by
      intro h
      simpa only [SdkProvider.call, htrace] using h
    readerToCome := by
      intro h
      simp only [SdkProvider.readerToCome, SdkProvider.call, hwiring, hproducer, hcalls,
        List.any_append, List.any_cons, List.any_nil, hmeter, Bool.or_false] at h ⊢
      exact h
    reader := by
      intro _ r' hr'
      exact ⟨r', hreader ▸ hr', id⟩
    logsToCome := by
      intro h
      simp only [SdkProvider.logsToCome, SdkProvider.call, hlogs, hcalls, List.any_append,
        List.any_cons, List.any_nil, hlogger, Bool.or_false] at h ⊢
      exact h
    logs := by
      intro _ l' hl'
      exact ⟨l', hlogs ▸ hl', id⟩
    exporter := by
      intro h
      simpa only [SdkProvider.call, htrace] using h }

/-- A call that moved does not start to build. -/
theorem Moves.not_building {k : Nat} {half : Bool} {request : Request} {pc pc' : Pc}
    (M : Moves s k half request pc s' pc') (flag : Bool) : pc' ≠ .building flag := by
  cases M with
  | wound W => cases W <;> simp
  | _ => simp

/-- What a step of a call leaves, apart from where the call is. -/
structure Grown (s next : SdkProvider ρ) : Prop where
  flag : next.shutDown = s.shutDown
  wiring : next.wiring = s.wiring
  spans : s.trace.processor.shutdown = true → next.trace.processor.shutdown = true
  producer : s.metricProducer = true → next.metricProducer = true
  reader : s.readerToCome = false → ∀ r', next.metricReader = some r' →
    ∃ r, s.metricReader = some r ∧ (r.shutdown = true → r'.shutdown = true)
  logPipeline : next.logPipeline = none → s.logPipeline = none
  logs : s.logsToCome = false → ∀ l', next.logPipeline = some l' →
    ∃ l, s.logPipeline = some l ∧ (l.shutdown = true → l'.shutdown = true)
  exporter : s.trace.exporter.shutdown = true → next.trace.exporter.shutdown = true

theorem Grown.of_same {next : SdkProvider ρ} (hflag : next.shutDown = s.shutDown)
    (hwiring : next.wiring = s.wiring)
    (htrace : next.trace.processor.shutdown = s.trace.processor.shutdown)
    (hexporter : next.trace.exporter.shutdown = s.trace.exporter.shutdown)
    (hproducer : s.metricProducer = true → next.metricProducer = true)
    (hreader : next.metricReader = s.metricReader) (hlogs : next.logPipeline = s.logPipeline) :
    Grown s next where
  flag := hflag
  wiring := hwiring
  spans h := htrace.trans h
  producer := hproducer
  reader _ r' hr' := ⟨r', hreader ▸ hr', id⟩
  logPipeline h := hlogs ▸ h
  logs _ l' hl' := ⟨l', hlogs ▸ hl', id⟩
  exporter h := hexporter.trans h

/-- The components are replaced, each by one that is as much shut down. -/
theorem Grown.of_components {next : SdkProvider ρ} (hflag : next.shutDown = s.shutDown)
    (hwiring : next.wiring = s.wiring) (htrace : next.trace = s.trace)
    (hproducer : next.metricProducer = s.metricProducer)
    (hreader : ∀ r', next.metricReader = some r' →
      ∃ r, s.metricReader = some r ∧ (r.shutdown = true → r'.shutdown = true))
    (hnone : next.logPipeline = none → s.logPipeline = none)
    (hlogs : ∀ l', next.logPipeline = some l' →
      ∃ l, s.logPipeline = some l ∧ (l.shutdown = true → l'.shutdown = true)) :
    Grown s next where
  flag := hflag
  wiring := hwiring
  spans h := by
    rw [htrace]
    exact h
  producer h := hproducer.trans h
  reader _ := hreader
  logPipeline := hnone
  logs _ := hlogs
  exporter h := by
    rw [htrace]
    exact h

theorem Grown.withReader {r r' : Component Int} (h : s.metricReader = some r)
    (htold : r.shutdown = true → r'.shutdown = true) :
    Grown s { s with metricReader := some r' } := by
  refine Grown.of_components rfl rfl rfl rfl ?_ ?_ ?_
  · intro r'' hr''
    cases hr''
    exact ⟨r, h, htold⟩
  · exact id
  · intro l hl
    exact ⟨l, hl, id⟩

theorem Grown.withLogs {l l' : Component BatchOptions} (h : s.logPipeline = some l)
    (htold : l.shutdown = true → l'.shutdown = true) :
    Grown s { s with logPipeline := some l' } := by
  refine Grown.of_components rfl rfl rfl rfl ?_ ?_ ?_
  · intro r hr
    exact ⟨r, hr, id⟩
  · intro hnone
    cases hnone
  · intro l'' hl''
    cases hl''
    exact ⟨l, h, htold⟩

theorem Meters.grown {k : Nat} {c : Call} {flag : Bool} {name version : Bytes}
    (M : Meters s flag s') (hc : s.calls[k]? = some c)
    (hrequest : c.request = .getMeter name version) (hpc : c.pc = .building flag) : Grown s s' := by
  cases M with
  | kept => exact Grown.of_same rfl rfl rfl rfl id rfl rfl
  | produced => exact Grown.of_same rfl rfl rfl rfl (fun _ => rfl) rfl rfl
  | built hfresh hexporter hflag =>
      have hcome : s.readerToCome = true := by
        have hany : s.calls.any asksMeter = true := by
          rw [List.any_eq_true]
          refine ⟨c, List.mem_of_getElem? hc, ?_⟩
          simp [asksMeter, hrequest, hpc, hflag]
        simp [SdkProvider.readerToCome, hexporter, hfresh, hany]
      exact {
        flag := rfl
        wiring := rfl
        spans := id
        producer := fun _ => rfl
        reader := by
          intro hnone
          rw [hcome] at hnone
          cases hnone
        logPipeline := id
        logs := fun _ l hl => ⟨l, hl, id⟩
        exporter := id }

theorem Logs.grown {k : Nat} {c : Call} {half flag : Bool} {name version : Bytes}
    (L : Logs s half s') (hc : s.calls[k]? = some c)
    (hrequest : c.request = .getLogger name version) (hpc : c.pc = .building flag) :
    Grown s s' := by
  have hcome : s.logPipeline = none → s.logsToCome = true := by
    intro hnone
    have hany : s.calls.any asksLogger = true := by
      rw [List.any_eq_true]
      refine ⟨c, List.mem_of_getElem? hc, ?_⟩
      simp [asksLogger, hrequest, hpc]
    simp [SdkProvider.logsToCome, hnone, hany]
  cases L with
  | kept => exact Grown.of_same rfl rfl rfl rfl id rfl rfl
  | built hnone | stored hnone =>
      exact {
        flag := rfl
        wiring := rfl
        spans := id
        producer := id
        reader := fun _ r hr => ⟨r, hr, id⟩
        logPipeline := by
          intro h
          cases h
        logs := by
          intro hfalse
          rw [hcome hnone] at hfalse
          cases hfalse
        exporter := id }

theorem shutDown_shutdown (e : Exporter ρ) : e.shutDown.shutdown = true := by
  unfold Exporter.shutDown
  split
  · next h => exact h
  · exact (Exporter.forceFlush_stays _).shutdown

theorem Winds.grown {pc : ShutdownPc} {pc' : Pc} (W : Winds s pc s' pc') : Grown s s' := by
  cases W with
  | passed h => exact Grown.of_same rfl rfl rfl rfl id rfl rfl
  | spansStopped h =>
      have hsame : Grown s s := Grown.of_same rfl rfl rfl rfl id rfl rfl
      exact { hsame with spans := fun _ => rfl }
  | spansAbandoned => exact Grown.of_same rfl rfl rfl rfl id rfl rfl
  | readerStopped h hopen => exact Grown.withReader h fun _ => rfl
  | logsStopped h hopen => exact Grown.withLogs h fun _ => rfl
  | logsAbandoned h => exact Grown.withLogs h id
  | exporterStopped h =>
      have hsame : Grown s s := Grown.of_same rfl rfl rfl rfl id rfl rfl
      exact { hsame with exporter := fun _ => shutDown_shutdown s.trace.exporter }
  | closed => exact Grown.of_same rfl rfl rfl rfl id rfl rfl

theorem Moves.grown {k : Nat} {half : Bool} {c : Call} {pc' : Pc}
    (M : Moves s k half c.request c.pc s' pc') (hc : s.calls[k]? = some c) : Grown s s' := by
  obtain ⟨request, pc⟩ := c
  cases M with
  | meter M => exact M.grown hc rfl rfl
  | logger L => exact L.grown hc rfl rfl
  | spansRetuned => exact Grown.of_same rfl rfl rfl rfl id rfl rfl
  | logsSeeded h => exact Grown.of_same rfl rfl rfl rfl id rfl rfl
  | seedLeft h => exact Grown.of_same rfl rfl rfl rfl id rfl rfl
  | logsRetuned =>
      refine Grown.of_components rfl rfl rfl rfl ?_ ?_ ?_
      · intro r hr
        exact ⟨r, hr, id⟩
      · intro hnone
        exact Option.map_eq_none_iff.mp hnone
      · intro l' hl'
        obtain ⟨l, hl, rfl⟩ := Option.map_eq_some_iff.mp hl'
        exact ⟨l, hl, id⟩
  | intervalSeeded h => exact Grown.of_same rfl rfl rfl rfl id rfl rfl
  | intervalLeft h => exact Grown.of_same rfl rfl rfl rfl id rfl rfl
  | readerRetuned =>
      refine Grown.of_components rfl rfl rfl rfl ?_ ?_ ?_
      · intro r' hr'
        obtain ⟨r, hr, rfl⟩ := Option.map_eq_some_iff.mp hr'
        exact ⟨r, hr, id⟩
      · exact id
      · intro l hl
        exact ⟨l, hl, id⟩
  | wound W => exact W.grown

theorem any_set_le {p : Call → Bool} {calls : List Call} {k : Nat} {c : Call}
    (hc : p c = false) (h : calls.any p = false) : (calls.set k c).any p = false := by
  rw [List.any_eq_false] at h ⊢
  intro c' hc'
  rcases List.mem_or_eq_of_mem_set hc' with hmem | rfl
  · exact h c' hmem
  · simp [hc]

theorem Moves.keeps {k : Nat} {half : Bool} {c : Call} {next : SdkProvider ρ} {pc' : Pc}
    (M : Moves s k half c.request c.pc next pc') (hc : s.calls[k]? = some c)
    (hflag : s.shutDown = true) :
    Keeps s { next with calls := s.calls.set k { c with pc := pc' } } := by
  have G := M.grown hc
  have hmeter : asksMeter { c with pc := pc' } = false := by
    unfold asksMeter
    split
    · next hpc => exact absurd hpc (M.not_building false)
    · rfl
  have hlogger : asksLogger { c with pc := pc' } = false := by
    unfold asksLogger
    split
    · next flag _ hpc => exact absurd hpc (M.not_building flag)
    · rfl
  exact {
    flag := G.flag.trans hflag
    spans := G.spans
    readerToCome := by
      intro h
      simp only [SdkProvider.readerToCome, G.wiring, Bool.and_eq_false_iff,
        Bool.not_eq_false'] at h ⊢
      rcases h with (hexporter | hproducer) | hnone
      · exact .inl (.inl hexporter)
      · exact .inl (.inr (G.producer hproducer))
      · exact .inr (any_set_le hmeter hnone)
    reader := G.reader
    logsToCome := by
      intro h
      simp only [SdkProvider.logsToCome, Bool.and_eq_false_iff, Option.isNone_eq_false_iff] at h ⊢
      rcases h with hsome | hnone
      · left
        rw [Option.isSome_iff_ne_none] at hsome ⊢
        exact fun hnone => hsome (G.logPipeline hnone)
      · exact .inr (any_set_le hlogger hnone)
    logs := G.logs
    exporter := G.exporter }

theorem step_keeps [DecidableEq ρ] {a : ProviderAction ρ} (h : s.step a = some s')
    (hflag : s.shutDown = true) : Keeps s s' := by
  cases step_spec h with
  | entered => exact call_keeps hflag _
  | moved _ hc M => exact M.keeps hc hflag
  | traced hown htrace =>
      have S := traceOwn_stays hown htrace
      exact Keeps.of_same hflag (fun h => S.processor.shutdown.trans h)
        (fun h => S.exporterShutdown.trans h) rfl rfl rfl rfl rfl
  | @readerExited r hr htold =>
      have G : Grown s { s with metricReader := some { r with running := false } } :=
        Grown.withReader hr id
      exact ⟨hflag, id, id, G.reader, id, fun _ l hl => ⟨l, hl, id⟩, id⟩
  | @logsExited l hl htold =>
      have G : Grown s { s with logPipeline := some { l with running := false } } :=
        Grown.withLogs hl id
      refine ⟨hflag, id, id, fun _ r hr => ⟨r, hr, id⟩, ?_, G.logs, id⟩
      intro _
      simp [SdkProvider.logsToCome]

/-! ### A `Shutdown` moves on -/

theorem reached_upTo {m n : Nat} (hold : ∀ i ≤ m, s.Reached i)
    (hnew : ∀ i, m < i → i ≤ n → s.Reached i) : ∀ i ≤ n, s.Reached i := by
  intro i hi
  by_cases him : i ≤ m
  · exact hold i him
  · exact hnew i (by omega) hi

/-- What a `Shutdown` finds is as it has to be where it goes on. -/
theorem Passes.reached {pc pc' : ShutdownPc} {calls : List Call} (P : Passes s pc pc')
    (K : Keeps s { s with calls := calls }) (hreader : pc = .findReader → s.readerToCome = false)
    (hlogs : pc = .findLogs → s.logsToCome = false) :
    ∀ i, shutdownRank pc < i → i ≤ shutdownRank pc' →
      ({ s with calls := calls } : SdkProvider ρ).Reached i := by
  intro i hlo hhi
  cases P <;> simp only [shutdownRank] at hlo hhi
  case spansAlready h =>
    obtain rfl | rfl : i = 1 ∨ i = 2 := by omega
    · exact h
    · trivial
  case spansJoined h =>
    obtain rfl : i = 2 := by omega
    trivial
  case readerFound h =>
    obtain rfl : i = 3 := by omega
    exact K.readerToCome (hreader rfl)
  case readerMissing h hpc =>
    have hle : i ≤ 6 := by
      rcases hpc with rfl | rfl
      · exact Nat.le_succ_of_le hhi
      · exact hhi
    obtain rfl | rfl | rfl | rfl : i = 3 ∨ i = 4 ∨ i = 5 ∨ i = 6 := by omega
    · exact K.readerToCome (hreader rfl)
    · intro r hr
      rw [h] at hr
      cases hr
    · trivial
    · trivial
  case readerAlready r h htold =>
    obtain rfl | rfl | rfl : i = 4 ∨ i = 5 ∨ i = 6 := by omega
    · intro r' hr'
      rw [h] at hr'
      cases hr'
      exact htold
    · trivial
    · trivial
  case readerJoined h hexited =>
    obtain rfl : i = 5 := by omega
    trivial
  case metricExporterStopped =>
    obtain rfl : i = 6 := by omega
    trivial
  case logsFound h =>
    obtain rfl : i = 7 := by omega
    exact K.logsToCome (hlogs rfl)
  case logsMissing h =>
    obtain rfl | rfl | rfl : i = 7 ∨ i = 8 ∨ i = 9 := by omega
    · exact K.logsToCome (hlogs rfl)
    · intro l hl
      rw [h] at hl
      cases hl
    · trivial
  case logsAlready l h htold =>
    obtain rfl | rfl : i = 8 ∨ i = 9 := by omega
    · intro l' hl'
      rw [h] at hl'
      cases hl'
      exact htold
    · trivial
  case logsJoined h hexited =>
    obtain rfl : i = 9 := by omega
    trivial
  case logExporterStopped =>
    obtain rfl : i = 10 := by omega
    trivial
  case exporterAlready h =>
    obtain rfl | rfl | rfl : i = 11 ∨ i = 12 ∨ i = 13 := by omega
    · exact h
    · trivial
    · trivial
  case exporterAnswered =>
    obtain rfl : i = 12 := by omega
    trivial
  case exporterJoined h =>
    obtain rfl : i = 13 := by omega
    trivial

theorem Winds.reached {pc : ShutdownPc} {next : SdkProvider ρ} {pc' : Pc} {calls : List Call}
    (W : Winds s pc next pc') (hold : ∀ i ≤ shutdownRank pc, s.Reached i)
    (K : Keeps s { next with calls := calls }) (hreader : pc = .findReader → s.readerToCome = false)
    (hlogs : pc = .findLogs → s.logsToCome = false) :
    ∀ i, shutdownRank pc < i → i ≤ rank pc' →
      ({ next with calls := calls } : SdkProvider ρ).Reached i := by
  intro i hlo hhi
  cases W <;> simp only [shutdownRank, rank] at hlo hhi
  case passed P => exact P.reached K hreader hlogs i hlo hhi
  case spansStopped h =>
    obtain rfl : i = 1 := by omega
    rfl
  case spansAbandoned =>
    obtain rfl : i = 2 := by omega
    trivial
  case readerStopped r h hopen =>
    obtain rfl : i = 4 := by omega
    intro r' hr'
    cases hr'
    rfl
  case logsStopped l h hopen =>
    obtain rfl : i = 8 := by omega
    intro l' hl'
    cases hl'
    rfl
  case logsAbandoned l h =>
    obtain rfl : i = 9 := by omega
    trivial
  case exporterStopped h =>
    obtain rfl : i = 11 := by omega
    exact shutDown_shutdown s.trace.exporter
  case closed =>
    obtain rfl : i = 14 := by omega
    trivial

/-- A call on the provider that is new or has moved. -/
theorem CallOk.moved {k : Nat} {half : Bool} {c : Call} {next : SdkProvider ρ} {pc' : Pc}
    (h : s.CallOk c) (M : Moves s k half c.request c.pc next pc') (hc : s.calls[k]? = some c)
    (hreader : ∀ status, c.pc = .shuttingDown .findReader status → s.readerToCome = false)
    (hlogs : ∀ status, c.pc = .shuttingDown .findLogs status → s.logsToCome = false) :
    ({ next with calls := s.calls.set k { c with pc := pc' } } : SdkProvider ρ).CallOk
      { c with pc := pc' } := by
  intro hrequest
  have hold := h hrequest
  have K := M.keeps hc (hold 0 (Nat.zero_le _))
  obtain ⟨request, pc⟩ := c
  cases hrequest
  cases M with
  | @wound pc status _ _ W =>
      have hkept := h.keep K rfl
      apply reached_upTo hkept
      apply W.reached hold K
      · rintro rfl
        exact hreader status rfl
      · rintro rfl
        exact hlogs status rfl

theorem CallOk.entered (s : SdkProvider ρ) (request : Request) :
    (s.call request).CallOk ⟨request, (s.enter request).2⟩ := by
  rintro rfl i hi
  obtain rfl : i = 0 := Nat.le_zero.mp hi
  rfl

/-- In every state, every `Shutdown` has done what comes before where it is. -/
def CallsOk (s : SdkProvider ρ) : Prop := ∀ c ∈ s.calls, s.CallOk c

theorem CallsOk.keep (h : s.CallsOk) (K : s.shutDown = true → Keeps s s') {c : Call}
    (hc : c ∈ s.calls) : s'.CallOk c := by
  intro hrequest
  exact (h c hc).keep (K (h c hc hrequest 0 (Nat.zero_le _))) hrequest

theorem CallsOk.step [DecidableEq ρ] {a : ProviderAction ρ} (h : s.CallsOk)
    (hok : s.noneToCome a = true) (hstep : s.step a = some s') : s'.CallsOk := by
  have K := step_keeps hstep
  cases step_spec hstep with
  | @entered request =>
      intro c hc
      have hcalls : (s.call request).calls = s.calls ++ [⟨request, (s.enter request).2⟩] := by
        cases request <;> rfl
      rw [hcalls] at hc
      rcases List.mem_append.mp hc with hc | hc
      · exact h.keep K hc
      · rw [List.mem_singleton.mp hc]
        exact CallOk.entered s request
  | @moved _ k half c next pc' ha hc M =>
      intro c' hc'
      rcases List.mem_or_eq_of_mem_set hc' with hmem | rfl
      · exact h.keep K hmem
      · apply (h c (List.mem_of_getElem? hc)).moved M hc
        · intro status hpc
          rcases ha with ⟨⟨answer, rfl⟩, -⟩ | ⟨point, flag, -, hbuilding, -⟩
          · simpa [noneToCome, hc, hpc] using hok
          · rw [hpc] at hbuilding
            cases hbuilding
        · intro status hpc
          rcases ha with ⟨⟨answer, rfl⟩, -⟩ | ⟨point, flag, -, hbuilding, -⟩
          · simpa [noneToCome, hc, hpc] using hok
          · rw [hpc] at hbuilding
            cases hbuilding
  | traced hown htrace =>
      intro c hc
      exact h.keep K hc
  | readerExited hr htold =>
      intro c hc
      exact h.keep K hc
  | logsExited hl htold =>
      intro c hc
      exact h.keep K hc

end Microtel.Sdk.SdkProvider
