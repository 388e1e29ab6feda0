import Microtel.Pipeline.Frames
import Microtel.Sdk.SdkProvider

/-!
What each step of the provider can do, with the guards it took: the steps of one
call, and from these the steps of the whole.
-/

namespace Microtel.Sdk.SdkProvider

open Pipeline

variable {ρ : Type} {s s' : SdkProvider ρ}

/-! ### `Shutdown` -/

/-- A step of `Shutdown` that leaves the provider as it is, from one place to
another, with what it found. -/
inductive Passes (s : SdkProvider ρ) : ShutdownPc → ShutdownPc → Prop
  | spansAlready (h : s.trace.processor.shutdown = true) : Passes s .stopSpans .findReader
  | spansJoined (h : s.spansExited = true) : Passes s .joinSpans .findReader
  | readerFound {r : Component Int} (h : s.metricReader = some r) : Passes s .findReader .stopReader
  | readerMissing {pc : ShutdownPc} (h : s.metricReader = none)
      (hpc : pc = .stopMetricExporter ∨ pc = .findLogs) : Passes s .findReader pc
  | readerAlready {r : Component Int} (h : s.metricReader = some r) (htold : r.shutdown = true) :
      Passes s .stopReader .findLogs
  | readerJoined {r : Component Int} (h : s.metricReader = some r) (hexited : r.running = false) :
      Passes s .joinReader .stopMetricExporter
  | metricExporterStopped : Passes s .stopMetricExporter .findLogs
  | logsFound {l : Component BatchOptions} (h : s.logPipeline = some l) :
      Passes s .findLogs .stopLogs
  | logsMissing (h : s.logPipeline = none) : Passes s .findLogs .stopLogExporter
  | logsAlready {l : Component BatchOptions} (h : s.logPipeline = some l)
      (htold : l.shutdown = true) :
      Passes s .stopLogs .stopLogExporter
  | logsJoined {l : Component BatchOptions} (h : s.logPipeline = some l)
      (hexited : l.running = false) :
      Passes s .joinLogs .stopLogExporter
  | logExporterStopped : Passes s .stopLogExporter .stopExporter
  | exporterAlready (h : s.trace.exporter.shutdown = true) : Passes s .stopExporter .close
  | exporterAnswered {waiter : Nat} {answered : Status} :
      Passes s (.awaitExporter waiter) (.joinExporter answered)
  | exporterJoined {answered : Status} (h : s.exporterExited = true) :
      Passes s (.joinExporter answered) .close

/-- A step of `Shutdown`. -/
inductive Winds (s : SdkProvider ρ) : ShutdownPc → SdkProvider ρ → Pc → Prop
  | passed {pc pc' : ShutdownPc} {status' : Status} (h : Passes s pc pc') :
      Winds s pc s (.shuttingDown pc' status')
  | spansStopped {status' : Status} (h : s.trace.processor.shutdown = false) :
      Winds s .stopSpans s.stopSpans (.shuttingDown .joinSpans status')
  | spansAbandoned {status' : Status} :
      Winds s .joinSpans { s with spansAbandoned := true } (.shuttingDown .findReader status')
  | readerStopped {r : Component Int} {status' : Status} (h : s.metricReader = some r)
      (hopen : r.shutdown = false) :
      Winds s .stopReader { s with metricReader := some { r with shutdown := true } }
        (.shuttingDown .joinReader status')
  | logsStopped {l : Component BatchOptions} {status' : Status} (h : s.logPipeline = some l)
      (hopen : l.shutdown = false) :
      Winds s .stopLogs { s with logPipeline := some { l with shutdown := true } }
        (.shuttingDown .joinLogs status')
  | logsAbandoned {l : Component BatchOptions} {status' : Status} (h : s.logPipeline = some l) :
      Winds s .joinLogs { s with logPipeline := some { l with abandoned := true } }
        (.shuttingDown .stopLogExporter status')
  | exporterStopped {status' : Status} (h : s.trace.exporter.shutdown = false) :
      Winds s .stopExporter s.stopExporter
        (.shuttingDown (.awaitExporter s.trace.exporter.waiters.length) status')
  | closed {n : Nat} {status' : Status} :
      Winds s .close { s with shutdownTimeouts := n } (.returned (.status status'))

theorem shutdownNext_spec {status answer : Status} {pc : ShutdownPc} {pc' : Pc}
    (h : s.shutdownNext status answer pc = some (s', pc')) : Winds s pc s' pc' := by
  cases pc with
  | stopSpans =>
      simp only [shutdownNext] at h
      split at h
      · next htold =>
        cases h
        exact .passed (.spansAlready htold)
      · next hopen =>
        cases h
        exact .spansStopped (by simpa using hopen)
  | joinSpans =>
      simp only [shutdownNext] at h
      split at h
      · cases h
        exact .spansAbandoned
      · split at h
        · next hexited =>
          cases h
          exact .passed (.spansJoined hexited)
        · cases h
  | findReader =>
      simp only [shutdownNext] at h
      split at h
      · next r hr =>
        cases h
        exact .passed (.readerFound hr)
      · next hr =>
        cases h
        apply Winds.passed
        apply Passes.readerMissing hr
        split
        · exact .inl rfl
        · exact .inr rfl
  | stopReader =>
      simp only [shutdownNext] at h
      split at h
      · next r hr =>
        split at h
        · next htold =>
          cases h
          exact .passed (.readerAlready hr htold)
        · next hopen =>
          cases h
          exact .readerStopped hr (by simpa using hopen)
      · cases h
  | joinReader =>
      simp only [shutdownNext] at h
      split at h
      · next r hr =>
        split at h
        · cases h
        · next hexited =>
          cases h
          exact .passed (.readerJoined hr (by simpa using hexited))
      · cases h
  | stopMetricExporter =>
      cases h
      exact .passed .metricExporterStopped
  | findLogs =>
      simp only [shutdownNext] at h
      split at h
      · next l hl =>
        cases h
        exact .passed (.logsFound hl)
      · next hl =>
        cases h
        exact .passed (.logsMissing hl)
  | stopLogs =>
      simp only [shutdownNext] at h
      split at h
      · next l hl =>
        split at h
        · next htold =>
          cases h
          exact .passed (.logsAlready hl htold)
        · next hopen =>
          cases h
          exact .logsStopped hl (by simpa using hopen)
      · cases h
  | joinLogs =>
      simp only [shutdownNext] at h
      split at h
      · next l hl =>
        split at h
        · cases h
          exact .logsAbandoned hl
        · split at h
          · cases h
          · next hexited =>
            cases h
            exact .passed (.logsJoined hl (by simpa using hexited))
      · cases h
  | stopLogExporter =>
      cases h
      exact .passed .logExporterStopped
  | stopExporter =>
      simp only [shutdownNext] at h
      split at h
      · next htold =>
        cases h
        exact .passed (.exporterAlready htold)
      · next hopen =>
        cases h
        exact .exporterStopped (by simpa using hopen)
  | awaitExporter waiter =>
      simp only [shutdownNext] at h
      split at h
      · cases h
        exact .passed .exporterAnswered
      · cases h
  | joinExporter answered =>
      simp only [shutdownNext] at h
      split at h
      · next hexited =>
        cases h
        exact .passed (.exporterJoined hexited)
      · cases h
  | close =>
      cases h
      exact .closed

/-! ### The other calls -/

/-- The critical section of `GetMeter`, by its end or by an exception, for a call
that read the flag as `flag`. -/
inductive Meters (s : SdkProvider ρ) (flag : Bool) : SdkProvider ρ → Prop
  | kept {keys : List Bytes} : Meters s flag { s with meters := keys }
  | produced {keys : List Bytes} : Meters s flag { s with metricProducer := true, meters := keys }
  | built {keys : List Bytes} (hfresh : s.metricProducer = false)
      (hexporter : s.wiring.metricExporter = true) (hflag : flag = false) :
      Meters s flag { s with
        metricProducer := true
        metricReader := some { setting := s.metricInterval }
        meters := keys }

/-- The critical section of `GetLogger`; `half` says that an exception came after
the pipeline was stored and before the processor was published. -/
inductive Logs (s : SdkProvider ρ) : Bool → SdkProvider ρ → Prop
  | kept {keys : List Bytes} : Logs s false { s with loggers := keys }
  | built {keys : List Bytes} (h : s.logPipeline = none) :
      Logs s false { s with
        logPipeline := some { setting := s.logBatchOpts }
        logBatchProcessor := true
        loggers := keys }
  | stored {keys : List Bytes} (h : s.logPipeline = none) :
      Logs s true { s with logPipeline := some { setting := s.logBatchOpts }, loggers := keys }

theorem buildReader_spec (s : SdkProvider ρ) (flag : Bool) (keys : List Bytes) :
    Meters s flag { s.buildReader flag with meters := keys } := by
  unfold buildReader
  split
  · exact .kept
  · next hfresh =>
    split
    · next hbuilds =>
      exact .built (by simpa using hfresh) hbuilds.1 hbuilds.2
    · exact .produced

theorem getMeterThrew_spec (s : SdkProvider ρ) (flag : Bool) (point : ThrowPoint) :
    Meters s flag (s.getMeterThrew flag point) := by
  cases point with
  | first => exact .kept
  | second => exact .produced
  | third => exact s.buildReader_spec flag (s.buildReader flag).meters

theorem buildLogs_spec (s : SdkProvider ρ) (keys : List Bytes) :
    Logs s false { s.buildLogs with loggers := keys } := by
  unfold buildLogs
  split
  · exact .kept
  · next hnone => exact .built hnone

theorem getLoggerThrew_spec (s : SdkProvider ρ) (point : ThrowPoint) :
    ∃ half, Logs s half (s.getLoggerThrew point) ∧ (half = true → point = .second) := by
  cases point with
  | first => exact ⟨false, .kept, by simp⟩
  | second =>
      unfold getLoggerThrew
      dsimp only
      split
      · exact ⟨false, .kept, by simp⟩
      · next hnone => exact ⟨true, .stored hnone, by simp⟩
  | third => exact ⟨false, s.buildLogs_spec s.buildLogs.loggers, by simp⟩

/-- A step of call `k`. -/
inductive Moves (s : SdkProvider ρ) (k : Nat) : Bool → Request → Pc → SdkProvider ρ → Pc → Prop
  | meter {name version : Bytes} {flag : Bool} {next : SdkProvider ρ} {answer : Answer}
      (M : Meters s flag next) :
      Moves s k false (.getMeter name version) (.building flag) next (.returned answer)
  | logger {name version : Bytes} {flag half : Bool} {next : SdkProvider ρ} {answer : Answer}
      (L : Logs s half next) :
      Moves s k half (.getLogger name version) (.building flag) next (.returned answer)
  | spansRetuned {opts : BatchOptions} :
      Moves s k false (.setBatchOptions opts) .retuneSpans (s.retuneSpans k opts) .seedLogs
  | logsSeeded {opts : BatchOptions} (h : s.logBatchProcessor = true) :
      Moves s k false (.setBatchOptions opts) .seedLogs (s.seedLogs k opts) .retuneLogs
  | seedLeft {opts : BatchOptions} (h : s.logBatchProcessor = false) :
      Moves s k false (.setBatchOptions opts) .seedLogs (s.seedLogs k opts)
        (.returned (.status .completed))
  | logsRetuned {opts : BatchOptions} :
      Moves s k false (.setBatchOptions opts) .retuneLogs (s.retuneLogs k opts)
        (.returned (.status .completed))
  | intervalSeeded {interval : Int} {r : Component Int} (h : s.metricReader = some r) :
      Moves s k false (.setMetricInterval interval) .seedInterval (s.seedInterval k interval)
        .retuneReader
  | intervalLeft {interval : Int} (h : s.metricReader = none) :
      Moves s k false (.setMetricInterval interval) .seedInterval (s.seedInterval k interval)
        (.returned (.status .completed))
  | readerRetuned {interval : Int} :
      Moves s k false (.setMetricInterval interval) .retuneReader (s.retuneReader k interval)
        (.returned (.status .completed))
  | wound {pc : ShutdownPc} {status : Status} {next : SdkProvider ρ} {pc' : Pc}
      (W : Winds s pc next pc') : Moves s k false .shutdown (.shuttingDown pc status) next pc'

theorem advance_spec {k : Nat} {answer : Status} {request : Request} {pc pc' : Pc}
    (h : s.advance k answer request pc = some (s', pc')) : Moves s k false request pc s' pc' := by
  unfold advance at h
  split at h
  · cases h
    exact .meter (s.buildReader_spec _ _)
  · cases h
    exact .logger (s.buildLogs_spec _)
  · cases h
    exact .spansRetuned
  · cases h
    cases hpublished : s.logBatchProcessor with
    | true => exact .logsSeeded hpublished
    | false => exact .seedLeft hpublished
  · cases h
    exact .logsRetuned
  · cases h
    cases hreader : s.metricReader with
    | some r => exact .intervalSeeded hreader
    | none => exact .intervalLeft hreader
  · cases h
    exact .readerRetuned
  · exact .wound (shutdownNext_spec h)
  · cases h

theorem threw_spec {k : Nat} {point : ThrowPoint} {request : Request} {pc pc' : Pc}
    (h : s.threw point request pc = some (s', pc')) :
    ∃ half flag, Moves s k half request pc s' pc' ∧ pc = .building flag ∧
      (half = true → point = .second) := by
  unfold threw at h
  split at h
  · cases h
    exact ⟨false, _, .meter (s.getMeterThrew_spec _ point), rfl, by simp⟩
  · cases h
    obtain ⟨half, L, hpoint⟩ := s.getLoggerThrew_spec point
    exact ⟨half, _, .logger L, rfl, hpoint⟩
  · cases h

/-! ### Frames of a call -/

theorem Winds.calls {pc : ShutdownPc} {pc' : Pc} (W : Winds s pc s' pc') : s'.calls = s.calls := by
  cases W <;> rfl

theorem Moves.calls {k : Nat} {half : Bool} {request : Request} {pc pc' : Pc}
    (M : Moves s k half request pc s' pc') : s'.calls = s.calls := by
  cases M with
  | meter M => cases M <;> rfl
  | logger L => cases L <;> rfl
  | wound W => exact W.calls
  | _ => rfl

/-! ### Steps of the whole -/

/-- A step, by its action. -/
inductive Stepped [DecidableEq ρ] (s : SdkProvider ρ) : ProviderAction ρ → SdkProvider ρ → Prop
  | entered {request : Request} : Stepped s (.call request) (s.call request)
  | moved {a : ProviderAction ρ} {k : Nat} {half : Bool} {c : Call}
      {next : SdkProvider ρ} {pc' : Pc} (ha : (∃ answer, a = .next k answer) ∧ half = false ∨
        ∃ point flag, a = .throws k point ∧ c.pc = .building flag ∧ (half = true → point = .second))
      (hc : s.calls[k]? = some c) (M : Moves s k half c.request c.pc next pc') :
      Stepped s a { next with calls := s.calls.set k { c with pc := pc' } }
  | traced {a : PipelineAction ρ} {trace : TracePipeline ρ} (hown : traceOwn a = true)
      (h : s.trace.step a = some trace) : Stepped s (.trace a) { s with trace := trace }
  | readerExited {r : Component Int} (h : s.metricReader = some r) (htold : r.shutdown = true) :
      Stepped s .readerExits { s with metricReader := some { r with running := false } }
  | logsExited {l : Component BatchOptions} (h : s.logPipeline = some l)
      (htold : l.shutdown = true) :
      Stepped s .logWorkerExits { s with logPipeline := some { l with running := false } }

theorem traceOwn_stays [DecidableEq ρ] {a : PipelineAction ρ} {t t' : TracePipeline ρ}
    (hown : traceOwn a = true) (h : t.step a = some t') : TracePipeline.Stays t t' := by
  apply TracePipeline.step_stays h
  · rintro rfl
    cases hown
  · rintro opts rfl
    cases hown
  · rintro rfl
    cases hown

theorem moveCall_spec {k : Nat} {move : Request → Pc → Option (SdkProvider ρ × Pc)}
    (h : s.moveCall k move = some s') :
    ∃ c next pc', s.calls[k]? = some c ∧ move c.request c.pc = some (next, pc') ∧
      s' = { next with calls := next.calls.set k { c with pc := pc' } } := by
  unfold moveCall at h
  split at h
  · cases h
  · next c hc =>
    obtain ⟨⟨next, pc'⟩, hmove, rfl⟩ := Option.map_eq_some_iff.mp h
    exact ⟨c, next, pc', hc, hmove, rfl⟩

theorem step_spec [DecidableEq ρ] {a : ProviderAction ρ} (h : s.step a = some s') :
    Stepped s a s' := by
  cases a with
  | call request =>
      cases h
      exact .entered
  | next k answer =>
      obtain ⟨c, next, pc', hc, hmove, rfl⟩ := moveCall_spec h
      have M := advance_spec hmove
      rw [M.calls]
      exact .moved (.inl ⟨⟨answer, rfl⟩, rfl⟩) hc M
  | throws k point =>
      obtain ⟨c, next, pc', hc, hmove, rfl⟩ := moveCall_spec h
      obtain ⟨half, flag, M, hpc, hpoint⟩ := threw_spec (k := k) hmove
      rw [M.calls]
      exact .moved (.inr ⟨point, flag, rfl, hpc, hpoint⟩) hc M
  | trace a =>
      simp only [step] at h
      split at h
      · next hown =>
        obtain ⟨trace, htrace, rfl⟩ := Option.map_eq_some_iff.mp h
        exact .traced hown htrace
      · cases h
  | readerExits =>
      simp only [step, readerExits] at h
      split at h
      · next r hr =>
        split at h
        · next htold =>
          cases h
          exact .readerExited hr htold
        · cases h
      · cases h
  | logWorkerExits =>
      simp only [step, logWorkerExits] at h
      split at h
      · next l hl =>
        split at h
        · next htold =>
          cases h
          exact .logsExited hl htold
        · cases h
      · cases h

end Microtel.Sdk.SdkProvider
