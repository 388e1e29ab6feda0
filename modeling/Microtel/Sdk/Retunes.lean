import Microtel.Sdk.SdkProviderSteps

/-!
`SetBatchOptions` and `SetMetricInterval` with themselves and with the getters. A
setter updates a seed under the provider's lock and a live component under the
component's own, so two setters may be applied in one order to the one and in the
other order to the other.
-/

namespace Microtel.Sdk.SdkProvider

open Machine Pipeline

variable {ρ : Type} {s s' : SdkProvider ρ} {batch : BatchOptions}

/-- Every setter makes its next update before the setters that came to it later, and
no exception leaves a log pipeline that is not published. -/
def inOrder (s : SdkProvider ρ) : ProviderAction ρ → Bool
  | .next k _ =>
      match (s.calls[k]?).map Call.pc with
      | some .seedLogs => s.overlap.seeding.head? = some k
      | some .retuneLogs => s.overlap.retuning.head? = some k
      | some .retuneReader => s.overlap.rereading.head? = some k
      | _ => true
  | .throws k .second =>
      match (s.calls[k]?).map Call.request with
      | some (.getLogger _ _) => s.logPipeline.isSome
      | _ => true
  | _ => true

/-! ### Between two updates -/

def Seeding (c : Call) : Prop := ∃ opts, c = ⟨.setBatchOptions opts, .seedLogs⟩

def Retuning (c : Call) : Prop := ∃ opts, c = ⟨.setBatchOptions opts, .retuneLogs⟩

def Rereading (c : Call) : Prop := ∃ interval, c = ⟨.setMetricInterval interval, .retuneReader⟩

/-- Not between two updates. -/
def Outside (c : Call) : Prop := ¬ Seeding c ∧ ¬ Retuning c ∧ ¬ Rereading c

theorem outside_of_pc {c : Call} (hseed : c.pc ≠ .seedLogs) (hretune : c.pc ≠ .retuneLogs)
    (hreread : c.pc ≠ .retuneReader) : Outside c := by
  refine ⟨?_, ?_, ?_⟩
  · rintro ⟨opts, rfl⟩
    exact hseed rfl
  · rintro ⟨opts, rfl⟩
    exact hretune rfl
  · rintro ⟨interval, rfl⟩
    exact hreread rfl

/-- Past the first update of a `SetBatchOptions`. -/
def Tuned (pc : Pc) : Prop :=
  pc = .seedLogs ∨ pc = .retuneLogs ∨ pc = .returned (.status .completed)

/-- The options are those of a `SetBatchOptions` past its first update, or there is
none and they are the first. -/
def Asked (batch opts : BatchOptions) (calls : List Call) : Prop :=
  (opts = batch ∧ ∀ c ∈ calls, ∀ o, c.request = .setBatchOptions o → ¬ Tuned c.pc) ∨
    ∃ c ∈ calls, c.request = .setBatchOptions opts ∧ Tuned c.pc

section Asked

variable {opts : BatchOptions} {calls : List Call} {k : Nat} {c : Call} {pc' : Pc}

theorem Asked.moved (h : Asked batch opts calls) (hc : calls[k]? = some c)
    (htuned : ∀ o, c.request = .setBatchOptions o → (Tuned c.pc ↔ Tuned pc')) :
    Asked batch opts (calls.set k { c with pc := pc' }) := by
  rcases h with ⟨hfirst, hnone⟩ | ⟨d, hd, hrequest, hpast⟩
  · refine .inl ⟨hfirst, ?_⟩
    intro d hd o hrequest
    rcases List.mem_or_eq_of_mem_set hd with hmem | rfl
    · exact hnone d hmem o hrequest
    · intro hpast
      exact hnone c (List.mem_of_getElem? hc) o hrequest ((htuned o hrequest).mpr hpast)
  · right
    obtain ⟨j, hj⟩ := List.mem_iff_getElem?.mp hd
    by_cases hjk : j = k
    · subst hjk
      rw [hj] at hc
      cases hc
      exact ⟨_, List.mem_of_getElem? (Threads.set_self hj), hrequest, (htuned _ hrequest).mp hpast⟩
    · refine ⟨d, List.mem_of_getElem? (i := j) ?_, hrequest, hpast⟩
      rw [Threads.set_other hjk]
      exact hj

theorem Asked.push (h : Asked batch opts calls)
    (hnew : ∀ o, c.request = .setBatchOptions o → ¬ Tuned c.pc) :
    Asked batch opts (calls ++ [c]) := by
  rcases h with ⟨hfirst, hnone⟩ | ⟨d, hd, hasked⟩
  · refine .inl ⟨hfirst, ?_⟩
    intro d hd
    rcases List.mem_append.mp hd with hd | hd
    · exact hnone d hd
    · rw [List.mem_singleton.mp hd]
      exact hnew
  · exact .inr ⟨d, List.mem_append_left _ hd, hasked⟩

end Asked

/-! ### The invariant -/

structure Converging (batch : BatchOptions) (s : SdkProvider ρ) : Prop where
  seeding : Threads.Queued s.calls Seeding s.overlap.seeding
    ⟨.setBatchOptions s.trace.processor.opts, .seedLogs⟩
  seeded : s.overlap.seeding = [] → s.logBatchOpts = s.trace.processor.opts
  retuning : Threads.Queued s.calls Retuning s.overlap.retuning
    ⟨.setBatchOptions s.logBatchOpts, .retuneLogs⟩
  retuned : s.overlap.retuning = [] → ∀ l, s.logPipeline = some l → l.setting = s.logBatchOpts
  published : s.logBatchProcessor = s.logPipeline.isSome
  logsLive : s.logPipeline = none → s.overlap.retuning = []
  rereading : Threads.Queued s.calls Rereading s.overlap.rereading
    ⟨.setMetricInterval s.metricInterval, .retuneReader⟩
  reread : s.overlap.rereading = [] → ∀ r, s.metricReader = some r → r.setting = s.metricInterval
  readerLive : s.metricReader = none → s.overlap.rereading = []
  asked : Asked batch s.trace.processor.opts s.calls

/-- A step that makes no update of a setter. -/
theorem Converging.frame (h : s.Converging batch) {calls : List Call}
    (hseeding : Threads.Queued calls Seeding s.overlap.seeding
      ⟨.setBatchOptions s.trace.processor.opts, .seedLogs⟩)
    (hretuning : Threads.Queued calls Retuning s.overlap.retuning
      ⟨.setBatchOptions s.logBatchOpts, .retuneLogs⟩)
    (hrereading : Threads.Queued calls Rereading s.overlap.rereading
      ⟨.setMetricInterval s.metricInterval, .retuneReader⟩)
    (hasked : Asked batch s.trace.processor.opts calls) (hcalls : s'.calls = calls)
    (hoverlap : s'.overlap = s.overlap) (hopts : s'.trace.processor.opts = s.trace.processor.opts)
    (hseed : s'.logBatchOpts = s.logBatchOpts) (hinterval : s'.metricInterval = s.metricInterval)
    (hlogs : ∀ l', s'.logPipeline = some l' → l'.setting = s.logBatchOpts ∨
      ∃ l, s.logPipeline = some l ∧ l'.setting = l.setting)
    (hlogsNone : s'.logPipeline = none → s.logPipeline = none)
    (hpublished : s'.logBatchProcessor = s'.logPipeline.isSome)
    (hreader : ∀ r', s'.metricReader = some r' → r'.setting = s.metricInterval ∨
      ∃ r, s.metricReader = some r ∧ r'.setting = r.setting)
    (hreaderNone : s'.metricReader = none → s.metricReader = none) : s'.Converging batch where
  seeding := by
    rw [hcalls, hoverlap, hopts]
    exact hseeding
  seeded hnil := by
    rw [hoverlap] at hnil
    rw [hseed, hopts]
    exact h.seeded hnil
  retuning := by
    rw [hcalls, hoverlap, hseed]
    exact hretuning
  retuned hnil l' hl' := by
    rw [hoverlap] at hnil
    rw [hseed]
    rcases hlogs l' hl' with hfresh | ⟨l, hl, hsame⟩
    · exact hfresh
    · rw [hsame]
      exact h.retuned hnil l hl
  published := hpublished
  logsLive hnone := by
    rw [hoverlap]
    exact h.logsLive (hlogsNone hnone)
  rereading := by
    rw [hcalls, hoverlap, hinterval]
    exact hrereading
  reread hnil r' hr' := by
    rw [hoverlap] at hnil
    rw [hinterval]
    rcases hreader r' hr' with hfresh | ⟨r, hr, hsame⟩
    · exact hfresh
    · rw [hsame]
      exact h.reread hnil r hr
  readerLive hnone := by
    rw [hoverlap]
    exact h.readerLive (hreaderNone hnone)
  asked := by
    rw [hcalls, hopts]
    exact hasked

/-- The log pipeline as it was. -/
theorem sameLogSetting (l' : Component BatchOptions) (hl' : s.logPipeline = some l') :
    l'.setting = s.logBatchOpts ∨ ∃ l, s.logPipeline = some l ∧ l'.setting = l.setting :=
  .inr ⟨l', hl', rfl⟩

theorem sameInterval (r' : Component Int) (hr' : s.metricReader = some r') :
    r'.setting = s.metricInterval ∨ ∃ r, s.metricReader = some r ∧ r'.setting = r.setting :=
  .inr ⟨r', hr', rfl⟩

/-! ### Steps of calls that are not setters -/

section Other

variable {k : Nat} {c : Call} {pc' : Pc}

theorem Converging.other (h : s.Converging batch) (next : SdkProvider ρ) (pc' : Pc)
    (hc : s.calls[k]? = some c) (hout : Outside c) (hrequest : ∀ o, c.request ≠ .setBatchOptions o)
    (hoverlap : next.overlap = s.overlap)
    (hopts : next.trace.processor.opts = s.trace.processor.opts)
    (hseed : next.logBatchOpts = s.logBatchOpts)
    (hinterval : next.metricInterval = s.metricInterval)
    (hlogs : ∀ l', next.logPipeline = some l' → l'.setting = s.logBatchOpts ∨
      ∃ l, s.logPipeline = some l ∧ l'.setting = l.setting)
    (hlogsNone : next.logPipeline = none → s.logPipeline = none)
    (hpublished : next.logBatchProcessor = next.logPipeline.isSome)
    (hreader : ∀ r', next.metricReader = some r' → r'.setting = s.metricInterval ∨
      ∃ r, s.metricReader = some r ∧ r'.setting = r.setting)
    (hreaderNone : next.metricReader = none → s.metricReader = none) :
    ({ next with calls := s.calls.set k { c with pc := pc' } } : SdkProvider ρ).Converging
      batch := by
  have hasked : Asked batch s.trace.processor.opts (s.calls.set k { c with pc := pc' }) :=
    h.asked.moved hc fun o heq => absurd heq (hrequest o)
  exact h.frame (h.seeding.elsewhere hc hout.1) (h.retuning.elsewhere hc hout.2.1)
    (h.rereading.elsewhere hc hout.2.2) hasked rfl hoverlap hopts hseed hinterval hlogs hlogsNone
    hpublished hreader hreaderNone

theorem Converging.meter {flag : Bool} {next : SdkProvider ρ} (h : s.Converging batch)
    (M : Meters s flag next) (hc : s.calls[k]? = some c) (hout : Outside c)
    (hrequest : ∀ o, c.request ≠ .setBatchOptions o) :
    ({ next with calls := s.calls.set k { c with pc := pc' } } : SdkProvider ρ).Converging
      batch := by
  have frame := h.other next pc' hc hout hrequest
  cases M with
  | kept => exact frame rfl rfl rfl rfl sameLogSetting id h.published sameInterval id
  | produced => exact frame rfl rfl rfl rfl sameLogSetting id h.published sameInterval id
  | built =>
      refine frame rfl rfl rfl rfl sameLogSetting id h.published ?_ ?_
      · intro r' hr'
        cases hr'
        exact .inl rfl
      · intro hnone
        cases hnone

theorem Converging.logger {next : SdkProvider ρ} (h : s.Converging batch)
    (L : Logs s false next) (hc : s.calls[k]? = some c) (hout : Outside c)
    (hrequest : ∀ o, c.request ≠ .setBatchOptions o) :
    ({ next with calls := s.calls.set k { c with pc := pc' } } : SdkProvider ρ).Converging
      batch := by
  have frame := h.other next pc' hc hout hrequest
  cases L with
  | kept => exact frame rfl rfl rfl rfl sameLogSetting id h.published sameInterval id
  | built =>
      refine frame rfl rfl rfl rfl ?_ ?_ rfl sameInterval id
      · intro l' hl'
        cases hl'
        exact .inl rfl
      · intro hnone
        cases hnone

theorem Converging.wind {pc : ShutdownPc} {next : SdkProvider ρ} (h : s.Converging batch)
    (W : Winds s pc next pc') (hc : s.calls[k]? = some c) (hout : Outside c)
    (hrequest : ∀ o, c.request ≠ .setBatchOptions o) :
    ({ next with calls := s.calls.set k { c with pc := pc' } } : SdkProvider ρ).Converging
      batch := by
  have frame := h.other next pc' hc hout hrequest
  cases W with
  | @readerStopped r _ hr hopen =>
      refine frame rfl rfl rfl rfl sameLogSetting id h.published ?_ ?_
      · intro r' hr'
        cases hr'
        exact .inr ⟨r, hr, rfl⟩
      · intro hnone
        cases hnone
  | @logsStopped l _ hl hopen =>
      refine frame rfl rfl rfl rfl ?_ ?_ ?_ sameInterval id
      · intro l' hl'
        cases hl'
        exact .inr ⟨l, hl, rfl⟩
      · intro hnone
        cases hnone
      · rw [h.published, hl]
        rfl
  | @logsAbandoned l _ hl =>
      refine frame rfl rfl rfl rfl ?_ ?_ ?_ sameInterval id
      · intro l' hl'
        cases hl'
        exact .inr ⟨l, hl, rfl⟩
      · intro hnone
        cases hnone
      · rw [h.published, hl]
        rfl
  | _ => exact frame rfl rfl rfl rfl sameLogSetting id h.published sameInterval id

end Other

/-! ### The updates of a setter -/

section Updates

variable {k : Nat} {opts : BatchOptions} {interval : Int}

/-- What is at the head of a queue leaves it by the erasure. -/
theorem erase_head {queue : List Nat} (hhead : queue.head? = some k) :
    ∃ rest, queue = k :: rest ∧ queue.erase k = rest := by
  cases queue with
  | nil => cases hhead
  | cons j rest =>
      cases hhead
      exact ⟨rest, rfl, List.erase_cons_head _ _⟩

theorem Converging.retuneSpans (h : s.Converging batch)
    (hc : s.calls[k]? = some ⟨.setBatchOptions opts, .retuneSpans⟩) :
    ({ s.retuneSpans k opts with
      calls := s.calls.set k ⟨.setBatchOptions opts, .seedLogs⟩ } : SdkProvider ρ).Converging
        batch := by
  obtain ⟨hseed, hretune, hreread⟩ : Outside ⟨.setBatchOptions opts, .retuneSpans⟩ :=
    outside_of_pc (by simp) (by simp) (by simp)
  exact {
    seeding := h.seeding.arrive hc hseed ⟨opts, rfl⟩
    seeded := by
      intro hnil
      exact absurd hnil (by simp [SdkProvider.retuneSpans])
    retuning := h.retuning.elsewhere hc hretune
    retuned := h.retuned
    published := h.published
    logsLive := h.logsLive
    rereading := h.rereading.elsewhere hc hreread
    reread := h.reread
    readerLive := h.readerLive
    asked := .inr ⟨_, List.mem_of_getElem? (Threads.set_self hc), rfl, .inl rfl⟩ }

/-- The seed takes the options of the oldest setter that has not seeded it yet. -/
theorem Converging.seedLogs (h : s.Converging batch) {pc' : Pc}
    (hc : s.calls[k]? = some ⟨.setBatchOptions opts, .seedLogs⟩)
    (hhead : s.overlap.seeding.head? = some k)
    (hpc : s.logBatchProcessor = true ∧ pc' = .retuneLogs ∨
      s.logBatchProcessor = false ∧ pc' = .returned (.status .completed)) :
    ({ s.seedLogs k opts with
      calls := s.calls.set k ⟨.setBatchOptions opts, pc'⟩ } : SdkProvider ρ).Converging batch := by
  obtain ⟨rest, hqueue, herase⟩ := erase_head hhead
  have hseeding := h.seeding
  rw [hqueue] at hseeding
  obtain ⟨hleft, halone⟩ := hseeding.leave (ψ := ⟨.setBatchOptions opts, pc'⟩) hc
  have hretune : ¬ Retuning ⟨.setBatchOptions opts, .seedLogs⟩ := by
    rintro ⟨o, heq⟩
    cases heq
  have hreread : ¬ Rereading ⟨.setBatchOptions opts, .seedLogs⟩ := by
    rintro ⟨o, heq⟩
    cases heq
  have htuned : Tuned .seedLogs ↔ Tuned pc' := by
    apply iff_of_true (.inl rfl)
    rcases hpc with ⟨-, rfl⟩ | ⟨-, rfl⟩
    · exact .inr (.inl rfl)
    · exact .inr (.inr rfl)
  have hunpublished : s.logBatchProcessor = false → s.logPipeline = none := by
    intro hfalse
    rw [h.published] at hfalse
    simpa using hfalse
  refine ⟨?_, ?_, ?_, ?_, h.published, ?_, h.rereading.elsewhere hc hreread, h.reread, h.readerLive,
    h.asked.moved hc fun _ _ => htuned⟩
  · dsimp only [SdkProvider.seedLogs]
    rw [herase]
    exact hleft
  · dsimp only [SdkProvider.seedLogs]
    rw [herase]
    intro hnil
    have hsame := halone hnil
    cases hsame
    rfl
  · dsimp only [SdkProvider.seedLogs]
    rcases hpc with ⟨htrue, rfl⟩ | ⟨hfalse, rfl⟩
    · rw [htrue]
      exact h.retuning.arrive hc hretune ⟨opts, rfl⟩
    · rw [hfalse, h.logsLive (hunpublished hfalse)]
      exact Threads.Queued.nil _ _ _
  · dsimp only [SdkProvider.seedLogs]
    intro hnil l hl
    cases hpublished : s.logBatchProcessor with
    | true =>
        rw [hpublished] at hnil
        exact absurd hnil (by simp)
    | false =>
        rw [hunpublished hpublished] at hl
        cases hl
  · dsimp only [SdkProvider.seedLogs]
    intro hnone
    have hfalse : s.logBatchProcessor = false := by
      rw [h.published, hnone]
      rfl
    rw [hfalse, h.logsLive hnone]
    rfl

/-- The live processor takes the options of the oldest setter that has not retuned it. -/
theorem Converging.retuneLogs (h : s.Converging batch)
    (hc : s.calls[k]? = some ⟨.setBatchOptions opts, .retuneLogs⟩)
    (hhead : s.overlap.retuning.head? = some k) :
    ({ s.retuneLogs k opts with
      calls := s.calls.set k ⟨.setBatchOptions opts, .returned (.status .completed)⟩ } :
        SdkProvider ρ).Converging batch := by
  obtain ⟨rest, hqueue, herase⟩ := erase_head hhead
  have hretuning := h.retuning
  rw [hqueue] at hretuning
  obtain ⟨hleft, halone⟩ :=
    hretuning.leave (ψ := ⟨.setBatchOptions opts, .returned (.status .completed)⟩) hc
  have hseed : ¬ Seeding ⟨.setBatchOptions opts, .retuneLogs⟩ := by
    rintro ⟨o, heq⟩
    cases heq
  have hreread : ¬ Rereading ⟨.setBatchOptions opts, .retuneLogs⟩ := by
    rintro ⟨o, heq⟩
    cases heq
  have htuned : Tuned .retuneLogs ↔ Tuned (.returned (.status .completed)) :=
    iff_of_true (.inr (.inl rfl)) (.inr (.inr rfl))
  refine ⟨h.seeding.elsewhere hc hseed, h.seeded, ?_, ?_, ?_, ?_, h.rereading.elsewhere hc hreread,
    h.reread, h.readerLive, h.asked.moved hc fun _ _ => htuned⟩
  · dsimp only [SdkProvider.retuneLogs]
    rw [herase]
    exact hleft
  · dsimp only [SdkProvider.retuneLogs]
    rw [herase]
    intro hnil l' hl'
    obtain ⟨l, hl, rfl⟩ := Option.map_eq_some_iff.mp hl'
    have hsame := halone hnil
    cases hsame
    rfl
  · dsimp only [SdkProvider.retuneLogs]
    rw [h.published, Option.isSome_map]
  · dsimp only [SdkProvider.retuneLogs]
    intro hnone
    rw [h.logsLive (Option.map_eq_none_iff.mp hnone)]
    rfl

/-- The interval is stored, and the reader there is is to be retuned to it. -/
theorem Converging.seedInterval (h : s.Converging batch) {pc' : Pc}
    (hc : s.calls[k]? = some ⟨.setMetricInterval interval, .seedInterval⟩)
    (hpc : s.metricReader.isSome = true ∧ pc' = .retuneReader ∨
      s.metricReader = none ∧ pc' = .returned (.status .completed)) :
    ({ s.seedInterval k interval with
      calls := s.calls.set k ⟨.setMetricInterval interval, pc'⟩ } : SdkProvider ρ).Converging
        batch := by
  obtain ⟨hseed, hretune, hreread⟩ : Outside ⟨.setMetricInterval interval, .seedInterval⟩ :=
    outside_of_pc (by simp) (by simp) (by simp)
  refine ⟨h.seeding.elsewhere hc hseed, h.seeded, h.retuning.elsewhere hc hretune, h.retuned,
    h.published, h.logsLive, ?_, ?_, ?_, h.asked.moved hc fun o heq => by cases heq⟩
  · dsimp only [SdkProvider.seedInterval]
    rcases hpc with ⟨hsome, rfl⟩ | ⟨hnone, rfl⟩
    · rw [hsome]
      exact h.rereading.arrive hc hreread ⟨interval, rfl⟩
    · rw [h.readerLive hnone, hnone]
      exact Threads.Queued.nil _ _ _
  · dsimp only [SdkProvider.seedInterval]
    intro hnil r hr
    rw [hr] at hnil
    exact absurd hnil (by simp)
  · dsimp only [SdkProvider.seedInterval]
    intro hnone
    rw [h.readerLive hnone, hnone]
    rfl

theorem Converging.retuneReader (h : s.Converging batch)
    (hc : s.calls[k]? = some ⟨.setMetricInterval interval, .retuneReader⟩)
    (hhead : s.overlap.rereading.head? = some k) :
    ({ s.retuneReader k interval with
      calls := s.calls.set k ⟨.setMetricInterval interval, .returned (.status .completed)⟩ } :
        SdkProvider ρ).Converging batch := by
  obtain ⟨rest, hqueue, herase⟩ := erase_head hhead
  have hrereading := h.rereading
  rw [hqueue] at hrereading
  obtain ⟨hleft, halone⟩ :=
    hrereading.leave (ψ := ⟨.setMetricInterval interval, .returned (.status .completed)⟩) hc
  have hseed : ¬ Seeding ⟨.setMetricInterval interval, .retuneReader⟩ := by
    rintro ⟨o, heq⟩
    cases heq
  have hretune : ¬ Retuning ⟨.setMetricInterval interval, .retuneReader⟩ := by
    rintro ⟨o, heq⟩
    cases heq
  refine ⟨h.seeding.elsewhere hc hseed, h.seeded, h.retuning.elsewhere hc hretune, h.retuned,
    h.published, h.logsLive, ?_, ?_, ?_, h.asked.moved hc fun o heq => by cases heq⟩
  · dsimp only [SdkProvider.retuneReader]
    rw [herase]
    exact hleft
  · dsimp only [SdkProvider.retuneReader]
    rw [herase]
    intro hnil r' hr'
    obtain ⟨r, hr, rfl⟩ := Option.map_eq_some_iff.mp hr'
    have hsame := halone hnil
    cases hsame
    rfl
  · dsimp only [SdkProvider.retuneReader]
    intro hnone
    rw [h.readerLive (Option.map_eq_none_iff.mp hnone)]
    rfl

end Updates

/-! ### Every step -/

/-- A setter that starts has made no update. -/
theorem enter_untuned (s : SdkProvider ρ) (request : Request) (o : BatchOptions)
    (hrequest : request = .setBatchOptions o) : ¬ Tuned (s.enter request).2 := by
  subst hrequest
  simp only [enter, setBatchOptionsPc]
  split
  · simp [Tuned]
  · split
    · simp [Tuned]
    · split
      · simp [Tuned]
      · simp [Tuned]

theorem Converging.enter (h : s.Converging batch) (request : Request) :
    (s.call request).Converging batch := by
  have hasked := h.asked.push (c := ⟨request, (s.enter request).2⟩)
    fun o heq => s.enter_untuned request o heq
  cases request <;>
    exact h.frame h.seeding.pushed h.retuning.pushed h.rereading.pushed hasked rfl rfl rfl rfl rfl
      sameLogSetting id h.published sameInterval id

/-- What the condition says of a call that moves. -/
theorem inOrder_head {a : ProviderAction ρ} {k : Nat} {half : Bool} {c : Call}
    (hok : s.inOrder a = true) (hc : s.calls[k]? = some c)
    (ha : (∃ answer, a = .next k answer) ∧ half = false ∨
      ∃ point flag, a = .throws k point ∧ c.pc = .building flag ∧ (half = true → point = .second)) :
    (c.pc = .seedLogs → s.overlap.seeding.head? = some k) ∧
      (c.pc = .retuneLogs → s.overlap.retuning.head? = some k) ∧
      (c.pc = .retuneReader → s.overlap.rereading.head? = some k) ∧
      (half = true → ∀ name version, c.request = .getLogger name version →
        s.logPipeline ≠ none) := by
  rcases ha with ⟨⟨answer, rfl⟩, hwhole⟩ | ⟨point, flag, rfl, hpc, hpoint⟩
  · refine ⟨?_, ?_, ?_, ?_⟩
    · intro hpc
      simpa [inOrder, hc, hpc] using hok
    · intro hpc
      simpa [inOrder, hc, hpc] using hok
    · intro hpc
      simpa [inOrder, hc, hpc] using hok
    · intro hhalf
      rw [hwhole] at hhalf
      cases hhalf
  · rw [hpc]
    refine ⟨by simp, by simp, by simp, ?_⟩
    intro hhalf name version hrequest
    rw [hpoint hhalf] at hok
    simp only [inOrder, hc, Option.map_some, hrequest] at hok
    exact Option.isSome_iff_ne_none.mp hok

theorem Converging.step [DecidableEq ρ] {a : ProviderAction ρ} (h : s.Converging batch)
    (hok : s.inOrder a = true) (hstep : s.step a = some s') : s'.Converging batch := by
  cases step_spec hstep with
  | entered => exact h.enter _
  | @moved _ k half c next pc' ha hc M =>
      obtain ⟨hseeds, hretunes, hrereads, hhalf⟩ := inOrder_head hok hc ha
      obtain ⟨request, pc⟩ := c
      cases M with
      | meter M => exact h.meter M hc (outside_of_pc (by simp) (by simp) (by simp)) (by simp)
      | logger L =>
          cases half with
          | false => exact h.logger L hc (outside_of_pc (by simp) (by simp) (by simp)) (by simp)
          | true =>
              cases L with
              | stored hnone => exact absurd hnone (hhalf rfl _ _ rfl)
      | spansRetuned => exact h.retuneSpans hc
      | logsSeeded hpublished => exact h.seedLogs hc (hseeds rfl) (.inl ⟨hpublished, rfl⟩)
      | seedLeft hunpublished => exact h.seedLogs hc (hseeds rfl) (.inr ⟨hunpublished, rfl⟩)
      | logsRetuned => exact h.retuneLogs hc (hretunes rfl)
      | intervalSeeded hr => exact h.seedInterval hc (.inl ⟨by rw [hr]; rfl, rfl⟩)
      | intervalLeft hnone => exact h.seedInterval hc (.inr ⟨hnone, rfl⟩)
      | readerRetuned => exact h.retuneReader hc (hrereads rfl)
      | wound W => exact h.wind W hc (outside_of_pc (by simp) (by simp) (by simp)) (by simp)
  | traced hown htrace =>
      exact h.frame h.seeding h.retuning h.rereading h.asked rfl rfl
        (traceOwn_stays hown htrace).processor.opts rfl rfl sameLogSetting id h.published
        sameInterval id
  | @readerExited r hr htold =>
      refine h.frame h.seeding h.retuning h.rereading h.asked rfl rfl rfl rfl rfl sameLogSetting id
        h.published ?_ ?_
      · intro r' hr'
        cases hr'
        exact .inr ⟨r, hr, rfl⟩
      · intro hnone
        cases hnone
  | @logsExited l hl htold =>
      refine h.frame h.seeding h.retuning h.rereading h.asked rfl rfl rfl rfl rfl ?_ ?_ ?_
        sameInterval id
      · intro l' hl'
        cases hl'
        exact .inr ⟨l, hl, rfl⟩
      · intro hnone
        cases hnone
      · rw [h.published, hl]
        rfl

/-! ### Every run -/

theorem Converging.new (wiring : Wiring) (resource : ρ) (batch : BatchOptions)
    (maxRecordBytes maxTotalQueueBytes : Nat) (metricInterval : Int) :
    (new wiring resource batch maxRecordBytes maxTotalQueueBytes metricInterval).Converging
      batch where
  seeding := Threads.Queued.nil _ _ _
  seeded _ := rfl
  retuning := Threads.Queued.nil _ _ _
  retuned _ l hl := by cases hl
  published := rfl
  logsLive _ := rfl
  rereading := Threads.Queued.nil _ _ _
  reread _ r hr := by cases hr
  readerLive _ := rfl
  asked := .inl ⟨rfl, fun c hc => by cases hc⟩

/-- Every call but a `Shutdown` has returned. -/
def AllReturned (s : SdkProvider ρ) : Prop :=
  ∀ c ∈ s.calls, c.request ≠ .shutdown → ∃ answer, c.pc = .returned answer

/-- A `SetBatchOptions` with these options was accepted and has returned. -/
def SetTo (s : SdkProvider ρ) (opts : BatchOptions) : Prop :=
  ⟨.setBatchOptions opts, .returned (.status .completed)⟩ ∈ s.calls

theorem queue_empty {calls : List Call} {At : Call → Prop} {queue : List Nat} {newest : Call}
    (h : Threads.Queued calls At queue newest)
    (hnone : ∀ c ∈ calls, ¬ At c) : queue = [] := by
  cases queue with
  | nil => rfl
  | cons k queue =>
      obtain ⟨c, hc, hat⟩ := h.stage k List.mem_cons_self
      exact absurd hat (hnone c (List.mem_of_getElem? hc))

theorem AllReturned.outside (h : s.AllReturned) : ∀ c ∈ s.calls, Outside c := by
  intro c hc
  refine ⟨?_, ?_, ?_⟩
  · rintro ⟨opts, rfl⟩
    obtain ⟨answer, hpc⟩ := h _ hc (by simp)
    cases hpc
  · rintro ⟨opts, rfl⟩
    obtain ⟨answer, hpc⟩ := h _ hc (by simp)
    cases hpc
  · rintro ⟨interval, rfl⟩
    obtain ⟨answer, hpc⟩ := h _ hc (by simp)
    cases hpc

theorem Asked.settled (h : Asked batch s.trace.processor.opts s.calls) (hreturned : s.AllReturned) :
    s.SetTo s.trace.processor.opts ∨
      s.trace.processor.opts = batch ∧ ∀ opts, ¬ s.SetTo opts := by
  rcases h with ⟨hfirst, hnone⟩ | ⟨c, hc, hrequest, hpast⟩
  · right
    refine ⟨hfirst, ?_⟩
    intro opts hset
    exact hnone _ hset opts rfl (.inr (.inr rfl))
  · left
    obtain ⟨request, pc⟩ := c
    cases hrequest
    obtain ⟨answer, rfl⟩ : ∃ answer, pc = .returned answer := hreturned _ hc (by simp)
    rcases hpast with heq | heq | heq
    · cases heq
    · cases heq
    · cases heq
      exact hc

/-- In a run in which the setters make each update in the order of the one before, and
no `GetLogger` fails between storing the log pipeline and publishing its processor:
when all of them have returned, the two pipelines have the same options, those of one
of the `SetBatchOptions` calls, or the first if none was accepted; and the
reader has the interval stored. -/
theorem retunes_converge [DecidableEq ρ] (wiring : Wiring) (resource : ρ) (batch : BatchOptions)
    (maxRecordBytes maxTotalQueueBytes : Nat) (metricInterval : Int)
    (actions : List (ProviderAction ρ)) (s : SdkProvider ρ)
    (hok : ∀ done a rest t, actions = done ++ a :: rest →
      run step (new wiring resource batch maxRecordBytes maxTotalQueueBytes metricInterval) done =
        some t → t.inOrder a = true)
    (hrun : run step
      (new wiring resource batch maxRecordBytes maxTotalQueueBytes metricInterval) actions = some s)
    (hreturned : s.AllReturned) :
    ∃ opts, s.trace.processor.opts = opts ∧ s.logBatchOpts = opts ∧
      (∀ l, s.logPipeline = some l → l.setting = opts) ∧
      (s.SetTo opts ∨ opts = batch ∧ ∀ other, ¬ s.SetTo other) ∧
      ∀ r, s.metricReader = some r → r.setting = s.metricInterval := by
  have h : s.Converging batch := run_invariant_of
    (fun t a t' h hordered hstep => Converging.step h hordered hstep)
    (Converging.new wiring resource batch maxRecordBytes maxTotalQueueBytes metricInterval) hok hrun
  have hseeded := h.seeded (queue_empty h.seeding fun c hc => (hreturned.outside c hc).1)
  have hretuned := h.retuned (queue_empty h.retuning fun c hc => (hreturned.outside c hc).2.1)
  have hreread := h.reread (queue_empty h.rereading fun c hc => (hreturned.outside c hc).2.2)
  refine ⟨s.trace.processor.opts, rfl, hseeded, ?_, h.asked.settled hreturned, hreread⟩
  intro l hl
  rw [hretuned l hl, hseeded]

def batchOf (size : Nat) : BatchOptions := { maxExportBatchSize := size }

/-- A logger and a meter, two `SetBatchOptions` that overlap, and a `SetMetricInterval`. -/
def retunedInTurn : List (ProviderAction Nat) :=
  [.call (.getLogger [] []), .next 0 .completed, .call (.getMeter [] []), .next 1 .completed,
    .call (.setBatchOptions (batchOf 16)), .call (.setBatchOptions (batchOf 32)),
    .next 2 .completed, .next 3 .completed, .next 2 .completed, .next 3 .completed,
    .next 2 .completed, .next 3 .completed, .call (.setMetricInterval 10), .next 4 .completed,
    .next 4 .completed]

theorem retunes_converge_retunedInTurn :
    ∃ s, run step small retunedInTurn = some s ∧ s.AllReturned ∧
      s.trace.processor.opts = batchOf 32 ∧ s.logBatchOpts = batchOf 32 ∧
      ∃ l r, s.logPipeline = some l ∧ l.setting = batchOf 32 ∧ s.metricReader = some r ∧
        r.setting = s.metricInterval := by
  have hends : (run step small retunedInTurn).map (fun s =>
      (s.calls.map Call.pc, s.trace.processor.opts, s.logPipeline.isSome, s.metricReader.isSome)) =
      some ([.returned (.entry [0]), .returned (.entry [0]), .returned (.status .completed),
        .returned (.status .completed), .returned (.status .completed)], batchOf 32,
          true, true) := by
    decide +kernel
  have hok : throughout step (fun s a => s.inOrder a = true) small retunedInTurn = true := by
    decide +kernel
  obtain ⟨s, hs, hat⟩ := Option.map_eq_some_iff.mp hends
  simp only [Prod.mk.injEq] at hat
  obtain ⟨hpcs, hopts, hlogs, hreader⟩ := hat
  have hreturned : s.AllReturned := by
    intro c hc _
    have hpc : c.pc ∈ s.calls.map Call.pc := List.mem_map_of_mem hc
    rw [hpcs] at hpc
    simp only [List.mem_cons, List.not_mem_nil, or_false] at hpc
    rcases hpc with hpc | hpc | hpc | hpc | hpc <;> exact ⟨_, hpc⟩
  obtain ⟨opts, hspans, hseed, hlive, -, hinterval⟩ := retunes_converge {} 0 {} 4096 4096 60000
    retunedInTurn s (throughout_sound hok) hs hreturned
  rw [hopts] at hspans
  subst hspans
  obtain ⟨l, hl⟩ := Option.isSome_iff_exists.mp hlogs
  obtain ⟨r, hr⟩ := Option.isSome_iff_exists.mp hreader
  exact ⟨s, hs, hreturned, hopts, hseed, l, r, hl, hlive l hl, hr, hinterval r hr⟩

/-- Two `SetBatchOptions` that retune the spans in one order and seed the logs in
the other, and two `SetMetricInterval` that do so with the interval and the reader. -/
def retunedCrosswise : List (ProviderAction Nat) :=
  [.call (.setBatchOptions (batchOf 16)), .call (.setBatchOptions (batchOf 32)),
    .next 0 .completed, .next 1 .completed, .next 1 .completed, .next 0 .completed,
    .call (.getMeter [] []), .next 2 .completed, .call (.setMetricInterval 10),
    .call (.setMetricInterval 20), .next 3 .completed, .next 4 .completed, .next 4 .completed,
    .next 3 .completed]

theorem retunes_diverge :
    (run step small retunedCrosswise).map (fun s =>
      (s.calls.map Call.pc, s.trace.processor.opts, s.logBatchOpts, s.metricInterval,
        s.metricReader.map Component.setting)) =
      some ([.returned (.status .completed), .returned (.status .completed),
        .returned (.entry [0]), .returned (.status .completed), .returned (.status .completed)],
        batchOf 32, batchOf 16, 20, some 10) := by
  decide +kernel

end Microtel.Sdk.SdkProvider
