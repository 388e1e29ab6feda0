import Microtel.Leaf.ClockLog
import Microtel.Leaf.Handles

/-!
The clock readings of a run. Under a clock that does not go back no span holds a time
after the last reading, an ended span ended at or after its start, and the last sync was
taken at a reading that is not in the future.
-/

namespace Microtel.Leaf

/-- The readings of the calls of a run, and of what comes after it. -/
def readings (p : LeafParams) (calls : List (Callbacks × Call)) (env : Callbacks) : List UInt64 :=
  (calls.map fun call => readClock p call.1) ++ [readClock p env]

/-- A span's times are readings up to `now`. -/
structure Span.Dated (s : Span) (now : UInt64) : Prop where
  start : s.start ≤ now
  finish : s.ended = true → s.start ≤ s.finish ∧ s.finish ≤ now
  events : ∀ event ∈ s.events, event.1 ≤ now

structure AbstractLeaf.Dated (A : AbstractLeaf) (now : UInt64) : Prop where
  sync : A.synced = true → A.hasClock = true ∧ A.syncLeaf ≤ now
  spans : ∀ h s, A.span h = some s → s.Dated now

section

variable {S : Store} {A A' : AbstractLeaf} {now later : UInt64} {env : Callbacks}

theorem Span.Dated.mono {s : Span} (D : s.Dated now) (hle : now ≤ later) : s.Dated later where
  start := UInt64.le_trans D.start hle
  finish hended := ⟨(D.finish hended).1, UInt64.le_trans (D.finish hended).2 hle⟩
  events event hevent := UInt64.le_trans (D.events event hevent) hle

namespace AbstractLeaf

theorem Dated.init (c : Config) (now : UInt64) : (AbstractLeaf.init c).Dated now where
  sync hsynced := absurd hsynced Bool.false_ne_true
  spans _ _ hspan := absurd hspan (Option.some_ne_none _).symm

theorem Dated.mono (D : A.Dated now) (hle : now ≤ later) : A.Dated later where
  sync hsynced := ⟨(D.sync hsynced).1, UInt64.le_trans (D.sync hsynced).2 hle⟩
  spans h s hs := (D.spans h s hs).mono hle

theorem Dated.count (D : A.Dated now) (f : Counters → Counters) : (A.count f).Dated now :=
  ⟨D.sync, D.spans⟩

/-- One span has been replaced. -/
theorem Dated.replace (D : A.Dated now) {span : Handle} {s? : Option Span}
    (hspans : A'.span = Function.update A.span span s?) (hs : ∀ s, s? = some s → s.Dated now)
    (hsync : A'.synced = true → A'.hasClock = true ∧ A'.syncLeaf ≤ now) : A'.Dated now := by
  refine ⟨hsync, fun h s hspan => ?_⟩
  rw [hspans] at hspan
  by_cases heq : h = span
  · rw [heq, Function.update_self] at hspan
    exact hs s hspan
  · rw [Function.update_of_ne heq] at hspan
    exact D.spans h s hspan

theorem Dated.update (D : A.Dated now) (span : Handle) {f : Span → Span}
    (hf : ∀ s : Span, s.Dated now → (f s).Dated now) : (A.update span f).Dated now := by
  have hspans : (A.update span f).span = Function.update A.span span ((A.span span).map f) := rfl
  apply D.replace hspans
  · intro s hs
    obtain ⟨s', hs', rfl⟩ := Option.map_eq_some_iff.mp hs
    exact hf s' (D.spans span s' hs')
  · exact D.sync

/-- What an edit leaves is dated, once the clock has been read for it. -/
theorem edit_dated (p : LeafParams) (env : Callbacks) (call : Call) {s : Span}
    (D : s.Dated (readClock p env)) : (edit p env call s).Dated (readClock p env) := by
  unfold edit
  split
  · exact ⟨D.start, D.finish, D.events⟩
  · refine ⟨D.start, D.finish, fun event hevent => ?_⟩
    rcases List.mem_append.mp hevent with hbefore | hnew
    · exact D.events event hbefore
    · rw [List.mem_singleton.mp hnew]
      exact UInt64.le_refl _
  · exact ⟨D.start, D.finish, D.events⟩
  · exact ⟨D.start, fun _ => ⟨D.start, UInt64.le_refl _⟩, D.events⟩
  · exact D

theorem Dated.edited (D : A.Dated (readClock A.toLeafParams env)) (span : Handle) (call : Call) :
    (A.update span (edit A.toLeafParams env call)).Dated (readClock A.toLeafParams env) :=
  D.update span fun _ => edit_dated A.toLeafParams env call

theorem Dated.started (D : A.Dated (readClock A.toLeafParams env)) (name : Slice UInt8)
    (kind : Option SpanKind) (ids : SpanIds) (o : Outcome) :
    (A.started env name kind ids o).Dated (readClock A.toLeafParams env) ∧
      (A.started env name kind ids o).toLeafParams = A.toLeafParams := by
  unfold AbstractLeaf.started
  split
  · next h kind traceId spanId vars _ _ hdraw =>
    obtain ⟨hsynced, -, hsyncLeaf⟩ := drawIds_sync hdraw
    refine ⟨?_, rfl⟩
    apply D.replace rfl
    · intro s hs
      obtain rfl := Option.some.inj hs
      exact ⟨UInt64.le_refl _, fun hended => absurd hended Bool.false_ne_true,
        fun event hevent => absurd hevent List.not_mem_nil⟩
    · intro hsync
      dsimp only at hsynced hsyncLeaf hsync ⊢
      rw [hsyncLeaf]
      exact D.sync (hsynced ▸ hsync)
  · exact ⟨D.count _, rfl⟩
  · exact ⟨D, rfl⟩

theorem Dated.encoded (D : A.Dated now) : A.encoded.Dated now where
  sync := D.sync
  spans h s hs := D.spans h s (Option.filter_eq_some_iff.mp hs).1

end AbstractLeaf

/-- A sync that is taken has a clock, and is not in the future. -/
theorem Store.clockSync_ok {unixNs leafNowNs : UInt64}
    (hok : (S.clockSync env unixNs leafNowNs).2 = .ok) :
    S.hasClock = true ∧ leafNowNs ≤ readClock S.toLeafParams env := by
  unfold Store.clockSync at hok
  split at hok
  · cases hok
  · next hguard =>
    rw [not_or, not_or] at hguard
    obtain ⟨hclock, -, hpast⟩ := hguard
    exact ⟨by simpa using hclock, UInt64.not_lt.mp hpast⟩

/-- Step lemma: a call keeps the times at or before its reading. -/
theorem Models.step_dated (M : Models S A) (D : A.Dated (readClock A.toLeafParams env))
    {call : Call} {S? : Option Store} {o : Outcome}
    (hstep : Store.step env (some S) call = some (S?, o)) (hA' : A.step env call o = some A') :
    A'.Dated (readClock A.toLeafParams env) ∧ A'.toLeafParams = A.toLeafParams := by
  cases call with
  | spanStart outNull name kind parent =>
      obtain rfl := Option.some.inj hA'
      exact D.started name kind _ o
  | spanStartRemote outNull name kind traceId parentSpanId =>
      obtain rfl := Option.some.inj hA'
      exact D.started name kind _ o
  | setAttribute span attr =>
      unfold AbstractLeaf.step at hA'
      dsimp only at hA'
      split at hA'
      · obtain rfl := Option.some.inj hA'
        exact ⟨D.edited span _, rfl⟩
      · obtain rfl := Option.some.inj hA'
        exact ⟨D.count _, rfl⟩
      · obtain rfl := Option.some.inj hA'
        exact ⟨D.count _, rfl⟩
      · obtain rfl := Option.some.inj hA'
        exact ⟨D, rfl⟩
  | addEvent span name attrs =>
      unfold AbstractLeaf.step at hA'
      dsimp only at hA'
      split at hA'
      · obtain rfl := Option.some.inj hA'
        exact ⟨(D.edited span _).count _, rfl⟩
      · obtain rfl := Option.some.inj hA'
        exact ⟨D.count _, rfl⟩
      · obtain rfl := Option.some.inj hA'
        exact ⟨D.count _, rfl⟩
      · obtain rfl := Option.some.inj hA'
        exact ⟨D, rfl⟩
  | setStatus span code message =>
      unfold AbstractLeaf.step at hA'
      dsimp only at hA'
      split at hA'
      · obtain rfl := Option.some.inj hA'
        exact ⟨D.edited span _, rfl⟩
      · obtain rfl := Option.some.inj hA'
        exact ⟨D, rfl⟩
  | spanEnd span =>
      unfold AbstractLeaf.step at hA'
      dsimp only at hA'
      split at hA'
      · obtain rfl := Option.some.inj hA'
        have hedited := D.edited span (.spanEnd span)
        exact ⟨⟨hedited.sync, hedited.spans⟩, rfl⟩
      · obtain rfl := Option.some.inj hA'
        exact ⟨D, rfl⟩
  | clockSync unixNs leafNowNs =>
      unfold AbstractLeaf.step at hA'
      dsimp only at hA'
      split at hA'
      · next hok =>
        obtain ⟨-, rfl⟩ := Prod.mk.inj (Option.some.inj hstep)
        obtain ⟨hclock, hpast⟩ := Store.clockSync_ok hok
        rw [M.params] at hclock hpast
        obtain rfl := Option.some.inj hA'
        exact ⟨⟨fun _ => ⟨hclock, hpast⟩, D.spans⟩, rfl⟩
      · obtain rfl := Option.some.inj hA'
        exact ⟨D, rfl⟩
  | encode outNull outSize writtenNull backend =>
      unfold AbstractLeaf.step at hA'
      dsimp only at hA'
      split at hA'
      · obtain rfl := Option.some.inj hA'
        exact ⟨D.encoded, rfl⟩
      · obtain rfl := Option.some.inj hA'
        exact ⟨D, rfl⟩
  | encodeTo writeNull writtenNull backend =>
      unfold AbstractLeaf.step at hA'
      dsimp only at hA'
      split at hA'
      · obtain rfl := Option.some.inj hA'
        exact ⟨D.encoded, rfl⟩
      · obtain rfl := Option.some.inj hA'
        exact ⟨D, rfl⟩
  | free => cases hA'

/-- Run lemma. -/
theorem Models.run_dated (M : Models S A) (V : S.Valid) (D : A.Dated now)
    {calls : List (Callbacks × Call)}
    (hclock : (now :: readings A.toLeafParams calls env).Pairwise (· ≤ ·)) {S' : Store}
    {os : List Outcome} (hrun : Store.run (some S) calls = some (some S', os)) :
    ∃ A', Models S' A' ∧ S'.Valid ∧ A'.Dated (readClock A.toLeafParams env) ∧
      A'.toLeafParams = A.toLeafParams ∧ A'.clockLog = A.clockLog.run A.hasClock calls os := by
  induction calls generalizing S A now os with
  | nil =>
      obtain ⟨hS, rfl⟩ := Prod.mk.inj (Option.some.inj hrun)
      obtain rfl := Option.some.inj hS
      have hlast : now ≤ readClock A.toLeafParams env :=
        (List.pairwise_cons.mp hclock).1 _ (List.mem_singleton.mpr rfl)
      exact ⟨A, M, V, D.mono hlast, rfl, rfl⟩
  | cons x calls ih =>
      obtain ⟨env', call⟩ := x
      obtain ⟨hfirst, hrest⟩ := List.pairwise_cons.mp hclock
      have hnow : now ≤ readClock A.toLeafParams env' := hfirst _ List.mem_cons_self
      unfold Store.run at hrun
      cases hstep : Store.step env' (some S) call with
      | none => simp [hstep] at hrun
      | some p =>
          obtain ⟨S₁, o⟩ := p
          rw [hstep] at hrun
          obtain ⟨⟨S₂, os'⟩, hq, heq⟩ := Option.map_eq_some_iff.mp hrun
          obtain ⟨rfl, rfl⟩ := Prod.mk.inj heq
          have hrel := M.step V hstep
          cases hA₁ : A.step env' call o with
          | none =>
              rw [hA₁] at hrel
              cases hrel
              exact absurd (Store.run_freed calls hq) (Option.some_ne_none _)
          | some A₁ =>
              rw [hA₁] at hrel
              cases hrel with
              | some M₁ =>
                  obtain ⟨D₁, hparams⟩ := M.step_dated (D.mono hnow) hstep hA₁
                  have hrest' : (readClock A.toLeafParams env' ::
                      readings A₁.toLeafParams calls env).Pairwise (· ≤ ·) := by
                    rw [hparams]
                    exact hrest
                  have hfinal := ih M₁ (V.step hstep) D₁ hrest' hq
                  rw [hparams, M.step_clockLog V hstep hA₁] at hfinal
                  exact hfinal

/-- In a valid store the handles in `ended` are those of ended spans. -/
theorem Models.ended_span (M : Models S A) (V : S.Valid) {h : Handle} (hmem : h ∈ A.ended) :
    ∃ s, A.span h = some s ∧ s.ended = true := by
  rw [M.ended, List.mem_filterMap] at hmem
  obtain ⟨slot, hslot, hhandle⟩ := hmem
  obtain ⟨e, he, hended⟩ := (V.ended_iff slot).mp hslot
  rw [Store.handleOf, he] at hhandle
  obtain rfl := Option.some.inj hhandle
  have hresolve := (Store.resolve_eq_some V).mpr ⟨he, rfl⟩
  refine ⟨e.toSpan, ?_, hended⟩
  rw [M.span, hresolve]
  rfl

theorem Models.spans_ne_nil (M : Models S A) (V : S.Valid) (hended : S.ended ≠ []) :
    (A.view env).spans ≠ [] := by
  obtain ⟨slot, hslot⟩ := List.exists_mem_of_ne_nil _ hended
  obtain ⟨e, he, -⟩ := (V.ended_iff slot).mp hslot
  have hhandle : mkHandle e.gen slot ∈ A.ended := by
    rw [M.ended]
    exact List.mem_filterMap.mpr ⟨slot, hslot, by rw [Store.handleOf, he, Option.map_some]⟩
  obtain ⟨s, hs, -⟩ := M.ended_span V hhandle
  have hspan : s ∈ A.ended.filterMap A.span := List.mem_filterMap.mpr ⟨_, hhandle, hs⟩
  intro hnil
  exact List.ne_nil_of_mem hspan (List.map_eq_nil_iff.mp hnil)

end

/-- The spans of the batch, with their times as the leaf's own clock read them. -/
def rawSpans (w : Word32) (st : LeafState) : List SpanView := (viewOf w (rawBatch st)).spans

/-- What is known of a leaf that a run has reached: its batch is the view of an abstract
leaf, all of whose times are readings up to the one for `env`. -/
structure Reached (w : Word32) (st : LeafState) (env : Callbacks) (S : Store)
    (A : AbstractLeaf) : Prop where
  models : Models S A
  valid : S.Valid
  dated : A.Dated (readClock A.toLeafParams env)
  /-- Only a leaf that leaves the times to the concentrator goes without a clock. -/
  clocked : A.timeMode ≠ .concentratorStamped → A.hasClock = true
  params : st.toLeafParams = A.toLeafParams
  vars : st.toLeafVars = A.toLeafVars
  view : batchView w st env = A.view env
  raw : rawSpans w st = (A.ended.filterMap A.span).map fun s => s.view 0
  /-- Where the leaf counts an ended span, the view has one. -/
  ended : st.endedCount ≠ 0 → (A.view env).spans ≠ []

theorem configValid_clocked {c : Config} (h : configValid c = true) :
    c.timeMode.getD .concentratorStamped ≠ .concentratorStamped → c.hasClock = true := by
  intro hmode
  unfold configValid configScalarsValid at h
  cases hclock : c.hasClock with
  | true => rfl
  | false =>
      cases htime : c.timeMode with
      | none =>
          rw [htime] at hmode
          exact absurd rfl hmode
      | some mode =>
          rw [htime] at hmode
          have hne : mode ≠ .concentratorStamped := hmode
          simp [hclock, htime, hne] at h

/-- What a leaf reads is what its clock answers. -/
theorem readClock_of_init {w : Word32} {leaf st₀ : LeafState} {leafSize bufferSize : Nat}
    {c : Config} {buffer buffer' : Option ByteMemory.Mem}
    (hinit : init w leaf leafSize (some c) buffer bufferSize = (.ok, st₀, buffer'))
    (env : Callbacks) : readClock st₀.toLeafParams env = clockAnswer c.hasClock env := by
  obtain ⟨c', hc, -, -, cs, ch, R⟩ := Tracks.init hinit
  obtain rfl := Option.some.inj hc
  have hclock : st₀.hasClock = c.hasClock := congrArg LeafParams.hasClock R.params
  rw [readClock, clockAnswer, hclock]

theorem readings_of_init {w : Word32} {leaf st₀ : LeafState} {leafSize bufferSize : Nat}
    {c : Config} {buffer buffer' : Option ByteMemory.Mem} {calls : List (Callbacks × Call)}
    {env : Callbacks}
    (hinit : init w leaf leafSize (some c) buffer bufferSize = (.ok, st₀, buffer')) :
    readings st₀.toLeafParams calls env = clockAnswers c calls env := by
  unfold readings clockAnswers
  simp only [readClock_of_init hinit, List.map_append, List.map_map, List.map_cons, List.map_nil]
  rfl

theorem reached_of_run {w : Word32} {leaf st₀ st : LeafState} {leafSize bufferSize : Nat}
    {c : Config} {buffer buffer' : Option ByteMemory.Mem} {calls : List (Callbacks × Call)}
    {os : List Outcome} {env : Callbacks}
    (hinit : init w leaf leafSize (some c) buffer bufferSize = (.ok, st₀, buffer'))
    (hrun : run w st₀ calls = some (st, os)) (hlive : checkLeaf st = .ok)
    (hclock : (readings st₀.toLeafParams calls env).Pairwise (· ≤ ·)) :
    ∃ S A, Reached w st env S A ∧ A.toLeafParams = st₀.toLeafParams ∧
      A.clockLog = clockLog c calls os := by
  obtain ⟨c', S?, hc, hvalid, hstore, hfinal⟩ := run_tracks hinit hrun
  obtain rfl := Option.some.inj hc
  obtain ⟨c'', hc, -, -, cs, ch, R⟩ := Tracks.init hinit
  obtain rfl := Option.some.inj hc
  have hparams : st₀.toLeafParams = (AbstractLeaf.init c).toLeafParams := R.params
  cases S? with
  | none =>
      have hmagic : st.magic ≠ leafMagic := hfinal
      simp [checkLeaf, hmagic] at hlive
  | some S =>
      obtain ⟨V, cs', ch', R'⟩ := hfinal
      have hstart : ((0 : UInt64) :: readings (AbstractLeaf.init c).toLeafParams calls env).Pairwise
          (· ≤ ·) := by
        rw [← hparams]
        exact List.pairwise_cons.mpr ⟨fun t _ => UInt64.zero_le, hclock⟩
      obtain ⟨A, M, -, D, hsame, hlog⟩ := (Models.init c (min bufferSize maxBuffer)).run_dated
        (Store.init_valid hvalid _) (AbstractLeaf.Dated.init c 0) hstart hstore
      have hclocked : A.timeMode ≠ .concentratorStamped → A.hasClock = true := by
        have hconfig := configValid_clocked hvalid
        have htimeMode : A.timeMode = c.timeMode.getD .concentratorStamped :=
          congrArg LeafParams.timeMode hsame
        have hhasClock : A.hasClock = c.hasClock := congrArg LeafParams.hasClock hsame
        rw [htimeMode, hhasClock]
        exact hconfig
      rw [← hsame] at D
      refine ⟨S, A, ⟨M, V, D, hclocked, R'.params.trans M.params, R'.vars.trans M.vars,
        (R'.batchView V env).trans (M.view V env),
        (Rep.spanViews (b := rawBatch st) R' V).trans (M.spanViews V 0), fun hcount => ?_⟩,
        hsame.trans hparams.symm, hlog⟩
      apply M.spans_ne_nil V
      intro hnil
      have hzero := R'.endedCount
      rw [hnil, List.length_nil] at hzero
      exact hcount (UInt32.toNat_inj.mp hzero)

end Microtel.Leaf
