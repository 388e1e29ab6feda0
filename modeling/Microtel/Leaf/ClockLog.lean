import Microtel.Leaf.AbstractRuns

/-!
What the clock answered in a run, from the calls alone: when each span was started and
ended, when its events happened, and the last sync. The times the abstract leaf holds are
these.
-/

namespace Microtel.Leaf

/-- The clock's answers in the calls on one span. -/
structure SpanReadings where
  start : UInt64
  finish : Option UInt64
  events : List UInt64

/-- The answers for the spans that are not yet encoded, and the last sync taken. -/
structure ClockLog where
  span : Handle → Option SpanReadings
  ended : List Handle
  sync : Option (UInt64 × UInt64)

/-- Without a clock it is always zero. -/
def clockAnswer (hasClock : Bool) (env : Callbacks) : UInt64 := if hasClock then env.now else 0

/-- The answers in a run, and in what comes after it. -/
def clockAnswers (c : Config) (calls : List (Callbacks × Call)) (env : Callbacks) : List UInt64 :=
  (calls.map Prod.fst ++ [env]).map (clockAnswer c.hasClock)

namespace ClockLog

def empty : ClockLog := ⟨fun _ => none, [], none⟩

def edit (L : ClockLog) (h : Handle) (f : SpanReadings → SpanReadings) : ClockLog :=
  { L with span := Function.update L.span h ((L.span h).map f) }

/-- A call that succeeded at the time `now`. -/
def took (L : ClockLog) (now : UInt64) (call : Call) (span? : Option Handle) : ClockLog :=
  match call, span? with
  | .spanStart _ _ _ _, some h | .spanStartRemote _ _ _ _ _, some h =>
      { L with span := Function.update L.span h (some ⟨now, none, []⟩) }
  | .addEvent span _ _, _ => L.edit span fun s => { s with events := s.events ++ [now] }
  | .spanEnd span, _ =>
      { L.edit span (fun s => { s with finish := some now }) with ended := L.ended ++ [span] }
  | .clockSync unixNs leafNowNs, _ => { L with sync := some (unixNs, leafNowNs) }
  | .encode _ _ _ _, _ | .encodeTo _ _ _, _ =>
      { L with span := fun h => (L.span h).filter fun s => s.finish.isNone, ended := [] }
  | _, _ => L

def step (L : ClockLog) (now : UInt64) (call : Call) (o : Outcome) : ClockLog :=
  if o.status = .ok then L.took now call o.span else L

def run (hasClock : Bool) : ClockLog → List (Callbacks × Call) → List Outcome → ClockLog
  | L, (env, call) :: calls, o :: os =>
      run hasClock (L.step (clockAnswer hasClock env) call o) calls os
  | L, _, _ => L

/-- The answers for the ended spans, in the order they ended. -/
def times (L : ClockLog) : List UInt64 :=
  (L.ended.filterMap L.span).flatMap fun s => s.start :: (s.finish.toList ++ s.events)

end ClockLog

/-- The log of a run of a leaf with this configuration. -/
def clockLog (c : Config) (calls : List (Callbacks × Call)) (os : List Outcome) : ClockLog :=
  ClockLog.empty.run c.hasClock calls os

/-! ### The times of the abstract leaf -/

def Span.readings (s : Span) : SpanReadings :=
  ⟨s.start, if s.ended then some s.finish else none, s.events.map Prod.fst⟩

def AbstractLeaf.clockLog (A : AbstractLeaf) : ClockLog where
  span h := (A.span h).map Span.readings
  ended := A.ended
  sync := if A.synced then some (A.syncUnix, A.syncLeaf) else none

section

variable {S S' : Store} {A A' : AbstractLeaf} {env : Callbacks} {now : UInt64} {o : Outcome}

/-- Drawing ids leaves the sync alone. -/
theorem newTraceId_sync {v : LeafVars} {random : List UInt64}
    {r : TraceId × LeafVars × List UInt64} (h : newTraceId v random = some r) :
    r.2.1.synced = v.synced ∧ r.2.1.syncUnix = v.syncUnix ∧ r.2.1.syncLeaf = v.syncLeaf := by
  fun_induction newTraceId v random with
  | case1 v a b rest hi v₁ hhi lo v₂ hlo hzero ih =>
      obtain ⟨-, rfl⟩ := Prod.mk.inj hhi
      obtain ⟨-, rfl⟩ := Prod.mk.inj hlo
      exact ih h
  | case2 v a b rest hi v₁ hhi lo v₂ hlo hne =>
      obtain ⟨-, rfl⟩ := Prod.mk.inj hhi
      obtain ⟨-, rfl⟩ := Prod.mk.inj hlo
      obtain rfl := Option.some.inj h
      exact ⟨rfl, rfl, rfl⟩
  | case3 v random hshort => simp at h

theorem newSpanId_sync {v : LeafVars} {random : List UInt64}
    {r : SpanId × LeafVars × List UInt64} (h : newSpanId v random = some r) :
    r.2.1.synced = v.synced ∧ r.2.1.syncUnix = v.syncUnix ∧ r.2.1.syncLeaf = v.syncLeaf := by
  fun_induction newSpanId v random with
  | case1 v a rest v₁ hnext ih =>
      obtain ⟨-, rfl⟩ := Prod.mk.inj hnext
      exact ih h
  | case2 v a rest word v₁ hword hne =>
      obtain ⟨-, rfl⟩ := Prod.mk.inj hword
      obtain rfl := Option.some.inj h
      exact ⟨rfl, rfl, rfl⟩
  | case3 v => simp at h

theorem drawIds_sync {v : LeafVars} {ids : SpanIds} {random : List UInt64}
    {r : TraceId × SpanId × LeafVars} (h : drawIds v ids random = some r) :
    r.2.2.synced = v.synced ∧ r.2.2.syncUnix = v.syncUnix ∧ r.2.2.syncLeaf = v.syncLeaf := by
  unfold drawIds at h
  cases htrace : ids.traceId with
  | some traceId =>
      simp only [htrace, Option.map_eq_some_iff] at h
      obtain ⟨q, hq, rfl⟩ := h
      exact newSpanId_sync hq
  | none =>
      simp only [htrace] at h
      cases hnew : newTraceId v random with
      | none => simp [hnew] at h
      | some q =>
          simp only [hnew, Option.map_eq_some_iff] at h
          obtain ⟨q', hq', rfl⟩ := h
          obtain ⟨hsynced, hunix, hleaf⟩ := newTraceId_sync hnew
          obtain ⟨hsynced', hunix', hleaf'⟩ := newSpanId_sync hq'
          exact ⟨hsynced'.trans hsynced, hunix'.trans hunix, hleaf'.trans hleaf⟩

theorem AbstractLeaf.clockLog_update (A : AbstractLeaf) (span : Handle) {f : Span → Span}
    {g : SpanReadings → SpanReadings} (h : ∀ s : Span, (f s).readings = g s.readings) :
    (A.update span f).clockLog = A.clockLog.edit span g := by
  have hspans : (fun h' => ((A.update span f).span h').map Span.readings) =
      Function.update (fun h' => (A.span h').map Span.readings) span
        (((A.span span).map Span.readings).map g) := by
    funext h'
    unfold update
    dsimp only
    by_cases heq : h' = span
    · rw [heq, Function.update_self, Function.update_self, Option.map_map, Option.map_map]
      congr 1
      funext s
      exact h s
    · rw [Function.update_of_ne heq, Function.update_of_ne heq]
  unfold clockLog ClockLog.edit
  rw [hspans]
  rfl

/-- An edit that takes no time leaves the log alone. -/
theorem AbstractLeaf.clockLog_untimed (A : AbstractLeaf) (span : Handle) {f : Span → Span}
    (h : ∀ s : Span, (f s).readings = s.readings) : (A.update span f).clockLog = A.clockLog := by
  rw [A.clockLog_update span (g := id) h]
  unfold ClockLog.edit
  rw [Option.map_id, id, Function.update_eq_self]

theorem AbstractLeaf.clockLog_encoded (A : AbstractLeaf) :
    A.encoded.clockLog =
      { A.clockLog with
        span := fun h => (A.clockLog.span h).filter fun s => s.finish.isNone, ended := [] } := by
  unfold encoded clockLog
  congr 1
  funext h
  dsimp only
  cases A.span h with
  | none => rfl
  | some s => cases hended : s.ended <;> simp [Span.readings, hended, Option.filter]

theorem Models.startSpan_clockLog (M : Models S A) (V : S.Valid) {name : Slice UInt8}
    {kind : SpanKind} {ids : SpanIds} (hstart : S.startSpan env name kind ids = some (S', o)) :
    (o = .of .errNoSpace ∧ (A.started env name (some kind) ids o).clockLog = A.clockLog) ∨
      ∃ h, o = ⟨.ok, some h⟩ ∧
        (A.started env name (some kind) ids o).clockLog =
          { A.clockLog with
            span := Function.update A.clockLog.span h
              (some ⟨clockAnswer A.hasClock env, none, []⟩) } := by
  rcases Store.startSpan_cases V hstart with
    ⟨-, rfl⟩ | ⟨slot, traceId, spanId, vars, -, hdraw, -, rfl⟩
  · exact Or.inl ⟨rfl, rfl⟩
  · refine Or.inr ⟨_, rfl, ?_⟩
    rw [M.vars] at hdraw
    obtain ⟨hsynced, hunix, hleaf⟩ := drawIds_sync hdraw
    unfold AbstractLeaf.started AbstractLeaf.clockLog
    rw [hdraw]
    dsimp only at hsynced hunix hleaf ⊢
    rw [hsynced, hunix, hleaf]
    congr 1
    funext h
    by_cases heq : h = mkHandle S.nextGen slot
    · rw [heq, Function.update_self, Function.update_self]
      rfl
    · rw [Function.update_of_ne heq, Function.update_of_ne heq]

/-- Step lemma: the log follows the abstract leaf. -/
theorem Models.step_clockLog (M : Models S A) (V : S.Valid) {call : Call} {S? : Option Store}
    (hstep : Store.step env (some S) call = some (S?, o)) (hA' : A.step env call o = some A') :
    A'.clockLog = A.clockLog.step (clockAnswer A.hasClock env) call o := by
  cases call with
  | spanStart outNull name kind parent =>
      obtain rfl := Option.some.inj hA'
      obtain ⟨⟨S₁, o₁⟩, hstart, heq⟩ := Option.map_eq_some_iff.mp hstep
      obtain ⟨-, rfl⟩ := Prod.mk.inj heq
      rcases Store.spanStart_cases M hstart with ⟨-, rfl | rfl⟩ | ⟨k, rfl, hstarted⟩
      · rfl
      · rfl
      · rcases M.startSpan_clockLog V hstarted with ⟨rfl, hlog⟩ | ⟨h, rfl, hlog⟩
        · exact hlog
        · exact hlog
  | spanStartRemote outNull name kind traceId parentSpanId =>
      obtain rfl := Option.some.inj hA'
      obtain ⟨⟨S₁, o₁⟩, hstart, heq⟩ := Option.map_eq_some_iff.mp hstep
      obtain ⟨-, rfl⟩ := Prod.mk.inj heq
      rcases Store.spanStartRemote_cases hstart with ⟨-, rfl⟩ | ⟨k, rfl, hstarted⟩
      · rfl
      · rcases M.startSpan_clockLog V hstarted with ⟨rfl, hlog⟩ | ⟨h, rfl, hlog⟩
        · exact hlog
        · exact hlog
  | setAttribute span attr =>
      have hedit : ∀ s : Span,
          (AbstractLeaf.edit A.toLeafParams env (.setAttribute span attr) s).readings =
            s.readings := by
        intro s
        cases attr <;> rfl
      obtain ⟨status, span?⟩ := o
      cases status <;> obtain rfl := Option.some.inj hA'
      case ok => exact A.clockLog_untimed span hedit
      all_goals rfl
  | addEvent span name attrs =>
      obtain ⟨status, span?⟩ := o
      cases status <;> obtain rfl := Option.some.inj hA'
      case ok =>
        apply A.clockLog_update span
        intro s
        simp [AbstractLeaf.edit, Span.readings, readClock, clockAnswer]
      all_goals rfl
  | setStatus span code message =>
      obtain ⟨status, span?⟩ := o
      cases status <;> obtain rfl := Option.some.inj hA'
      case ok => exact A.clockLog_untimed span fun s => rfl
      all_goals rfl
  | spanEnd span =>
      obtain ⟨status, span?⟩ := o
      cases status <;> obtain rfl := Option.some.inj hA'
      case ok =>
        have hlog := A.clockLog_update (f := AbstractLeaf.edit A.toLeafParams env (.spanEnd span))
          (g := fun s => { s with finish := some (clockAnswer A.hasClock env) }) span fun s => rfl
        unfold ClockLog.step ClockLog.took
        rw [if_pos rfl]
        dsimp only
        rw [← hlog]
        rfl
      all_goals rfl
  | clockSync unixNs leafNowNs =>
      obtain ⟨status, span?⟩ := o
      cases status <;> obtain rfl := Option.some.inj hA'
      all_goals rfl
  | encode outNull outSize writtenNull backend =>
      obtain ⟨status, span?⟩ := o
      cases status <;> obtain rfl := Option.some.inj hA'
      case ok => exact A.clockLog_encoded
      all_goals rfl
  | encodeTo writeNull writtenNull backend =>
      obtain ⟨status, span?⟩ := o
      cases status <;> obtain rfl := Option.some.inj hA'
      case ok => exact A.clockLog_encoded
      all_goals rfl
  | free => cases hA'

end

end Microtel.Leaf
