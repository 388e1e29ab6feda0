import Microtel.Leaf.BufferInvariant

/-!
Failure atomicity. A call that returns an error may have compacted the buffer or
grown the span table; no later call can tell. All it leaves behind is one count
of the drop counter its kind of failure has, if it has one.
-/

namespace Microtel.Leaf

open ByteMemory

/-! ### What a caller can tell -/

/-- The bytes between the span table and the chunks, once these are compacted. -/
def freeAfterCompact (w : Word32) (st : LeafState) : Nat :=
  (compact w st).dataLow.toNat - tableEnd st

/-- Two leaves agree on everything a caller can see of them at once: liveness
and, while they live, the handles that resolve, the batch, the ids to come and
the sync state and counters, the configuration, and the space left. -/
structure Alike (w : Word32) (st st' : LeafState) : Prop where
  live : checkLeaf st = checkLeaf st'
  resolves : checkLeaf st = .ok → ∀ h, resolve st h = resolve st' h
  batch : checkLeaf st = .ok → ∀ env, batchView w st env = batchView w st' env
  vars : checkLeaf st = .ok → st.toLeafVars = st'.toLeafVars
  params : checkLeaf st = .ok → st.toLeafParams = st'.toLeafParams
  space : checkLeaf st = .ok → freeAfterCompact w st = freeAfterCompact w st'

/-- No run of calls tells the two leaves apart. -/
def Indistinguishable (w : Word32) (st st' : LeafState) : Prop :=
  ∀ calls, Option.Rel (fun p p' => p.2 = p'.2 ∧ Alike w p.1 p'.1) (run w st calls) (run w st' calls)

theorem Alike.refl (w : Word32) (st : LeafState) : Alike w st st :=
  ⟨rfl, fun _ _ => rfl, fun _ _ => rfl, fun _ => rfl, fun _ => rfl, fun _ => rfl⟩

theorem Indistinguishable.refl (w : Word32) (st : LeafState) : Indistinguishable w st st := by
  intro calls
  cases run w st calls with
  | none => exact Option.Rel.none
  | some p => exact Option.Rel.some ⟨rfl, Alike.refl w p.1⟩

section

variable {w : Word32} {st st' : LeafState} {S : Store} {cs : List UInt32}
  {ch : UInt16 → List UInt32}

theorem Rep.freeAfterCompact (R : Rep st S cs ch) : freeAfterCompact w st = S.room := by
  obtain ⟨cs', ch', -, -, -, hlow⟩ := R.heap.compact (w := w)
  have hbytes := R.heapBytes_eq
  rw [R.heap.liveBytes_eq R.clean, hbytes, R.capacity] at hlow
  unfold Leaf.freeAfterCompact Store.room Store.usedBytes
  rw [hlow, R.tableEnd_eq]
  omega

/-- Leaves with the same store are alike. -/
theorem Tracks.alike {S? : Option Store} (h : Tracks st S?) (h' : Tracks st' S?) :
    Alike w st st' := by
  cases S? with
  | none =>
      have hmagic : st.magic ≠ leafMagic := h
      have hmagic' : st'.magic ≠ leafMagic := h'
      have hdead : checkLeaf st ≠ .ok := by simp [checkLeaf, hmagic]
      have hsame : checkLeaf st = checkLeaf st' := by simp [checkLeaf, hmagic, hmagic']
      exact ⟨hsame, fun hlive => absurd hlive hdead, fun hlive => absurd hlive hdead,
        fun hlive => absurd hlive hdead, fun hlive => absurd hlive hdead,
        fun hlive => absurd hlive hdead⟩
  | some S =>
      obtain ⟨V, cs, ch, R⟩ := h
      obtain ⟨-, cs', ch', R'⟩ := h'
      refine ⟨?_, ?_, ?_, ?_, ?_, ?_⟩
      · rw [R.checkLeaf, R'.checkLeaf]
      · intro _ span
        rw [R.resolve, R'.resolve]
      · intro _ env
        rw [R.batchView V, R'.batchView V]
      · intro _
        rw [R.vars, R'.vars]
      · intro _
        rw [R.params, R'.params]
      · intro _
        rw [R.freeAfterCompact, R'.freeAfterCompact]

/-- Leaves with the same store cannot be told apart. -/
theorem Tracks.indistinguishable {S? : Option Store} (h : Tracks st S?) (h' : Tracks st' S?) :
    Indistinguishable w st st' := by
  intro calls
  obtain ⟨hsim, -⟩ := h.run (w := w) (ω := w) calls
  obtain ⟨hsim', -⟩ := h'.run (w := w) (ω := w) calls
  generalize Leaf.run w st calls = r at hsim ⊢
  generalize Leaf.run w st' calls = r' at hsim' ⊢
  generalize Store.run S? calls = q at hsim hsim'
  cases hsim with
  | none =>
      cases hsim'
      exact Option.Rel.none
  | some hp =>
      cases hsim' with
      | some hp' => exact Option.Rel.some ⟨hp.1.trans hp'.1.symm, hp.2.alike hp'.2⟩

/-! ### What a failed call counts -/

/-- The drop counter a failed call adds one to. -/
def charge (call : Call) (status : Status) (st : LeafState) : LeafState :=
  match call, status with
  | .spanStart _ _ _ _, .errNoSpace => countDroppedSpan st
  | .spanStartRemote _ _ _ _ _, .errNoSpace => countDroppedSpan st
  | .setAttribute _ _, .errNoSpace => countDroppedAttribute st
  | .setAttribute _ _, .errLimit => countDroppedAttribute st
  | .addEvent _ _ _, .errNoSpace => countDroppedEvent st
  | .addEvent _ _ _, .errLimit => countDroppedEvent st
  | _, _ => st

namespace Store

/-- The same for the store. -/
def charge (call : Call) (status : Status) (S : Store) : Store :=
  match call, status with
  | .spanStart _ _ _ _, .errNoSpace => S.dropSpan
  | .spanStartRemote _ _ _ _ _, .errNoSpace => S.dropSpan
  | .setAttribute _ _, .errNoSpace => S.dropAttributes 1
  | .setAttribute _ _, .errLimit => S.dropAttributes 1
  | .addEvent _ _ _, .errNoSpace => S.dropEvent
  | .addEvent _ _ _, .errLimit => S.dropEvent
  | _, _ => S

theorem startSpan_error (V : S.Valid) {env : Callbacks} {name : Slice UInt8} {kind : SpanKind}
    {ids : SpanIds} {S' : Store} {o : Outcome}
    (hstart : S.startSpan env name kind ids = some (S', o)) (herr : o.status ≠ .ok) :
    S' = S.dropSpan ∧ o.status = .errNoSpace := by
  rcases startSpan_cases V hstart with ⟨rfl, rfl⟩ | ⟨slot, traceId, spanId, vars, -, -, -, rfl⟩
  · exact ⟨rfl, rfl⟩
  · exact absurd rfl herr

theorem spanStart_error (V : S.Valid) {env : Callbacks} {outNull : Bool} {name : Slice UInt8}
    {kind : Option SpanKind} {parent : Option Handle} {S' : Store} {o : Outcome}
    (hstart : S.spanStart env outNull name kind parent = some (S', o)) (herr : o.status ≠ .ok) :
    S' = S.charge (.spanStart outNull name kind parent) o.status := by
  have hdrop : ∀ k ids, S.startSpan env name k ids = some (S', o) →
      S' = S.charge (.spanStart outNull name kind parent) o.status := by
    intro k ids hs
    obtain ⟨rfl, hspace⟩ := startSpan_error V hs herr
    rw [hspace]
    rfl
  unfold spanStart at hstart
  split at hstart
  · obtain ⟨rfl, rfl⟩ := Prod.mk.inj (Option.some.inj hstart)
    rfl
  · split at hstart
    · exact hdrop _ _ hstart
    · split at hstart
      · obtain ⟨rfl, rfl⟩ := Prod.mk.inj (Option.some.inj hstart)
        rfl
      · exact hdrop _ _ hstart

theorem spanStartRemote_error (V : S.Valid) {env : Callbacks} {outNull : Bool} {name : Slice UInt8}
    {kind : Option SpanKind} {traceId : Option TraceId} {parentSpanId : Option SpanId} {S' : Store}
    {o : Outcome}
    (hstart : S.spanStartRemote env outNull name kind traceId parentSpanId = some (S', o))
    (herr : o.status ≠ .ok) :
    S' = S.charge (.spanStartRemote outNull name kind traceId parentSpanId) o.status := by
  unfold spanStartRemote at hstart
  split at hstart
  · split at hstart
    · obtain ⟨rfl, rfl⟩ := Prod.mk.inj (Option.some.inj hstart)
      rfl
    · obtain ⟨rfl, hspace⟩ := startSpan_error V hstart herr
      rw [hspace]
      rfl
  · obtain ⟨rfl, rfl⟩ := Prod.mk.inj (Option.some.inj hstart)
    rfl

theorem encode_error {env : Callbacks} {argsOk : Bool} {backend : BatchView → Status}
    (herr : (S.encode env argsOk backend).2 ≠ .ok) : (S.encode env argsOk backend).1 = S := by
  unfold encode at herr ⊢
  split
  · rfl
  · next hargs =>
    rw [if_neg hargs] at herr
    split
    · next hok =>
      rw [if_pos hok] at herr
      exact absurd rfl herr
    · rfl

/-- A failed call changes the store by one drop count at most. -/
theorem step_error (V : S.Valid) {env : Callbacks} {call : Call} {S? : Option Store} {o : Outcome}
    (hstep : Store.step env (some S) call = some (S?, o)) (herr : o.status ≠ .ok) :
    S? = some (S.charge call o.status) := by
  cases call with
  | spanStart outNull name kind parent =>
      obtain ⟨p, hp, heq⟩ := Option.map_eq_some_iff.mp hstep
      obtain ⟨rfl, rfl⟩ := Prod.mk.inj heq
      rw [spanStart_error V hp herr]
  | spanStartRemote outNull name kind traceId parentSpanId =>
      obtain ⟨p, hp, heq⟩ := Option.map_eq_some_iff.mp hstep
      obtain ⟨rfl, rfl⟩ := Prod.mk.inj heq
      rw [spanStartRemote_error V hp herr]
  | setAttribute span attr =>
      obtain ⟨rfl, rfl⟩ := Prod.mk.inj (Option.some.inj hstep)
      have hcases := S.setAttribute_cases env span attr
      generalize S.setAttribute span attr = r at hcases herr
      obtain ⟨S', status⟩ := r
      rcases hcases with ⟨rfl, -⟩ | ⟨rfl | rfl, rfl⟩ | ⟨rfl | rfl, rfl⟩
      · exact absurd rfl herr
      · rfl
      · rfl
      · rfl
      · rfl
  | addEvent span name attrs =>
      obtain ⟨rfl, rfl⟩ := Prod.mk.inj (Option.some.inj hstep)
      have hcases := S.addEvent_cases env span name attrs
      generalize S.addEvent env span name attrs = r at hcases herr
      obtain ⟨S', status⟩ := r
      rcases hcases with ⟨rfl, -⟩ | ⟨rfl | rfl, rfl⟩ | ⟨rfl | rfl, rfl⟩
      · exact absurd rfl herr
      · rfl
      · rfl
      · rfl
      · rfl
  | setStatus span code message =>
      obtain ⟨rfl, rfl⟩ := Prod.mk.inj (Option.some.inj hstep)
      rcases setStatus_cases V env span code message with ⟨hok, -⟩ | ⟨-, hS⟩
      · exact absurd hok herr
      · exact congrArg some hS
  | spanEnd span =>
      obtain ⟨rfl, rfl⟩ := Prod.mk.inj (Option.some.inj hstep)
      rcases S.spanEnd_cases env span with ⟨hok, -⟩ | ⟨-, hS⟩
      · exact absurd hok herr
      · exact congrArg some hS
  | clockSync unixNs leafNowNs =>
      obtain ⟨rfl, rfl⟩ := Prod.mk.inj (Option.some.inj hstep)
      unfold clockSync at herr ⊢
      split
      · rfl
      · next hok =>
        rw [if_neg hok] at herr
        exact absurd rfl herr
  | encode outNull outSize writtenNull backend =>
      obtain ⟨rfl, rfl⟩ := Prod.mk.inj (Option.some.inj hstep)
      exact congrArg some (encode_error herr)
  | encodeTo writeNull writtenNull backend =>
      obtain ⟨rfl, rfl⟩ := Prod.mk.inj (Option.some.inj hstep)
      exact congrArg some (encode_error herr)
  | free =>
      obtain ⟨rfl, rfl⟩ := Prod.mk.inj (Option.some.inj hstep)
      exact absurd rfl herr

end Store

theorem Rep.charge (R : Rep st S cs ch) (call : Call) (status : Status) :
    Rep (charge call status st) (S.charge call status) cs ch := by
  unfold Leaf.charge Store.charge
  split
  · exact R.dropSpan
  · exact R.dropSpan
  · exact R.dropAttributes 1
  · exact R.dropAttributes 1
  · exact R.dropEvent
  · exact R.dropEvent
  · exact R

/-- A failed call leaves a leaf that cannot be told from the one before it, but
for the drop counter its failure adds one to. -/
theorem Tracks.step_error {S? : Option Store} (h : Tracks st S?) {env : Callbacks} {call : Call}
    {o : Outcome} (hstep : Leaf.step w st env call = some (st', o)) (herr : o.status ≠ .ok) :
    Indistinguishable w st' (Leaf.charge call o.status st) := by
  obtain ⟨hsim, -⟩ := h.step (w := w) (ω := w) env call
  cases S? with
  | none =>
      have hcall : call ≠ .free := by
        rintro rfl
        obtain ⟨-, rfl⟩ := Prod.mk.inj (Option.some.inj hstep)
        exact herr rfl
      rw [step_freed_eq h env hcall] at hstep
      obtain ⟨rfl, rfl⟩ := Prod.mk.inj (Option.some.inj hstep)
      have hcharge : Leaf.charge call .errState st = st := by cases call <;> rfl
      rw [Outcome.of, hcharge]
      exact Indistinguishable.refl w st
  | some S =>
      obtain ⟨V, cs, ch, R⟩ := h
      rw [hstep] at hsim
      cases hstore : Store.step env (some S) call with
      | none =>
          rw [hstore] at hsim
          cases hsim
      | some p =>
          obtain ⟨S', o'⟩ := p
          rw [hstore] at hsim
          cases hsim with
          | some hp =>
              obtain ⟨rfl, hfinal⟩ := hp
              obtain rfl := Store.step_error V hstore herr
              have hcharged : Tracks (Leaf.charge call o.status st)
                  (some (S.charge call o.status)) :=
                ⟨hfinal.1, cs, ch, R.charge call o.status⟩
              exact hfinal.indistinguishable hcharged

end

/-- Failure atomicity: after any run, a call that returns an error is invisible
to every later run of calls, apart from the drop counter it is charged to; and
an initialisation that fails writes nothing. -/
theorem failure_atomic (w : Word32) (leaf : LeafState) (leafSize bufferSize : Nat)
    (config : Option Config) (buffer : Option Mem) :
    (∀ st₀ buffer' calls st os env call st' o,
      init w leaf leafSize config buffer bufferSize = (.ok, st₀, buffer') →
      run w st₀ calls = some (st, os) → step w st env call = some (st', o) → o.status ≠ .ok →
      Indistinguishable w st' (charge call o.status st)) ∧
    ∀ status st' buffer', init w leaf leafSize config buffer bufferSize = (status, st', buffer') →
      status ≠ .ok → st' = leaf ∧ buffer' = buffer := by
  refine ⟨?_, ?_⟩
  · intro st₀ buffer' calls st os env call st' o hinit hrun hstep herr
    obtain ⟨c, S?, -, -, -, hfinal⟩ := run_tracks hinit hrun
    exact hfinal.step_error hstep herr
  · intro status st' buffer' hinit herr
    exact init_fail hinit herr

/-- A value too long for the buffer of `pumpInit`. -/
def longValue : Call :=
  .setAttribute 0x10000 (some ⟨.items (ascii "bar"), .string (.items (List.replicate 100 0))⟩)

theorem failure_atomic_pump :
    (∃ st os st', run Word32.wrap pumpInit.2.1 (pumpCalls.take 2) = some (st, os) ∧
      step Word32.wrap st pumpEnv longValue = some (st', .of .errNoSpace) ∧
      Indistinguishable Word32.wrap st' (countDroppedAttribute st)) ∧
    (init Word32.wrap pumpInit.2.1 sizeofLeaf (some pumpConfig) (some ⟨fun _ => 0⟩) 10).2.1 =
      pumpInit.2.1 := by
  refine ⟨?_, ?_⟩
  · have hsome : (run Word32.wrap pumpInit.2.1 (pumpCalls.take 2)).isSome = true := by
      decide +kernel
    obtain ⟨⟨st, os⟩, hrun⟩ := Option.isSome_iff_exists.mp hsome
    have hfails : ((run Word32.wrap pumpInit.2.1 (pumpCalls.take 2)).bind fun r =>
        (step Word32.wrap r.1 pumpEnv longValue).map Prod.snd) = some (.of .errNoSpace) := by
      decide +kernel
    rw [hrun, Option.bind_some] at hfails
    obtain ⟨⟨st', o⟩, hstep, ho⟩ := Option.map_eq_some_iff.mp hfails
    have ho' : o = .of .errNoSpace := ho
    subst ho'
    refine ⟨st, os, st', hrun, hstep, ?_⟩
    exact (failure_atomic _ _ _ _ _ _).1 _ _ _ _ _ _ _ _ _ pumpInit_ok hrun hstep (by decide)
  · have hstatus : (init Word32.wrap pumpInit.2.1 sizeofLeaf (some pumpConfig)
        (some ⟨fun _ => 0⟩) 10).1 ≠ .ok := by decide +kernel
    have hfail := (failure_atomic Word32.wrap pumpInit.2.1 sizeofLeaf 10 (some pumpConfig)
      (some ⟨fun _ => 0⟩)).2
    generalize init Word32.wrap pumpInit.2.1 sizeofLeaf (some pumpConfig)
      (some ⟨fun _ => 0⟩) 10 = r at hstatus hfail ⊢
    obtain ⟨status, st', buffer'⟩ := r
    exact (hfail status st' buffer' rfl hstatus).1

end Microtel.Leaf
