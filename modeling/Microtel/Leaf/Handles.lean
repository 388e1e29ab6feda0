import Microtel.Leaf.AbstractRuns

/-!
Handles. A start never returns the handle of an open or ended span, so a handle
names the span it was returned for until that span is encoded. What it names
after that depends on the 16-bit generation: the 65535th start after its own
gets the same generation again, and with the same slot the same handle.
-/

namespace Microtel.Leaf

/-! ### What a handle names -/

/-- The handles of the open and ended spans, in slot order. -/
def liveHandles (st : LeafState) : List Handle :=
  (slots st).filterMap fun s =>
    if (getSlot st s).state = .free then none else some (mkHandle (getSlot st s).gen s)

/-- The batch with the times of the leaf's own clock. -/
def rawBatch (st : LeafState) : Batch := { buildBatch st ⟨0, []⟩ with timeOffset := 0 }

/-- The span a handle resolves to, as the cursors read it from its slot, and
whether it has ended. -/
def spanOf (w : Word32) (st : LeafState) (h : Handle) : Option (SpanView × Bool) :=
  (resolve st h).bind fun slot =>
    (nextSpan (rawBatch st) ⟨slot.toUInt32, 1⟩).map fun p =>
      (spanView w (rawBatch st) p.1, decide ((getSlot st slot).state = .ended))

/-- Whether a call is made with this handle. -/
def Call.uses (h : Handle) : Call → Bool
  | .spanStart _ _ _ parent => parent = some h
  | .setAttribute span _ => span = h
  | .addEvent span _ _ => span = h
  | .setStatus span _ _ => span = h
  | .spanEnd span => span = h
  | _ => false

/-- Whether the arguments of a call are valid, apart from its handle. -/
def Call.argsValid : Call → Bool
  | .spanStart outNull name kind _ => (startArgsValid outNull name kind).isSome
  | .setAttribute _ attr => attr.any kvValid
  | .addEvent _ name attrs => name.readable && attrs.readable && kvsValid attrs.data
  | .setStatus _ code message => code.isSome && message.readable
  | _ => true

/-- Every call made with the handle is rejected and changes nothing; an invalid
argument beside the handle is reported first. -/
def Rejects (w : Word32) (st : LeafState) (h : Handle) : Prop :=
  ∀ env call, call.uses h = true →
    step w st env call = some (st, .of .errState) ∨
      call.argsValid = false ∧ step w st env call = some (st, .of .errArg)

/-- The span of handle `h` after one more call, given how the call ended; `none`
once it is encoded. -/
def Span.after (p : LeafParams) (h : Handle) (env : Callbacks) (call : Call) (o : Outcome)
    (s : Span) : Option Span :=
  if o.status = .ok then
    match call with
    | .encode _ _ _ _ => if s.ended then none else some s
    | .encodeTo _ _ _ => if s.ended then none else some s
    | .free => none
    | _ => if call.uses h then some (AbstractLeaf.edit p env call s) else some s
  else some s

/-- The span of handle `h` after some calls: changed by those made with `h`
alone, and gone with the first encode after its end. -/
def lives (p : LeafParams) (h : Handle) :
    Option Span → List (Callbacks × Call) → List Outcome → Option Span
  | s?, (env, call) :: calls, o :: os => lives p h (s?.bind (Span.after p h env call o)) calls os
  | s?, _, _ => s?

/-- The number of spans started. -/
def starts (os : List Outcome) : Nat := os.countP fun o => o.span.isSome

def slotOf (h : Handle) : UInt16 := (h &&& 0xffff).toUInt16

/-- Counted from the start that returned `h`, the next start being number `n`,
a start whose number is a multiple of 65535 took the slot of `h`. -/
def WrapsOnto (h : Handle) (n : Nat) (os : List Outcome) : Prop :=
  ∃ before o after h', os = before ++ o :: after ∧ o.span = some h' ∧ slotOf h' = slotOf h ∧
    65535 ∣ n + starts before

/-! ### Generations -/

theorem nextGeneration_toNat {gen : UInt16} (h : gen ≠ 0) :
    (nextGeneration gen).toNat = 1 + gen.toNat % 65535 := by
  have hlt := gen.toNat_lt
  have hpos : gen.toNat ≠ 0 := fun h0 => h (UInt16.toNat_inj.mp h0)
  unfold nextGeneration
  split
  · next hnone =>
    rw [hnone]
    rfl
  · next hnone =>
    have hne : gen.toNat ≠ 65535 := fun h => hnone (UInt16.toNat_inj.mp h)
    have hone : (1 : UInt16).toNat = 1 := rfl
    rw [UInt16.toNat_add, hone]
    omega

/-- The generation after `n` more starts. -/
theorem nextGeneration_iterate {gen : UInt16} (h : gen ≠ 0) (n : Nat) :
    (nextGeneration^[n] gen).toNat = 1 + (gen.toNat - 1 + n) % 65535 := by
  have hlt := gen.toNat_lt
  have hpos : gen.toNat ≠ 0 := fun h0 => h (UInt16.toNat_inj.mp h0)
  induction n with
  | zero =>
      rw [Function.iterate_zero, id]
      omega
  | succ n ih =>
      have hne : nextGeneration^[n] gen ≠ 0 := by
        intro h0
        rw [h0] at ih
        have hzero : (0 : UInt16).toNat = 0 := rfl
        omega
      rw [Function.iterate_succ_apply', nextGeneration_toNat hne, ih]
      omega

theorem dvd_of_nextGeneration_iterate {gen : UInt16} (h : gen ≠ 0) {n : Nat}
    (heq : nextGeneration^[n] gen = gen) : 65535 ∣ n := by
  have hiter := nextGeneration_iterate h n
  have hlt := gen.toNat_lt
  have hpos : gen.toNat ≠ 0 := fun h0 => h (UInt16.toNat_inj.mp h0)
  rw [heq] at hiter
  omega

/-! ### One call -/

section

variable {S S' : Store} {env : Callbacks} {call : Call} {o : Outcome} {h : Handle}

/-- A span has been started: its handle carries the generation, which moves on,
and a slot that was free. -/
def Store.Starts (S : Store) (o : Outcome) (S' : Store) : Prop :=
  ∃ slot e, S.entry slot = none ∧ S'.entry slot = some e ∧ e.gen = S.nextGen ∧ e.ended = false ∧
    o = ⟨.ok, some (mkHandle S.nextGen slot)⟩ ∧ S'.nextGen = nextGeneration S.nextGen

theorem Store.startSpan_handle (V : S.Valid) {name : Slice UInt8} {kind : SpanKind} {ids : SpanIds}
    (hstart : S.startSpan env name kind ids = some (S', o)) :
    (o.span = none ∧ S'.nextGen = S.nextGen) ∨ S.Starts o S' := by
  rcases Store.startSpan_cases V hstart with
    ⟨rfl, rfl⟩ | ⟨slot, traceId, spanId, vars, hfree, -, rfl, rfl⟩
  · exact Or.inl ⟨rfl, rfl⟩
  · exact Or.inr ⟨slot, _, hfree, Function.update_self _ _ _, rfl, rfl, rfl, rfl⟩

theorem Store.Edits.nextGen {f : Span → Span} (E : S.Edits h f S') : S'.nextGen = S.nextGen := by
  obtain ⟨s, e, e', -, -, -, -, rfl⟩ := E
  rfl

theorem Store.step_handle (V : S.Valid) (hstep : Store.step env (some S) call = some (some S', o)) :
    (o.span = none ∧ S'.nextGen = S.nextGen) ∨ S.Starts o S' := by
  have hret : ∀ r : Store × Status, r.1.nextGen = S.nextGen →
      returnsStore r = some (some S', o) → o.span = none ∧ S'.nextGen = S.nextGen := by
    intro r hr heq
    obtain ⟨hS, rfl⟩ := Prod.mk.inj (Option.some.inj heq)
    rw [← Option.some.inj hS]
    exact ⟨rfl, hr⟩
  have hreject : ∀ {status}, some (S, Outcome.of status) = some (S', o) →
      o.span = none ∧ S'.nextGen = S.nextGen := by
    intro status heq
    obtain ⟨rfl, rfl⟩ := Prod.mk.inj (Option.some.inj heq)
    exact ⟨rfl, rfl⟩
  cases call with
  | spanStart outNull name kind parent =>
      obtain ⟨⟨S₁, o₁⟩, hp, heq⟩ := Option.map_eq_some_iff.mp hstep
      obtain ⟨hS, rfl⟩ := Prod.mk.inj heq
      obtain rfl := Option.some.inj hS
      unfold Store.spanStart at hp
      split at hp
      · exact Or.inl (hreject hp)
      · split at hp
        · exact Store.startSpan_handle V hp
        · split at hp
          · exact Or.inl (hreject hp)
          · exact Store.startSpan_handle V hp
  | spanStartRemote outNull name kind traceId parentSpanId =>
      obtain ⟨⟨S₁, o₁⟩, hp, heq⟩ := Option.map_eq_some_iff.mp hstep
      obtain ⟨hS, rfl⟩ := Prod.mk.inj heq
      obtain rfl := Option.some.inj hS
      unfold Store.spanStartRemote at hp
      split at hp
      · split at hp
        · exact Or.inl (hreject hp)
        · exact Store.startSpan_handle V hp
      · exact Or.inl (hreject hp)
  | setAttribute span attr =>
      left
      apply hret _ _ hstep
      rcases S.setAttribute_cases env span attr with ⟨-, E⟩ | ⟨-, hS⟩ | ⟨-, hS⟩
      · exact E.nextGen
      · rw [hS]
        rfl
      · rw [hS]
  | addEvent span name attrs =>
      left
      apply hret _ _ hstep
      rcases S.addEvent_cases env span name attrs with ⟨-, S₁, E, hS⟩ | ⟨-, hS⟩ | ⟨-, hS⟩
      · rw [hS]
        exact E.nextGen
      · rw [hS]
        rfl
      · rw [hS]
  | setStatus span code message =>
      left
      apply hret _ _ hstep
      rcases Store.setStatus_cases V env span code message with ⟨-, E⟩ | ⟨-, hS⟩
      · exact E.nextGen
      · rw [hS]
  | spanEnd span =>
      left
      apply hret _ _ hstep
      rcases S.spanEnd_cases env span with ⟨-, S₁, s, e, -, E, hS⟩ | ⟨-, hS⟩
      · rw [hS]
        exact E.nextGen
      · rw [hS]
  | clockSync unixNs leafNowNs =>
      left
      apply hret _ _ hstep
      unfold Store.clockSync
      split <;> rfl
  | encode outNull outSize writtenNull backend =>
      left
      apply hret _ _ hstep
      unfold Store.encode
      split
      · rfl
      · split <;> rfl
  | encodeTo writeNull writtenNull backend =>
      left
      apply hret _ _ hstep
      unfold Store.encode
      split
      · rfl
      · split <;> rfl
  | free => simp [Store.step] at hstep

/-- The abstract leaf of a store. -/
def Store.abstract (S : Store) : AbstractLeaf where
  toLeafParams := S.toLeafParams
  toLeafVars := S.toLeafVars
  resource := S.resource
  scopeName := S.scopeName
  scopeVersion := S.scopeVersion
  span := fun h => (S.resolve h).map fun p => p.2.toSpan
  ended := S.ended.filterMap S.handleOf

theorem Models.abstract (S : Store) : Models S S.abstract :=
  ⟨rfl, rfl, rfl, rfl, rfl, fun _ => rfl, rfl⟩

theorem AbstractLeaf.started_span {A : AbstractLeaf} {name : Slice UInt8} {kind : Option SpanKind}
    {ids : SpanIds} (hspan : o.span ≠ some h) :
    (A.started env name kind ids o).span h = A.span h := by
  unfold AbstractLeaf.started
  split
  · next h' _ _ _ _ _ hspan' _ =>
    have hne : h ≠ h' := by
      rintro rfl
      exact hspan hspan'
    exact Function.update_of_ne hne _ _
  · rfl
  · rfl

theorem AbstractLeaf.update_span (A : AbstractLeaf) (h h' : Handle) (f : Span → Span) :
    (A.update h' f).span h = (A.span h).bind fun s => if h' = h then some (f s) else some s := by
  unfold AbstractLeaf.update
  dsimp only
  by_cases heq : h' = h
  · rw [heq, Function.update_self]
    cases A.span h <;> simp
  · rw [Function.update_of_ne (Ne.symm heq)]
    cases A.span h <;> simp [heq]

theorem AbstractLeaf.encoded_span (A : AbstractLeaf) (h : Handle) :
    A.encoded.span h = (A.span h).bind fun s => if s.ended then none else some s := by
  unfold AbstractLeaf.encoded
  dsimp only
  cases A.span h with
  | none => rfl
  | some s => cases hs : s.ended <;> simp [hs]

theorem AbstractLeaf.step_span_error {A A' : AbstractLeaf} (hstep : A.step env call o = some A')
    (herr : o.status ≠ .ok) : A'.span = A.span := by
  have hstart : ∀ name kind ids, (A.started env name kind ids o).span = A.span := by
    intro name kind ids
    unfold AbstractLeaf.started
    split
    · next hok _ _ => exact absurd hok herr
    · rfl
    · rfl
  unfold AbstractLeaf.step at hstep
  simp only [if_neg herr] at hstep
  cases call with
  | free => simp at hstep
  | spanStart outNull name kind parent =>
      obtain rfl := Option.some.inj hstep
      exact hstart _ _ _
  | spanStartRemote outNull name kind traceId parentSpanId =>
      obtain rfl := Option.some.inj hstep
      exact hstart _ _ _
  | setAttribute span attr =>
      dsimp only at hstep
      split at hstep
      · next hok => exact absurd hok herr
      all_goals
        obtain rfl := Option.some.inj hstep
        rfl
  | addEvent span name attrs =>
      dsimp only at hstep
      split at hstep
      · next hok => exact absurd hok herr
      all_goals
        obtain rfl := Option.some.inj hstep
        rfl
  | _ =>
      obtain rfl := Option.some.inj hstep
      rfl

/-- One call changes the span of a handle as `Span.after` says. -/
theorem AbstractLeaf.step_span {A A' : AbstractLeaf} (hstep : A.step env call o = some A')
    (hspan : o.span ≠ some h) :
    A'.span h = (A.span h).bind (Span.after A.toLeafParams h env call o) := by
  have hsame : (∀ s, Span.after A.toLeafParams h env call o s = some s) →
      A.span h = (A.span h).bind (Span.after A.toLeafParams h env call o) := by
    intro hafter
    cases A.span h with
    | none => rfl
    | some s => exact (hafter s).symm
  by_cases hok : o.status = .ok
  · unfold AbstractLeaf.step at hstep
    simp only [hok, if_true] at hstep
    have hedit : ∀ h', (∀ s, Span.after A.toLeafParams h env call o s =
        if h' = h then some (AbstractLeaf.edit A.toLeafParams env call s) else some s) →
        (A.update h' (AbstractLeaf.edit A.toLeafParams env call)).span h =
          (A.span h).bind (Span.after A.toLeafParams h env call o) := by
      intro h' hafter
      rw [AbstractLeaf.update_span, funext hafter]
    have hencode : (∀ s, Span.after A.toLeafParams h env call o s =
        if s.ended then none else some s) →
        A.encoded.span h = (A.span h).bind (Span.after A.toLeafParams h env call o) := by
      intro hafter
      rw [AbstractLeaf.encoded_span, funext hafter]
    cases call with
    | free => simp at hstep
    | spanStart outNull name kind parent =>
        obtain rfl := Option.some.inj hstep
        rw [AbstractLeaf.started_span hspan]
        exact hsame fun s => by simp [Span.after, AbstractLeaf.edit]
    | spanStartRemote outNull name kind traceId parentSpanId =>
        obtain rfl := Option.some.inj hstep
        rw [AbstractLeaf.started_span hspan]
        exact hsame fun s => by simp [Span.after, AbstractLeaf.edit]
    | setAttribute span attr =>
        obtain rfl := Option.some.inj hstep
        exact hedit span fun s => by simp [Span.after, hok, Call.uses]
    | addEvent span name attrs =>
        obtain rfl := Option.some.inj hstep
        exact hedit span fun s => by simp [Span.after, hok, Call.uses]
    | setStatus span code message =>
        obtain rfl := Option.some.inj hstep
        exact hedit span fun s => by simp [Span.after, hok, Call.uses]
    | spanEnd span =>
        obtain rfl := Option.some.inj hstep
        exact hedit span fun s => by simp [Span.after, hok, Call.uses]
    | clockSync unixNs leafNowNs =>
        obtain rfl := Option.some.inj hstep
        exact hsame fun s => by simp [Span.after, AbstractLeaf.edit]
    | encode outNull outSize writtenNull backend =>
        obtain rfl := Option.some.inj hstep
        exact hencode fun s => if_pos hok
    | encodeTo writeNull writtenNull backend =>
        obtain rfl := Option.some.inj hstep
        exact hencode fun s => if_pos hok
  · rw [AbstractLeaf.step_span_error hstep hok]
    exact hsame fun s => if_neg hok

theorem AbstractLeaf.step_params {A A' : AbstractLeaf} (hstep : A.step env call o = some A') :
    A'.toLeafParams = A.toLeafParams := by
  have hstart : ∀ name kind ids, (A.started env name kind ids o).toLeafParams = A.toLeafParams := by
    intro name kind ids
    unfold AbstractLeaf.started
    split <;> rfl
  unfold AbstractLeaf.step at hstep
  cases call with
  | free => simp at hstep
  | spanStart outNull name kind parent =>
      obtain rfl := Option.some.inj hstep
      exact hstart _ _ _
  | spanStartRemote outNull name kind traceId parentSpanId =>
      obtain rfl := Option.some.inj hstep
      exact hstart _ _ _
  | _ =>
      dsimp only at hstep
      split at hstep <;>
      · obtain rfl := Option.some.inj hstep
        rfl

/-- Step lemma: one call of the store changes the span of a handle as
`Span.after` says, unless it returns that handle; it never returns the handle
of a span there is. -/
theorem Store.step_span (V : S.Valid) (hstep : Store.step env (some S) call = some (some S', o)) :
    S'.toLeafParams = S.toLeafParams ∧ (o.span = some h → S.resolve h = none) ∧
      (o.span ≠ some h → (S'.resolve h).map (fun p => p.2.toSpan) =
        ((S.resolve h).map fun p => p.2.toSpan).bind
          (Span.after S.toLeafParams h env call o)) := by
  have hrel := (Models.abstract S).step V hstep
  cases habs : S.abstract.step env call o with
  | none =>
      rw [habs] at hrel
      cases hrel
  | some A' =>
      rw [habs] at hrel
      cases hrel with
      | some M =>
          refine ⟨M.params.trans (AbstractLeaf.step_params habs), ?_, ?_⟩
          · intro hspan
            rcases Store.step_handle V hstep with ⟨hnone, -⟩ | ⟨slot, -, hfree, -, -, -, rfl, -⟩
            · rw [hnone] at hspan
              simp at hspan
            · obtain rfl := Option.some.inj hspan
              cases hres : S.resolve (mkHandle S.nextGen slot) with
              | none => rfl
              | some p =>
                  obtain ⟨he, hmk⟩ := (Store.resolve_eq_some V).mp hres
                  rw [← (mkHandle_inj.mp hmk).2, hfree] at he
                  simp at he
          · intro hspan
            rw [← M.span]
            exact AbstractLeaf.step_span habs hspan

/-! ### Runs -/

theorem lives_none (p : LeafParams) (h : Handle) (calls : List (Callbacks × Call))
    (os : List Outcome) : lives p h none calls os = none := by
  induction calls generalizing os with
  | nil => rfl
  | cons x calls ih =>
      cases os with
      | nil => rfl
      | cons o os => exact ih os

theorem WrapsOnto.cons {n : Nat} {os : List Outcome} (hwraps : WrapsOnto h (n + starts [o]) os) :
    WrapsOnto h n (o :: os) := by
  obtain ⟨before, o', after, h', rfl, hspan, hslot, hdvd⟩ := hwraps
  refine ⟨o :: before, o', after, h', rfl, hspan, hslot, ?_⟩
  have hcount : starts (o :: before) = starts [o] + starts before := by
    rw [← List.singleton_append]
    exact List.countP_append
  rw [hcount, ← Nat.add_assoc]
  exact hdvd

theorem Store.run_cons {S? S?' : Option Store} {calls : List (Callbacks × Call)} {os : List Outcome}
    (hrun : Store.run S? ((env, call) :: calls) = some (S?', os)) :
    ∃ S?₁ o os', Store.step env S? call = some (S?₁, o) ∧
      Store.run S?₁ calls = some (S?', os') ∧ os = o :: os' := by
  unfold Store.run at hrun
  cases hstep : Store.step env S? call with
  | none =>
      rw [hstep] at hrun
      simp at hrun
  | some p =>
      obtain ⟨S₁, o⟩ := p
      rw [hstep] at hrun
      obtain ⟨⟨S₂, os'⟩, hq, heq⟩ := Option.map_eq_some_iff.mp hrun
      obtain ⟨rfl, rfl⟩ := Prod.mk.inj heq
      exact ⟨S₁, o, os', rfl, hq, rfl⟩

/-- Run lemma: what becomes of the span of a handle. The induction carries the
generation of the next start. -/
theorem Store.run_span (V : S.Valid) {gen slot : UInt16} {n : Nat} (hgen : gen ≠ 0)
    (hh : h = mkHandle gen slot) (hnext : S.nextGen = nextGeneration^[n] gen)
    {calls : List (Callbacks × Call)} {os : List Outcome} {S' : Store}
    (hrun : Store.run (some S) calls = some (some S', os)) :
    match lives S.toLeafParams h ((S.resolve h).map fun p => p.2.toSpan) calls os with
    | some s => (S'.resolve h).map (fun p => p.2.toSpan) = some s
    | none => ¬ WrapsOnto h n os → S'.resolve h = none := by
  induction calls generalizing S os n with
  | nil =>
      obtain ⟨hS, rfl⟩ := Prod.mk.inj (Option.some.inj hrun)
      obtain rfl := Option.some.inj hS
      unfold lives
      cases S.resolve h with
      | none => exact fun _ => rfl
      | some p => rfl
  | cons x calls ih =>
      obtain ⟨env, call⟩ := x
      obtain ⟨S?₁, o, os, hstep, hrest, rfl⟩ := Store.run_cons hrun
      cases S?₁ with
      | none =>
          have hfreed := Store.run_freed calls hrest
          simp at hfreed
      | some S₁ =>
          obtain ⟨hparams, hfresh, hspan⟩ := Store.step_span (h := h) V hstep
          have V₁ := V.step hstep
          have hnext₁ : S₁.nextGen = nextGeneration^[n + starts [o]] gen := by
            rcases Store.step_handle V hstep with
              ⟨hnone, hsame⟩ | ⟨slot', -, -, -, -, -, rfl, hgen'⟩
            · rw [hsame, hnext]
              simp [starts, hnone]
            · rw [hgen', hnext]
              exact (Function.iterate_succ_apply' nextGeneration n gen).symm
          have hrec := ih V₁ hnext₁ hrest
          by_cases heq : o.span = some h
          · -- The handle is returned again: its span is gone and its generation is back.
            have hwraps : WrapsOnto h n (o :: os) := by
              refine ⟨[], o, os, h, rfl, heq, rfl, ?_⟩
              rcases Store.step_handle V hstep with ⟨hnone, -⟩ | ⟨slot', -, -, -, -, -, rfl, -⟩
              · rw [hnone] at heq
                simp at heq
              · rw [hh] at heq
                have hsame := (mkHandle_inj.mp (Option.some.inj heq)).1
                rw [hnext] at hsame
                exact dvd_of_nextGeneration_iterate hgen hsame
            rw [hfresh heq, Option.map_none, lives_none]
            exact fun hnot => absurd hwraps hnot
          · rw [hspan heq, hparams] at hrec
            unfold lives
            cases hlives : lives S.toLeafParams h
              ((Option.map (fun p => p.2.toSpan) (S.resolve h)).bind
                (Span.after S.toLeafParams h env call o)) calls os with
            | none =>
                rw [hlives] at hrec
                exact fun hnot => hrec fun hwraps => hnot hwraps.cons
            | some s =>
                rw [hlives] at hrec
                exact hrec

/-- Only a live leaf starts a span. -/
theorem Store.step_some {S? S?' : Option Store} {status : Status}
    (hstep : Store.step env S? call = some (S?', ⟨status, some h⟩)) :
    ∃ S S', S? = some S ∧ S?' = some S' := by
  cases S? with
  | none => cases call <;> simp [Store.step, Outcome.of] at hstep
  | some S =>
      refine ⟨S, ?_⟩
      cases S?' with
      | some S' => exact ⟨S', rfl, rfl⟩
      | none => cases call <;> simp [Store.step, returnsStore, Outcome.of] at hstep

/-- A run that frees the leaf ends the life of every span. -/
theorem Store.run_freeing {S? : Option Store} {p : LeafParams} {calls : List (Callbacks × Call)}
    {os : List Outcome} {s? : Option Span} (hlive : S?.isSome)
    (hrun : Store.run S? calls = some (none, os)) : lives p h s? calls os = none := by
  induction calls generalizing S? s? os with
  | nil =>
      obtain ⟨rfl, -⟩ := Prod.mk.inj (Option.some.inj hrun)
      simp at hlive
  | cons x calls ih =>
      obtain ⟨env, call⟩ := x
      obtain ⟨S?₁, o, os, hstep, hrest, rfl⟩ := Store.run_cons hrun
      unfold lives
      cases S?₁ with
      | some S₁ => exact ih rfl hrest
      | none =>
          have hfree : call = .free ∧ o = .of .ok := by
            obtain ⟨S, rfl⟩ := Option.isSome_iff_exists.mp hlive
            cases call <;> simp [Store.step, returnsStore] at hstep
            exact ⟨rfl, hstep.symm⟩
          obtain ⟨rfl, rfl⟩ := hfree
          have hgone : s?.bind (Span.after p h env .free (.of .ok)) = none := by
            cases s? <;> rfl
          rw [hgone, lives_none]

end

/-! ### The leaf -/

section

variable {w : Word32} {st st' : LeafState} {S : Store} {cs : List UInt32}
  {ch : UInt16 → List UInt32} {h : Handle} {env : Callbacks} {call : Call} {o : Outcome}

theorem Rep.spanOf (R : Rep st S cs ch) (h : Handle) :
    spanOf w st h = (S.resolve h).map fun p => (p.2.toSpan.view 0, p.2.toSpan.ended) := by
  unfold Leaf.spanOf
  rw [R.resolve]
  cases hres : S.resolve h with
  | none => rfl
  | some p =>
      obtain ⟨s, e⟩ := p
      obtain ⟨he, hlt, -, -⟩ := Store.resolve_spec hres
      have hs : s < (rawBatch st).core.slotCount := by
        have hcore : (rawBatch st).core.slotCount = st.slotCount := rfl
        rw [hcore, R.count]
        exact hlt
      have hnext := Rep.nextSpan (b := rawBatch st) (c := ⟨s.toUInt32, 1⟩) R hs he (by simp)
      have hview := Rep.spanView (w := w) (b := rawBatch st) R hs he
      have hstate : (getSlot st s).state = if e.ended then .ended else .opened :=
        (R.held s hs e he).state
      have hended : e.toSpan.ended = e.ended := rfl
      simp only [Option.map_some, Option.bind_some, hnext, hview, hstate, hended]
      cases e.ended <;> rfl

theorem Rep.mem_liveHandles (R : Rep st S cs ch) (V : S.Valid) :
    h ∈ liveHandles st ↔ ∃ p, S.resolve h = some p := by
  unfold liveHandles
  rw [List.mem_filterMap]
  constructor
  · rintro ⟨s, hs, hmk⟩
    have hlt := mem_slots.mp hs
    cases he : S.entry s with
    | none =>
        rw [if_pos (R.free s hlt he)] at hmk
        simp at hmk
    | some e =>
        have hgen : (getSlot st s).gen = e.gen := (R.held s hlt e he).field SpanRec.gen fun _ => rfl
        rw [if_neg (R.used hlt he).2, hgen] at hmk
        exact ⟨(s, e), (Store.resolve_eq_some V).mpr ⟨he, (Option.some.inj hmk).symm⟩⟩
  · rintro ⟨⟨s, e⟩, hres⟩
    obtain ⟨he, rfl⟩ := (Store.resolve_eq_some V).mp hres
    have hlt : s < st.slotCount := by
      rw [R.count]
      exact V.bound s e he
    have hgen : (getSlot st s).gen = e.gen := (R.held s hlt e he).field SpanRec.gen fun _ => rfl
    exact ⟨s, mem_slots.mpr hlt, by rw [if_neg (R.used hlt he).2, hgen]⟩

theorem liveHandles_nodup (st : LeafState) : (liveHandles st).Nodup := by
  apply List.Nodup.filterMap _ (slots_nodup st)
  intro s t h hs ht
  split at hs
  · simp at hs
  · split at ht
    · simp at ht
    · have heq := (Option.some.inj hs).trans (Option.some.inj ht).symm
      exact (mkHandle_inj.mp heq).2

theorem Rep.zero_not_mem_liveHandles (R : Rep st S cs ch) (V : S.Valid) : 0 ∉ liveHandles st := by
  rw [R.mem_liveHandles V]
  rintro ⟨⟨s, e⟩, hres⟩
  obtain ⟨he, hzero⟩ := (Store.resolve_eq_some V).mp hres
  exact mkHandle_ne_zero (V.entries s e he).gen_ne hzero.symm

/-- A handle that resolves to no span is rejected by every call. -/
theorem rejects_of_resolve (R : Rep st S cs ch) (hres : S.resolve h = none) : Rejects w st h := by
  have hstale : resolve st h = none := by rw [R.resolve, hres, Option.map_none]
  have hlive : ¬ checkLeaf st ≠ .ok := by simp [R.checkLeaf]
  have hopen : ∀ argsOk, openSpan st argsOk h =
      .error (if argsOk then .errState else .errArg) := by
    intro argsOk
    unfold openSpan resolveOpen
    rw [if_neg hlive, hstale]
    cases argsOk <;> rfl
  intro env call huses
  cases call with
  | spanStart outNull name kind parent =>
      have hparent : parent = some h := by simpa [Call.uses] using huses
      subst hparent
      cases hargs : startArgsValid outNull name kind with
      | none =>
          simp only [step, spanStart, if_neg hlive, hargs]
          exact Or.inr ⟨by simp [Call.argsValid, hargs], trivial⟩
      | some k =>
          simp only [step, spanStart, if_neg hlive, hargs, hstale]
          exact Or.inl trivial
  | setAttribute span attr =>
      obtain rfl : span = h := by simpa [Call.uses] using huses
      cases attr with
      | none => exact Or.inr ⟨rfl, by simp [step, setAttribute, R.checkLeaf, returns]⟩
      | some kv =>
          simp only [step, setAttribute, hopen, returns, Call.argsValid, Option.any_some]
          cases kvValid kv
          · exact Or.inr ⟨rfl, rfl⟩
          · exact Or.inl rfl
  | addEvent span name attrs =>
      obtain rfl : span = h := by simpa [Call.uses] using huses
      simp only [step, addEvent, hopen, returns, Call.argsValid]
      cases name.readable && attrs.readable && kvsValid attrs.data
      · exact Or.inr ⟨rfl, rfl⟩
      · exact Or.inl rfl
  | setStatus span code message =>
      obtain rfl : span = h := by simpa [Call.uses] using huses
      simp only [step, setStatus, hopen, returns, Call.argsValid]
      cases code.isSome && message.readable
      · exact Or.inr ⟨rfl, rfl⟩
      · exact Or.inl rfl
  | spanEnd span =>
      obtain rfl : span = h := by simpa [Call.uses] using huses
      simp only [step, spanEnd, hopen, returns]
      exact Or.inl rfl
  | _ => simp [Call.uses] at huses

theorem rejects_freed (hmagic : st.magic ≠ leafMagic) : Rejects w st h := by
  intro env call huses
  have hcall : call ≠ .free := by
    rintro rfl
    simp [Call.uses] at huses
  exact Or.inl (step_freed_eq hmagic env hcall)

/-- The run of a leaf that holds the span of a handle. -/
theorem Tracks.run_lives (T : Tracks st (some S)) {gen slot : UInt16} {e : Entry} (hgen : gen ≠ 0)
    (hres : S.resolve (mkHandle gen slot) = some (slot, e)) (hnext : S.nextGen = nextGeneration gen)
    {calls : List (Callbacks × Call)} {os : List Outcome}
    (hrun : Leaf.run w st calls = some (st', os)) :
    match lives st.toLeafParams (mkHandle gen slot) (some e.toSpan) calls os with
    | some s => Leaf.spanOf w st' (mkHandle gen slot) = some (s.view 0, s.ended)
    | none => ¬ WrapsOnto (mkHandle gen slot) 1 os → Rejects w st' (mkHandle gen slot) := by
  obtain ⟨hsim, -⟩ := T.run (w := w) (ω := w) calls
  rw [hrun] at hsim
  obtain ⟨V, cs, ch, R⟩ := T
  rw [R.params]
  cases hstore : Store.run (some S) calls with
  | none =>
      rw [hstore] at hsim
      cases hsim
  | some p =>
      obtain ⟨S?', os'⟩ := p
      rw [hstore] at hsim
      cases hsim with
      | some hp =>
          obtain ⟨rfl, T'⟩ := hp
          cases S?' with
          | none =>
              rw [Store.run_freeing rfl hstore]
              exact fun _ => rejects_freed T'
          | some S' =>
              obtain ⟨V', cs', ch', R'⟩ := T'
              have hspan := Store.run_span (h := mkHandle gen slot) (n := 1) V hgen rfl hnext hstore
              rw [hres, Option.map_some] at hspan
              rw [R'.spanOf]
              cases hlives : lives S.toLeafParams (mkHandle gen slot) (some e.toSpan) calls os with
              | none =>
                  rw [hlives] at hspan
                  exact fun hnot => rejects_of_resolve R' (hspan hnot)
              | some s =>
                  rw [hlives] at hspan
                  obtain ⟨p, hp, rfl⟩ := Option.map_eq_some_iff.mp hspan
                  rw [hp]
                  rfl

/-- The leaf at the start that returned a handle, and what becomes of the span. -/
theorem Tracks.run_span {S? : Option Store} (T : Tracks st S?)
    (hstep : Leaf.step w st env call = some (st', ⟨.ok, some h⟩)) :
    h ∉ liveHandles st ∧ ∃ s₀ : Span, s₀.ended = false ∧
      ∀ calls stₙ os, Leaf.run w st' calls = some (stₙ, os) →
        match lives st'.toLeafParams h (some s₀) calls os with
        | some s => spanOf w stₙ h = some (s.view 0, s.ended)
        | none => ¬ WrapsOnto h 1 os → Rejects w stₙ h := by
  obtain ⟨hsim, -⟩ := T.step (w := w) (ω := w) env call
  rw [hstep] at hsim
  cases hstore : Store.step env S? call with
  | none =>
      rw [hstore] at hsim
      cases hsim
  | some p =>
      obtain ⟨S?', o'⟩ := p
      rw [hstore] at hsim
      cases hsim with
      | some hp =>
          obtain ⟨rfl, T'⟩ := hp
          obtain ⟨S, S', rfl, rfl⟩ := Store.step_some hstore
          obtain ⟨V, cs, ch, R⟩ := T
          have V' := V.step hstore
          obtain ⟨-, hfresh, -⟩ := Store.step_span (h := h) V hstore
          rcases Store.step_handle V hstore with
            ⟨hnone, -⟩ | ⟨slot, e, -, he, hgen, hended, heq, hnext⟩
          · simp at hnone
          · obtain rfl := Option.some.inj (Outcome.mk.inj heq).2
            have hres : S'.resolve (mkHandle S.nextGen slot) = some (slot, e) :=
              (Store.resolve_eq_some V').mpr ⟨he, by rw [hgen]⟩
            refine ⟨?_, e.toSpan, hended, ?_⟩
            · rw [R.mem_liveHandles V, hfresh rfl]
              simp
            · intro calls stₙ os hrun
              exact T'.run_lives V.nextGen_ne hres hnext hrun

end

/-- Handle safety. In every state of every run the handles of the spans there
are differ from each other and from zero; a start returns none of them; and
from then on its handle names its span, as changed by the calls made with that
handle and by no other, until the span is encoded. After that every call made
with the handle is rejected, as long as no start a multiple of 65535 starts
later has taken the same slot. -/
theorem run_handles {w : Word32} {leaf st₀ : LeafState} {leafSize bufferSize : Nat}
    {config : Option Config} {buffer buffer' : Option ByteMemory.Mem}
    (hinit : init w leaf leafSize config buffer bufferSize = (.ok, st₀, buffer')) :
    ∀ pre st os, run w st₀ pre = some (st, os) →
      (checkLeaf st = .ok → (liveHandles st).Nodup ∧ 0 ∉ liveHandles st) ∧
      ∀ env call st' h, step w st env call = some (st', ⟨.ok, some h⟩) →
        h ∉ liveHandles st ∧ ∃ s₀ : Span, s₀.ended = false ∧
          ∀ calls stₙ os, run w st' calls = some (stₙ, os) →
            match lives st'.toLeafParams h (some s₀) calls os with
            | some s => spanOf w stₙ h = some (s.view 0, s.ended)
            | none => ¬ WrapsOnto h 1 os → Rejects w stₙ h := by
  intro pre st os hrun
  obtain ⟨c, S?, -, -, -, T⟩ := run_tracks hinit hrun
  refine ⟨?_, ?_⟩
  · intro hcheck
    cases S? with
    | none =>
        have hmagic : st.magic ≠ leafMagic := T
        simp [checkLeaf, hmagic] at hcheck
    | some S =>
        obtain ⟨V, cs, ch, R⟩ := T
        exact ⟨liveHandles_nodup st, R.zero_not_mem_liveHandles V⟩
  · intro env call st' h hstep
    exact T.run_span hstep

/-! ### A handle that comes back -/

section

variable {S : Store}

def remoteTrace : TraceId := Vector.replicate 16 1
def remoteParent : SpanId := Vector.replicate 8 1

/-- A random answer that makes the next id word 1. -/
def answer (key counter : UInt64) : UInt64 := splitmix64 (key + counter) ^^^ 1

def startCall : Call :=
  .spanStartRemote false (.items []) (some .internal) (some remoteTrace) (some remoteParent)

def encodeCall : Call := .encodeTo false false fun _ => .ok

/-- A span started, ended and encoded, `n` times over. -/
def rounds (key : UInt64) : Nat → UInt16 → Nat → List (Callbacks × Call)
  | 0, _, _ => []
  | n + 1, gen, counter =>
      (⟨0, [answer key (UInt64.ofNat counter)]⟩, startCall) ::
        (⟨0, []⟩, .spanEnd (mkHandle gen 0)) :: (⟨0, []⟩, encodeCall) ::
        rounds key n (nextGeneration gen) (counter + 1)

/-- A leaf without spans. -/
structure Store.Idle (S : Store) (key counter : UInt64) (gen : UInt16) : Prop where
  count : S.count = 0
  entry : ∀ s, S.entry s = none
  ended : S.ended = []
  room : sizeofSpanRec ≤ S.capacity
  key : S.deviceKey = key
  counter : S.idCounter = counter
  gen : S.nextGen = gen

/-- A leaf whose only span is open, in slot 0. -/
structure Store.OneOpen (S : Store) (key counter : UInt64) (gen : UInt16) : Prop where
  count : S.count = 1
  entry : ∃ e, S.entry = Function.update (fun _ => none) 0 (some e) ∧ e.ended = false ∧ e.gen = gen
  ended : S.ended = []
  room : sizeofSpanRec ≤ S.capacity
  key : S.deviceKey = key
  counter : S.idCounter = counter + 1
  gen : S.nextGen = nextGeneration gen

theorem newSpanId_answer (v : LeafVars) :
    newSpanId v [answer v.deviceKey v.idCounter] =
      some (storeBe64 1, { v with idCounter := v.idCounter + 1 }, []) := by
  have hword : splitmix64 (v.deviceKey + v.idCounter) ^^^ answer v.deviceKey v.idCounter = 1 := by
    rw [answer, ← UInt64.xor_assoc, UInt64.xor_self, UInt64.zero_xor]
  simp [newSpanId, nextIdWord, hword]

theorem Store.startSpan_placed {env : Callbacks} {name : Slice UInt8} {kind : SpanKind}
    {ids : SpanIds} {slot : UInt16} {traceId : TraceId} {spanId : SpanId} {vars : LeafVars}
    (hplace : S.place name.len = some slot)
    (hdraw : drawIds S.toLeafVars ids env.random = some (traceId, spanId, vars)) :
    S.startSpan env name kind ids = some (
      { S with
        toLeafVars := vars
        nextGen := nextGeneration S.nextGen
        count := if slot = S.count then S.count + 1 else S.count
        entry := Function.update S.entry slot
          (some (S.newEntry env name kind traceId spanId ids.parentId)) },
      ⟨.ok, some (mkHandle S.nextGen slot)⟩) := by
  simp only [Store.startSpan, hplace, hdraw]

def Store.remoteEntry (S : Store) : Entry :=
  S.newEntry ⟨0, [answer S.deviceKey S.idCounter]⟩ (.items []) .internal remoteTrace (storeBe64 1)
    (some remoteParent)

/-- The store after `startCall` on a leaf without spans. -/
def Store.withSpan (S : Store) : Store :=
  { S with
    toLeafVars := { S.toLeafVars with idCounter := S.idCounter + 1 }
    nextGen := nextGeneration S.nextGen
    count := if 0 = S.count then S.count + 1 else S.count
    entry := Function.update S.entry 0 (some S.remoteEntry) }

theorem Store.Idle.start {key counter : UInt64} {gen : UInt16} (I : S.Idle key counter gen) :
    Store.step ⟨0, [answer key counter]⟩ (some S) startCall =
        some (some S.withSpan, ⟨.ok, some (mkHandle gen 0)⟩) ∧
      S.withSpan.OneOpen key counter gen := by
  obtain ⟨hcount, hentry, hended, hroom, rfl, rfl, rfl⟩ := I
  have hplace : S.place 0 = some 0 := by
    have hfree : S.freeSlot? = none := by simp [Store.freeSlot?, hcount, slotsOf]
    have hfits : sizeofSpanRec + Store.nameBytes 0 ≤ S.room := by
      simpa [Store.room, Store.usedBytes, Store.chunkBytes, hcount, slotsOf,
        Store.nameBytes] using hroom
    have hlast : S.count ≠ none16 := by
      rw [hcount]
      decide
    simp only [Store.place, hfree, if_neg hlast, if_pos hfits]
    rw [hcount]
  have hdraw : drawIds S.toLeafVars ⟨some remoteTrace, some remoteParent⟩
      [answer S.deviceKey S.idCounter] =
      some (remoteTrace, storeBe64 1, { S.toLeafVars with idCounter := S.idCounter + 1 }) := by
    simp only [drawIds, newSpanId_answer]
    rfl
  have hstart : S.startSpan ⟨0, [answer S.deviceKey S.idCounter]⟩ (.items []) .internal
      ⟨some remoteTrace, some remoteParent⟩ =
      some (S.withSpan, ⟨.ok, some (mkHandle S.nextGen 0)⟩) := by
    exact Store.startSpan_placed hplace hdraw
  have hids : (allZero remoteTrace.toList || allZero remoteParent.toList) = false := by decide
  have hargs : startArgsValid false (.items []) (some .internal) = some .internal := rfl
  refine ⟨?_, ?_⟩
  · simp only [startCall, Store.step, Store.spanStartRemote, hargs, hids, Bool.false_eq_true,
      if_false, hstart, Option.map_some]
  · have hentry' : S.withSpan.entry = Function.update (fun _ => none) 0 (some S.remoteEntry) := by
      unfold Store.withSpan
      rw [funext hentry]
    have hcount' : S.withSpan.count = 1 := by
      unfold Store.withSpan
      rw [hcount]
      rfl
    exact ⟨hcount', ⟨S.remoteEntry, hentry', rfl, rfl⟩, hended, hroom, rfl, rfl, rfl⟩

theorem Store.step_encodeCall (S : Store) :
    Store.step ⟨0, []⟩ (some S) encodeCall = some (some S.releaseEnded, .of .ok) := by
  simp only [encodeCall, Store.step, Store.encode, returnsStore, Bool.not_false, Bool.and_self,
    Bool.not_true, Bool.false_eq_true, if_false, if_true]

/-- The store after its only span was ended. -/
def Store.withEnded (S : Store) (e : Entry) : Store :=
  { S.put 0 { e with ended := true, finish := readClock S.toLeafParams ⟨0, []⟩ } with ended := [0] }

/-- Ending and encoding the only span. -/
theorem Store.OneOpen.finish {key counter : UInt64} {gen : UInt16} (O : S.OneOpen key counter gen)
    (V : S.Valid) :
    ∃ S₁ S₂, Store.step ⟨0, []⟩ (some S) (.spanEnd (mkHandle gen 0)) = some (some S₁, .of .ok) ∧
      Store.step ⟨0, []⟩ (some S₁) encodeCall = some (some S₂, .of .ok) ∧
      S₂.Idle key (counter + 1) (nextGeneration gen) := by
  obtain ⟨hcount, ⟨e, hentry, hopen, hegen⟩, hended, hroom, hkey, hcounter, hnext⟩ := O
  have hres : S.resolve (mkHandle gen 0) = some (0, e) :=
    (Store.resolve_eq_some V).mpr ⟨by rw [hentry, Function.update_self], by rw [hegen]⟩
  have hspan : S.openSpan true (mkHandle gen 0) = .ok (0, e) := by
    simp [Store.openSpan, hres, hopen]
  have hgone : ∀ s, (S.withEnded e).releaseEnded.entry s = none := by
    intro s
    unfold Store.releaseEnded Store.withEnded Store.put
    simp only [hentry, List.mem_singleton]
    split
    · rfl
    · next hs => simp [Function.update_of_ne hs]
  have htrim : (S.withEnded e).releaseEnded.count = 0 := by
    have hone : (S.withEnded e).count.toNat = 1 := by
      unfold Store.withEnded Store.put
      simp only [hcount]
      rfl
    have hfirst := hgone 0
    unfold Store.releaseEnded at hfirst ⊢
    simp only [hone] at hfirst ⊢
    simp [Store.trimCount, hfirst]
  refine ⟨S.withEnded e, (S.withEnded e).releaseEnded, ?_, Store.step_encodeCall _,
    htrim, hgone, rfl, hroom, hkey, hcounter, hnext⟩
  simp only [Store.step, Store.spanEnd, hspan, hended, returnsStore, Store.withEnded,
    List.nil_append]

theorem Store.run_step {S? S?₁ S?' : Option Store} {env : Callbacks} {call : Call} {o : Outcome}
    {calls : List (Callbacks × Call)} {os : List Outcome}
    (hstep : Store.step env S? call = some (S?₁, o)) (hrun : Store.run S?₁ calls = some (S?', os)) :
    Store.run S? ((env, call) :: calls) = some (S?', o :: os) := by
  simp only [Store.run, hstep, hrun, Option.map_some]

theorem Store.run_append {S? S?₁ S?' : Option Store} {calls calls' : List (Callbacks × Call)}
    {os os' : List Outcome} (hrun : Store.run S? calls = some (S?₁, os))
    (hrun' : Store.run S?₁ calls' = some (S?', os')) :
    Store.run S? (calls ++ calls') = some (S?', os ++ os') := by
  induction calls generalizing S? os with
  | nil =>
      obtain ⟨rfl, rfl⟩ := Prod.mk.inj (Option.some.inj hrun)
      exact hrun'
  | cons x calls ih =>
      obtain ⟨env, call⟩ := x
      obtain ⟨S?₂, o, os, hstep, hrest, rfl⟩ := Store.run_cons hrun
      exact Store.run_step hstep (ih hrest)

/-- A round of start, end and encode leaves a leaf without spans, one generation on. -/
theorem Store.Idle.rounds {key : UInt64} {gen : UInt16} {counter : Nat} (n : Nat)
    (I : S.Idle key (UInt64.ofNat counter) gen) (V : S.Valid) :
    ∃ S' os, Store.run (some S) (rounds key n gen counter) = some (some S', os) ∧ S'.Valid ∧
      S'.Idle key (UInt64.ofNat (counter + n)) (nextGeneration^[n] gen) := by
  induction n generalizing S gen counter with
  | zero => exact ⟨S, [], rfl, V, I⟩
  | succ n ih =>
      obtain ⟨hstart, O⟩ := I.start
      have V₁ := V.step hstart
      obtain ⟨S₂, S₃, hend, hencode, I₃⟩ := O.finish V₁
      have V₃ := (V₁.step hend).step hencode
      have hcounter : UInt64.ofNat counter + 1 = UInt64.ofNat (counter + 1) := by
        rw [UInt64.ofNat_add]
        rfl
      rw [hcounter] at I₃
      obtain ⟨S', os, hrun, V', I'⟩ := ih I₃ V₃
      refine ⟨S', _, Store.run_step hstart (Store.run_step hend (Store.run_step hencode hrun)),
        V', ?_⟩
      rw [Function.iterate_succ_apply, ← Nat.add_assoc, Nat.add_right_comm]
      exact I'

/-- The calls after the first start: its span is ended and encoded, and 65535
more spans are started, of which the last is left open. -/
def staleCalls (key : UInt64) : List (Callbacks × Call) :=
  (⟨0, []⟩, .spanEnd (mkHandle 1 0)) :: (⟨0, []⟩, encodeCall) ::
    (rounds key 65534 2 1 ++ [(⟨0, [answer key (UInt64.ofNat 65535)]⟩, startCall)])

/-- The first handle, after its span was encoded and the generation came round. -/
theorem Store.Idle.stale {key : UInt64} (I : S.Idle key (UInt64.ofNat 0) 1) (V : S.Valid) :
    ∃ S₁ S' S'' os, Store.step ⟨0, [answer key (UInt64.ofNat 0)]⟩ (some S) startCall =
        some (some S₁, ⟨.ok, some (mkHandle 1 0)⟩) ∧
      Store.run (some S₁) (staleCalls key) = some (some S', .of .ok :: .of .ok :: os) ∧
      Store.step ⟨0, []⟩ (some S') (.spanEnd (mkHandle 1 0)) = some (some S'', .of .ok) := by
  obtain ⟨hstart, O⟩ := I.start
  have V₁ := V.step hstart
  obtain ⟨S₂, S₃, hend, hencode, I₃⟩ := O.finish V₁
  have V₃ := (V₁.step hend).step hencode
  have hone : UInt64.ofNat 0 + 1 = UInt64.ofNat 1 := rfl
  have htwo : nextGeneration 1 = 2 := rfl
  rw [hone, htwo] at I₃
  obtain ⟨S₄, os, hrun, V₄, I₄⟩ := I₃.rounds 65534 V₃
  have hback : nextGeneration^[65534] 2 = 1 := by
    apply UInt16.toNat_inj.mp
    rw [nextGeneration_iterate (by decide)]
    rfl
  rw [hback] at I₄
  obtain ⟨hagain, O₅⟩ := I₄.start
  obtain ⟨S₆, -, hlast, -⟩ := O₅.finish (V₄.step hagain)
  have hall : Store.run (some S.withSpan) (staleCalls key) =
      some (some S₄.withSpan, .of .ok :: .of .ok :: (os ++ [⟨.ok, some (mkHandle 1 0)⟩])) :=
    Store.run_step hend (Store.run_step hencode
      (Store.run_append hrun (Store.run_step hagain rfl)))
  exact ⟨_, _, S₆, _, hstart, hall, hlast⟩

end

section

variable {w : Word32} {st : LeafState} {S? S?' : Option Store}

/-- A run of the store is a run of the leaf that holds it. -/
theorem Tracks.run_of_store (T : Tracks st S?) {calls : List (Callbacks × Call)}
    {os : List Outcome} (hstore : Store.run S? calls = some (S?', os)) :
    ∃ st', Leaf.run w st calls = some (st', os) ∧ Tracks st' S?' := by
  obtain ⟨hsim, -⟩ := T.run (w := w) (ω := w) calls
  rw [hstore] at hsim
  cases hrun : Leaf.run w st calls with
  | none =>
      rw [hrun] at hsim
      cases hsim
  | some p =>
      obtain ⟨st', os'⟩ := p
      rw [hrun] at hsim
      cases hsim with
      | some hp =>
          obtain ⟨rfl, T'⟩ := hp
          exact ⟨st', rfl, T'⟩

theorem Tracks.step_of_store (T : Tracks st S?) {env : Callbacks} {call : Call} {o : Outcome}
    (hstore : Store.step env S? call = some (S?', o)) :
    ∃ st', Leaf.step w st env call = some (st', o) ∧ Tracks st' S?' := by
  obtain ⟨hsim, -⟩ := T.step (w := w) (ω := w) env call
  rw [hstore] at hsim
  cases hstep : Leaf.step w st env call with
  | none =>
      rw [hstep] at hsim
      cases hsim
  | some p =>
      obtain ⟨st', o'⟩ := p
      rw [hstep] at hsim
      cases hsim with
      | some hp =>
          obtain ⟨rfl, T'⟩ := hp
          exact ⟨st', rfl, T'⟩

end

def pumpKey : UInt64 := deviceKey pumpConfig.resource.data pumpConfig.bootId

theorem pumpInit_tracks : Tracks pumpInit.2.1 (some (Store.init pumpConfig 300)) := by
  obtain ⟨c, hc, -, T⟩ := Tracks.init pumpInit_ok
  obtain rfl := Option.some.inj hc
  exact T

theorem pumpInit_idle : (Store.init pumpConfig 300).Valid ∧
    (Store.init pumpConfig 300).Idle pumpKey (UInt64.ofNat 0) 1 := by
  have hvalid : configValid pumpConfig = true := by decide +kernel
  have hroom : sizeofSpanRec ≤ (Store.init pumpConfig 300).capacity := by decide +kernel
  exact ⟨Store.init_valid hvalid 300, rfl, fun _ => rfl, rfl, hroom, rfl, rfl, rfl⟩

theorem run_handles_pump :
    ∃ st₁ st₂ os,
      step Word32.wrap pumpInit.2.1 ⟨0, [answer pumpKey (UInt64.ofNat 0)]⟩ startCall =
        some (st₁, ⟨.ok, some (mkHandle 1 0)⟩) ∧
      run Word32.wrap st₁ [(⟨0, []⟩, .spanEnd (mkHandle 1 0)), (⟨0, []⟩, encodeCall)] =
        some (st₂, os) ∧
      Rejects Word32.wrap st₂ (mkHandle 1 0) := by
  obtain ⟨V, I⟩ := pumpInit_idle
  obtain ⟨hstart, O⟩ := I.start
  obtain ⟨S₂, S₃, hend, hencode, -⟩ := O.finish (V.step hstart)
  obtain ⟨st₁, hstart', T₁⟩ := pumpInit_tracks.step_of_store (w := .wrap) hstart
  have hdone : Store.run (some S₃) [] = some (some S₃, []) := rfl
  obtain ⟨st₂, hrun, -⟩ := T₁.run_of_store (w := .wrap)
    (Store.run_step hend (Store.run_step hencode hdone))
  refine ⟨st₁, st₂, _, hstart', hrun, ?_⟩
  obtain ⟨-, s₀, -, hlife⟩ := (run_handles pumpInit_ok [] _ [] rfl).2 _ _ _ _ hstart'
  have hstale := hlife _ _ _ hrun
  have hgone : lives st₁.toLeafParams (mkHandle 1 0) (some s₀)
      [(⟨0, []⟩, .spanEnd (mkHandle 1 0)), (⟨0, []⟩, encodeCall)] [.of .ok, .of .ok] = none := by
    simp only [lives]
    rfl
  rw [hgone] at hstale
  apply hstale
  rintro ⟨before, o, after, h', heq, hspan, -, -⟩
  have hmem : o ∈ [Outcome.of .ok, Outcome.of .ok] := by
    rw [heq]
    simp
  have ho : o = .of .ok := by simpa using hmem
  rw [ho] at hspan
  simp [Outcome.of] at hspan

/-- The first handle of a leaf is used after its span was encoded, when 65535
more spans have been started: the call ends a span of another start. -/
theorem stale_handle_accepted :
    ∃ st₁ st₂ st₃ os,
      step Word32.wrap pumpInit.2.1 ⟨0, [answer pumpKey (UInt64.ofNat 0)]⟩ startCall =
        some (st₁, ⟨.ok, some 0x10000⟩) ∧
      run Word32.wrap st₁ (staleCalls pumpKey) = some (st₂, os) ∧
      (∀ s₀, lives st₁.toLeafParams 0x10000 (some s₀) (staleCalls pumpKey) os = none) ∧
      step Word32.wrap st₂ ⟨0, []⟩ (.spanEnd 0x10000) = some (st₃, .of .ok) := by
  obtain ⟨V, I⟩ := pumpInit_idle
  obtain ⟨S₁, S₂, S₃, os, hstart, hrun, hend⟩ := I.stale V
  have hhandle : mkHandle 1 0 = 0x10000 := by decide
  rw [hhandle] at hstart hend
  obtain ⟨st₁, hstart', T₁⟩ := pumpInit_tracks.step_of_store (w := .wrap) hstart
  obtain ⟨st₂, hrun', T₂⟩ := T₁.run_of_store (w := .wrap) hrun
  obtain ⟨st₃, hend', -⟩ := T₂.step_of_store (w := .wrap) hend
  refine ⟨st₁, st₂, st₃, _, hstart', hrun', ?_, hend'⟩
  intro s₀
  have hgone : lives st₁.toLeafParams 0x10000 (some s₀) (staleCalls pumpKey)
      (.of .ok :: .of .ok :: os) = lives st₁.toLeafParams 0x10000 none
        (rounds pumpKey 65534 2 1 ++ [(⟨0, [answer pumpKey (UInt64.ofNat 65535)]⟩, startCall)])
          os := by
    unfold staleCalls
    simp only [lives, hhandle]
    rfl
  rw [hgone, lives_none]

end Microtel.Leaf
