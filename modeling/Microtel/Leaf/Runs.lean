import Microtel.Leaf.Lifecycle

/-!
Runs of a leaf. One public call takes the buffer of a store to the buffer of the
store's next state with the same outcome, whatever the 32-bit arithmetic does
outside its range; by induction so does every run.
-/

namespace Microtel.Leaf

/-- The leaf object holds the store, or has been freed. -/
def Tracks (st : LeafState) : Option Store → Prop
  | none => st.magic ≠ leafMagic
  | some S => S.Valid ∧ ∃ cs ch, Rep st S cs ch

/-- The run of a store. -/
def Store.run : Option Store → List (Callbacks × Call) → Option (Option Store × List Outcome)
  | S, [] => some (S, [])
  | S, (env, call) :: calls =>
      match Store.step env S call with
      | none => none
      | some (S, o) => (Store.run S calls).map fun (S, os) => (S, o :: os)

section

variable {w ω : Word32} {st : LeafState} {S : Store} {S? : Option Store}

theorem Tracks.init {leaf : LeafState} {leafSize bufferSize : Nat} {config : Option Config}
    {buffer buffer' : Option ByteMemory.Mem}
    (h : init w leaf leafSize config buffer bufferSize = (.ok, st, buffer')) :
    ∃ c, config = some c ∧ configValid c = true ∧
      Tracks st (some (Store.init c (min bufferSize maxBuffer))) := by
  obtain ⟨c, buf, rfl, -, hvalid, hfits, rfl⟩ := init_ok h
  have hmax := Nat.min_le_right bufferSize maxBuffer
  exact ⟨c, rfl, hvalid, Store.init_valid hvalid _, _, _, initialised_rep hvalid hmax hfits⟩

/-- What a step of the leaf and the step of its store have in common. -/
def Simulates (r : Option (LeafState × Outcome)) (r' : Option (Option Store × Outcome)) : Prop :=
  Option.Rel (fun p p' => p.2 = p'.2 ∧ Tracks p.1 p'.1) r r'

theorem Simulates.of_refines {r : LeafState × Status} {r' : Store × Status} (h : Refines r r')
    (hvalid : r'.1.Valid) : Simulates (returns r) (returnsStore r') := by
  obtain ⟨hstatus, cs, ch, R⟩ := h
  exact Option.Rel.some ⟨by rw [hstatus], hvalid, cs, ch, R⟩

theorem Simulates.of_start {r : Option (LeafState × Outcome)} {r' : Option (Store × Outcome)}
    (h : RefinesStart r r') (hvalid : ∀ S o, r' = some (S, o) → S.Valid) :
    Simulates r (r'.map fun p => (some p.1, p.2)) := by
  cases h with
  | none => exact Option.Rel.none
  | @some p p' hp =>
      obtain ⟨ho, cs, ch, R⟩ := hp
      exact Option.Rel.some ⟨ho, hvalid p'.1 p'.2 rfl, cs, ch, R⟩

/-- A call on a leaf that has been freed returns an error and does nothing. -/
theorem step_freed_eq (hmagic : st.magic ≠ leafMagic) (env : Callbacks) {call : Call}
    (hcall : call ≠ .free) : step w st env call = some (st, .of .errState) := by
  have hcheck : checkLeaf st = .errState := by simp [checkLeaf, hmagic]
  have hopen : ∀ argsOk span, openSpan st argsOk span = .error .errState := by
    intro argsOk span
    simp [openSpan, hcheck]
  cases call with
  | spanStart outNull name kind parent => simp [step, spanStart, hcheck]
  | spanStartRemote outNull name kind traceId parentSpanId => simp [step, spanStartRemote, hcheck]
  | setAttribute span attr =>
      cases attr with
      | none => simp [step, setAttribute, hcheck, returns]
      | some attr => simp only [step, setAttribute, hopen, returns]
  | addEvent span name attrs => simp only [step, addEvent, hopen, returns]
  | setStatus span code message => simp only [step, setStatus, hopen, returns]
  | spanEnd span => simp only [step, spanEnd, hopen, returns]
  | clockSync unixNs leafNowNs => simp [step, clockSync, hcheck, returns]
  | encode outNull outSize writtenNull backend => simp [step, encode, hcheck, returns]
  | encodeTo writeNull writtenNull backend => simp [step, encode, hcheck, returns]
  | free => exact absurd rfl hcall

theorem Store.step_freed (env : Callbacks) {call : Call} (hcall : call ≠ .free) :
    Store.step env none call = some (none, .of .errState) := by
  cases call with
  | free => exact absurd rfl hcall
  | _ => rfl

theorem step_freed (hmagic : st.magic ≠ leafMagic) (env : Callbacks) (call : Call) :
    Simulates (step w st env call) (Store.step env none call) ∧
      step w st env call = step ω st env call := by
  by_cases hcall : call = .free
  · rw [hcall]
    exact ⟨Option.Rel.some ⟨rfl, by simp [free, Tracks, leafMagic]⟩, rfl⟩
  · rw [step_freed_eq hmagic env hcall, step_freed_eq hmagic env hcall,
      Store.step_freed env hcall]
    exact ⟨Option.Rel.some ⟨rfl, hmagic⟩, rfl⟩

/-- A call on a live leaf. -/
theorem step_live {cs : List UInt32} {ch : UInt16 → List UInt32} (R : Rep st S cs ch) (V : S.Valid)
    (env : Callbacks) (call : Call) :
    Simulates (step w st env call) (Store.step env (some S) call) ∧
      step w st env call = step ω st env call := by
  cases call with
  | spanStart outNull name kind parent =>
      obtain ⟨hrefines, hword⟩ := R.spanStart (w := w) (ω := ω) V env outNull name kind parent
      exact ⟨Simulates.of_start hrefines fun _ _ h => V.spanStart h, hword⟩
  | spanStartRemote outNull name kind traceId parentSpanId =>
      obtain ⟨hrefines, hword⟩ :=
        R.spanStartRemote (w := w) (ω := ω) V env outNull name kind traceId parentSpanId
      exact ⟨Simulates.of_start hrefines fun _ _ h => V.spanStartRemote h, hword⟩
  | setAttribute span attr =>
      obtain ⟨hrefines, hword⟩ := R.setAttribute (w := w) (ω := ω) V span attr
      exact ⟨Simulates.of_refines hrefines (V.setAttribute span attr), congrArg returns hword⟩
  | addEvent span name attrs =>
      obtain ⟨hrefines, hword⟩ := R.addEvent (w := w) (ω := ω) V env span name attrs
      exact ⟨Simulates.of_refines hrefines (V.addEvent env span name attrs), congrArg returns hword⟩
  | setStatus span code message =>
      obtain ⟨hrefines, hword⟩ := R.setStatus (w := w) (ω := ω) V span code message
      exact ⟨Simulates.of_refines hrefines (V.setStatus span code message), congrArg returns hword⟩
  | spanEnd span =>
      exact ⟨Simulates.of_refines (R.spanEnd V env span) (V.spanEnd env span), rfl⟩
  | clockSync unixNs leafNowNs =>
      exact ⟨Simulates.of_refines (R.clockSync env unixNs leafNowNs)
        (V.clockSync env unixNs leafNowNs), rfl⟩
  | encode outNull outSize writtenNull backend =>
      obtain ⟨hrefines, hword⟩ := R.encode (w := w) (ω := ω) V env
        (!writtenNull && !(outNull && 0 < outSize)) backend
      exact ⟨Simulates.of_refines hrefines (V.encode env _ backend), congrArg returns hword⟩
  | encodeTo writeNull writtenNull backend =>
      obtain ⟨hrefines, hword⟩ := R.encode (w := w) (ω := ω) V env
        (!writeNull && !writtenNull) backend
      exact ⟨Simulates.of_refines hrefines (V.encode env _ backend), congrArg returns hword⟩
  | free => exact ⟨Option.Rel.some ⟨rfl, by simp [free, Tracks, leafMagic]⟩, rfl⟩

/-- Step lemma: one call of the leaf is one step of the store. -/
theorem Tracks.step (h : Tracks st S?) (env : Callbacks) (call : Call) :
    Simulates (step w st env call) (Store.step env S? call) ∧
      Leaf.step w st env call = Leaf.step ω st env call := by
  cases S? with
  | none => exact step_freed h env call
  | some S =>
      obtain ⟨V, cs, ch, R⟩ := h
      exact step_live R V env call

/-- Run lemma: every run of the leaf is a run of the store. -/
theorem Tracks.run (h : Tracks st S?) (calls : List (Callbacks × Call)) :
    Option.Rel (fun p p' => p.2 = p'.2 ∧ Tracks p.1 p'.1) (run w st calls) (Store.run S? calls) ∧
      Leaf.run w st calls = Leaf.run ω st calls := by
  induction calls generalizing st S? with
  | nil => exact ⟨Option.Rel.some ⟨rfl, h⟩, rfl⟩
  | cons x calls ih =>
      obtain ⟨env, call⟩ := x
      obtain ⟨hsim, hword⟩ := h.step (w := w) (ω := ω) env call
      unfold Leaf.run Store.run
      rw [← hword]
      generalize Leaf.step w st env call = r at hsim ⊢
      generalize Store.step env S? call = r' at hsim ⊢
      cases hsim with
      | none => exact ⟨Option.Rel.none, rfl⟩
      | @some p p' hp =>
          obtain ⟨st₁, o⟩ := p
          obtain ⟨S₁, o'⟩ := p'
          obtain ⟨rfl, htracks⟩ := hp
          obtain ⟨hrun, hrunWord⟩ := ih htracks
          dsimp only
          rw [← hrunWord]
          refine ⟨?_, rfl⟩
          generalize Leaf.run w st₁ calls = q at hrun ⊢
          generalize Store.run S₁ calls = q' at hrun ⊢
          cases hrun with
          | none => exact Option.Rel.none
          | @some r r' hr => exact Option.Rel.some ⟨congrArg (o :: ·) hr.1, hr.2⟩

/-- The state a run reaches from an initialised leaf, beside the run of its store. -/
theorem run_tracks {leaf st₀ : LeafState} {leafSize bufferSize : Nat} {config : Option Config}
    {buffer buffer' : Option ByteMemory.Mem} {calls : List (Callbacks × Call)} {os : List Outcome}
    (hinit : init w leaf leafSize config buffer bufferSize = (.ok, st₀, buffer'))
    (hrun : Leaf.run w st₀ calls = some (st, os)) :
    ∃ c S?, config = some c ∧ configValid c = true ∧
      Store.run (some (Store.init c (min bufferSize maxBuffer))) calls = some (S?, os) ∧
      Tracks st S? := by
  obtain ⟨c, hc, hvalid, htracks⟩ := Tracks.init hinit
  obtain ⟨hsim, -⟩ := htracks.run (w := w) (ω := w) calls
  rw [hrun] at hsim
  cases hstore : Store.run (some (Store.init c (min bufferSize maxBuffer))) calls with
  | none =>
      rw [hstore] at hsim
      cases hsim
  | some p =>
      rw [hstore] at hsim
      cases hsim with
      | some hp =>
          obtain ⟨S?, os'⟩ := p
          obtain ⟨rfl, hfinal⟩ := hp
          exact ⟨c, S?, hc, hvalid, hstore, hfinal⟩

end

end Microtel.Leaf
