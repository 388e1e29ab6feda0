import Microtel.Concentrator.Accounting
import Microtel.Concentrator.WireHeader

/-!
Which decoded payloads `Admit` and `Identify` let through, as one rule on the
payload and the leaf's settings.
-/

namespace Microtel.Concentrator

namespace LeafTable

variable {σ ρ : Type} {t : LeafTable σ ρ} {c : Call σ ρ}

/-- Every entry's settings meet `P`. -/
def AllSettings (t : LeafTable σ ρ) (P : σ → Prop) : Prop :=
  ∀ n ∈ t.recency, ∀ s, n.2.settings = some s → P s

theorem Call.effect_settings_from (c : Call σ ρ) {e : Entry σ ρ} {s : σ}
    (h : (c.effect e).settings = some s) :
    e.settings = some s ∨ ∃ id now, c = .adoptSettings id (some s) now := by
  cases c with
  | adoptSettings id new now =>
      simp only [Call.effect, Entry.adopt] at h
      split at h
      · obtain rfl : new = some s := h
        exact Or.inr ⟨id, now, rfl⟩
      · exact Or.inl h
  | insert id hash new now =>
      simp only [Call.effect, Entry.keep] at h
      split at h <;> exact Or.inl h
  | _ => exact Or.inl h

theorem AllSettings.step {P : σ → Prop} (A : t.AllSettings P) (I : t.Inv)
    (hnew : ∀ id s now, c = .adoptSettings id (some s) now → P s) : (t.step c).1.AllSettings P := by
  have S := (step_spec I.toWellLinked I.maxLeaves_pos c).1
  rintro ⟨a, e'⟩ hmem s hs
  rcases steps_node I S hmem with ⟨e, he, rfl | ⟨-, rfl⟩⟩ | ⟨-, -, rfl⟩
  · exact A (a, e') he s hs
  · rcases c.effect_settings_from hs with hold | ⟨id, now, rfl⟩
    · exact A (a, e) he s hold
    · exact hnew _ _ _ rfl
  · rcases c.effect_settings_from hs with hold | ⟨id, now, rfl⟩
    · cases hold
    · exact hnew _ _ _ rfl

theorem AllSettings.settings {P : σ → Prop} (A : t.AllSettings P) (I : t.Inv) (id : Bytes)
    (now : TimePoint) (s : σ) (h : (t.settings id now).2 = some s) : P s := by
  have A' : (t.step (.settings id now)).1.AllSettings P := A.step I (by simp)
  obtain ⟨a, e, rest, hrecency, -, hs⟩ :=
    (step_spec I.toWellLinked I.maxLeaves_pos (.settings id now)).2 s h
  exact A' (a, e) (by rw [hrecency]; simp) s hs

end LeafTable

namespace Receiver

variable (r : Receiver)

/-! ### The rule -/

/-- A ResourceSpans passes under the effective mode: it declares nothing and the
mode is Unix, or its header is valid and its mode is 0, the effective one, or
free. -/
def HeaderAllowed (mode : Option LeafTimeMode) (resource : List KeyValue) : Prop :=
  (Undeclared resource ∧ mode = some .unix) ∨
    (¬ Undeclared resource ∧ WellTyped resource ∧ headerValue resource .proto = some 1 ∧
      ∃ declared, Declares resource declared ∧
        (declared = .concentratorStamped ∨ mode = none ∨ mode = some declared))

def ValidSpan (span : SpanRecord Resource) : Prop :=
  span.context.traceId.isValid = true ∧ span.context.spanId.isValid = true ∧
    span.startTime ≤ span.endTime

def Positive (v : Option Int64) : Prop := ∃ n, v = some n ∧ 0 < n

/-- The admission rule, for a leaf with this id and these settings. -/
structure Admissible (id : Bytes) (decoded : List (DecodedResourceSpans Resource))
    (settings : LeafSettings) : Prop where
  nonempty : decoded ≠ []
  carries : ∃ rs ∈ decoded, (∃ scope ∈ rs.scopes, scope.spans ≠ []) ∨
    Positive (headerValue rs.resource .droppedSpans) ∨
    Positive (headerValue rs.resource .droppedItems)
  spans : ∀ rs ∈ decoded, ∀ scope ∈ rs.scopes, ∀ span ∈ scope.spans, ValidSpan span
  id_pos : 0 < id.length
  id_le : id.length ≤ 128
  known : settings.configured = true ∨ r.options.unknownLeaf = .accept
  headers : ∀ rs ∈ decoded, HeaderAllowed (effectiveMode r.options settings) rs.resource

variable {r} {id : Bytes} {decoded : List (DecodedResourceSpans Resource)} {settings : LeafSettings}

/-! ### Payloads -/

theorem spansValid_iff (rs : DecodedResourceSpans Resource) :
    spansValid rs = true ↔ ∀ scope ∈ rs.scopes, ∀ span ∈ scope.spans, ValidSpan span := by
  unfold spansValid ValidSpan
  simp [and_assoc]

theorem nonNegative_spec (v : Option Int64) :
    (nonNegative v).toNat < 2 ^ 63 ∧ (0 < (nonNegative v).toNat ↔ Positive v) := by
  cases v with
  | none => exact ⟨by decide, by simp [nonNegative, Positive]⟩
  | some v =>
      have hpos : (0 : Int64) < v ↔ 0 < v.toInt := Int64.lt_iff_toInt_lt
      have hcast : v.toInt = v.toUInt64.toBitVec.toInt := rfl
      rw [BitVec.toInt_eq_toNat_cond] at hcast
      have hnat : v.toUInt64.toBitVec.toNat = v.toUInt64.toNat := rfl
      have hlt := v.toUInt64.toNat_lt
      unfold nonNegative Positive
      by_cases h : (0 : Int64) < v
      · have hint := hpos.mp h
        simp only [h, if_true, Option.some.injEq, exists_eq_left', iff_true]
        split at hcast <;> omega
      · simp [h]

theorem carriesSpansOrDrops_iff (decoded : List (DecodedResourceSpans Resource)) :
    carriesSpansOrDrops decoded = true ↔ ∃ rs ∈ decoded, (∃ scope ∈ rs.scopes, scope.spans ≠ []) ∨
      Positive (headerValue rs.resource .droppedSpans) ∨
      Positive (headerValue rs.resource .droppedItems) := by
  have hdrops (rs : DecodedResourceSpans Resource) :
      0 < nonNegative (readWireInfo rs.resource).droppedSpans +
          nonNegative (readWireInfo rs.resource).droppedItems ↔
        Positive (headerValue rs.resource .droppedSpans) ∨
          Positive (headerValue rs.resource .droppedItems) := by
    rw [← readWireInfo_get, ← readWireInfo_get]
    change _ ↔ Positive (readWireInfo rs.resource).droppedSpans ∨
      Positive (readWireInfo rs.resource).droppedItems
    obtain ⟨hspans, hspansPos⟩ := nonNegative_spec (readWireInfo rs.resource).droppedSpans
    obtain ⟨hitems, hitemsPos⟩ := nonNegative_spec (readWireInfo rs.resource).droppedItems
    rw [← hspansPos, ← hitemsPos, UInt64.lt_iff_toNat_lt, UInt64.toNat_add,
      Nat.mod_eq_of_lt (by omega)]
    simp only [UInt64.toNat_zero]
    omega
  unfold carriesSpansOrDrops
  simp only [List.any_eq_true, Bool.or_eq_true, decide_eq_true_eq, hdrops, Bool.not_eq_true',
    List.isEmpty_eq_false_iff]
  constructor
  · rintro ⟨rs, hrs, hdrops | hspans⟩
    · exact ⟨rs, hrs, Or.inr hdrops⟩
    · exact ⟨rs, hrs, Or.inl hspans⟩
  · rintro ⟨rs, hrs, hspans | hdrops⟩
    · exact ⟨rs, hrs, Or.inr hspans⟩
    · exact ⟨rs, hrs, Or.inl hdrops⟩

section Fate

variable (r) (answer : Option LeafConfig)

variable {r} {answer} {s s' : Shared} {job job' : Job} {a : Action}

end Fate

/-! ### The rule and the code -/

variable {s : Shared} {req : IngestRequest} {now : TimePoint} {received : Int}
  {answer : Option LeafConfig}

theorem rejects_iff : r.rejects = false ↔ r.options.unknownLeaf = .accept := by
  unfold rejects
  cases r.options.unknownLeaf <;> simp

variable (r) in
/-- Settings of a leaf that is not refused as unknown. -/
def Vetted (settings : LeafSettings) : Prop :=
  settings.configured = true ∨ r.options.unknownLeaf = .accept

theorem vetted_iff (settings : LeafSettings) :
    (!(r.rejects && !settings.configured)) = true ↔ r.Vetted settings := by
  unfold Vetted
  rw [← rejects_iff]
  cases r.rejects <;> cases settings.configured <;> simp

/-- What the payload alone has to meet. -/
def Wellformed (decoded : List (DecodedResourceSpans Resource)) : Prop :=
  decoded ≠ [] ∧ (admittedModes decoded).length = decoded.length ∧
    carriesSpansOrDrops decoded = true

instance (decoded : List (DecodedResourceSpans Resource)) : Decidable (Wellformed decoded) :=
  inferInstanceAs (Decidable (_ ∧ _ ∧ _))

/-- `Admit` and the settling of the id: a payload that goes on to the settings
lookup, and one that is refused. -/
theorem admitRequest_cases (s : Shared) (now : TimePoint) (received : Int)
    (hsize : req.payload.length ≤ r.options.maxPayloadBytes.toNat)
    (hdecode : r.deps.decode req.payload r.decodeLimits = .ok decoded) :
    (req.leafId.length ≤ 128 ∧ (r.refusedBeforeDecode s req now).2 = false ∧ Wellformed decoded ∧
        r.settleLeafId req decoded ≠ [] ∧ (r.settleLeafId req decoded).length ≤ 128 ∧
        r.admitRequest s req received now = ((r.refusedBeforeDecode s req now).1, .lookingUp
          { transportId := req.leafId, decoded, modes := admittedModes decoded
            leafId := r.settleLeafId req decoded, received, now })) ∨
      (¬ (req.leafId.length ≤ 128 ∧ (r.refusedBeforeDecode s req now).2 = false ∧
        Wellformed decoded ∧
          r.settleLeafId req decoded ≠ [] ∧ (r.settleLeafId req decoded).length ≤ 128) ∧
        ∃ s' result, r.admitRequest s req received now = (s', .finished result)) := by
  unfold admitRequest identify
  rw [if_neg (Nat.not_lt.mpr hsize), hdecode]
  by_cases hid : maxLeafIdBytes < req.leafId.length
  · right
    rw [if_pos hid]
    exact ⟨fun h => absurd hid (Nat.not_lt.mpr h.1), _, _, rfl⟩
  · rw [if_neg hid]
    dsimp only
    cases hrefused : (r.refusedBeforeDecode s req now).2 with
    | true =>
        right
        exact ⟨by simp, _, _, rfl⟩
    | false =>
        simp only [Bool.false_eq_true, if_false]
        split
        · next hbad =>
          right
          refine ⟨?_, _, _, rfl⟩
          rintro ⟨-, -, ⟨hnonempty, hlen, hcarries⟩, -⟩
          simp [hnonempty, hlen, hcarries] at hbad
        · next hgood =>
          have hwell : Wellformed decoded := by
            simpa [Wellformed, and_assoc] using hgood
          split
          · next hbad =>
            right
            refine ⟨?_, _, _, rfl⟩
            rintro ⟨-, -, -, hne, hle⟩
            simp [hne, maxLeafIdBytes, Nat.not_lt.mpr hle] at hbad
          · next hgood =>
            left
            simp only [Bool.or_eq_true, List.isEmpty_iff, decide_eq_true_eq, not_or,
              Nat.not_lt] at hgood
            exact ⟨Nat.not_lt.mp hid, trivial, hwell, hgood.1, hgood.2, rfl⟩

variable {σ σ' : State} {actions : List Action} {call : Nat} {job : Job} {a : Action}

variable (r) in
/-- Every leaf in the table, and every leaf on its way there, has been vetted. -/
structure AllVetted (σ : State) : Prop where
  table : σ.shared.table.Inv
  settings : σ.shared.table.AllSettings r.Vetted
  adopting : ∀ call p fresh, σ.jobs call = some (.adopting p fresh) → r.Vetted fresh

/-- Only an answer leads to an adoption, and it has been vetted. -/
theorem act_adopting {s' : Shared} {p : Payload} {fresh : LeafSettings}
    (h : r.act s a job = some (s', .adopting p fresh)) : r.Vetted fresh := by
  have hmem : ∀ call, a ≠ .outOfMemory call := by
    rintro call rfl
    cases job <;> cases h
  obtain ⟨e, -, henters⟩ := act_enters hmem h
  cases henters with
  | settling hjob hjob' hless =>
      cases hjob with
      | lookingUp =>
          cases a with
          | advance call =>
              have hlook := Option.some.inj h
              unfold lookUp at hlook
              dsimp only at hlook
              split at hlook
              · rcases identified_cases hlook with heq | heq <;> cases heq
              · have heq := (Prod.mk.inj hlook).2
                split at heq <;> cases heq
          | _ => cases h
      | checkingUnknown =>
          cases a with
          | advance call =>
              have hcheck := Option.some.inj h
              unfold checkUnknown at hcheck
              dsimp only at hcheck
              split at hcheck <;> cases (Prod.mk.inj hcheck).2
          | _ => cases h
      | asking =>
          cases a with
          | answer call c =>
              simp only [act, Receiver.answer] at h
              split at h
              · cases h
              · have hanswered := Option.some.inj h
                unfold answered at hanswered
                generalize resolveSettings r.options _ c = resolved at hanswered
                obtain ⟨fresh', dropped⟩ := resolved
                have hjob := (Prod.mk.inj hanswered).2
                split at hjob
                · cases hjob
                · next hvetted =>
                  cases hjob
                  rw [Bool.not_eq_true] at hvetted
                  rw [← vetted_iff, hvetted]
                  rfl
          | _ => cases h
      | refusing => exact absurd hless (Nat.not_lt_zero _)
      | adopting fresh' => exact absurd hless (Nat.not_lt_zero _)

theorem AllVetted.init (r : Receiver) : r.AllVetted r.init where
  table := LeafTable.Inv.new ..
  settings := by
    intro n hn
    cases hn
  adopting := by
    intro call p fresh hjob
    cases hjob

theorem AllVetted.step (V : r.AllVetted σ) (h : r.step σ a = some σ') : r.AllVetted σ' := by
  obtain ⟨htable, -⟩ := step_calls h
  refine ⟨?_, ?_, ?_⟩
  · rw [htable]
    exact called_inv V.table _
  · rw [htable]
    cases hcall : r.tableCallOf σ a with
    | none => exact V.settings
    | some c =>
        refine V.settings.step V.table ?_
        rintro id fresh now rfl
        -- The only adoption a step makes is that of a call about to adopt.
        cases a with
        | advance call =>
            obtain ⟨job, hjob, hjobCall⟩ := Option.bind_eq_some_iff.mp hcall
            cases job with
            | adopting p fresh' =>
                cases hjobCall
                exact V.adopting call p _ hjob
            | enqueueing p g =>
                unfold tableCall at hjobCall
                dsimp only at hjobCall
                split at hjobCall <;> cases hjobCall
            | _ => cases hjobCall
        | _ => cases hcall
  · intro call p fresh hjob
    cases step_spec h with
    | @begun call' req clock now hfresh =>
        by_cases hself : call = call'
        · subst hself
          rw [State.put_self] at hjob
          unfold begin at hjob
          split at hjob <;> cases hjob
        · rw [State.put_other σ _ hself] at hjob
          exact V.adopting call p fresh hjob
    | @acted _ call' job next hcall hjob' hact =>
        by_cases hself : call = call'
        · subst hself
          rw [State.put_self] at hjob
          obtain ⟨s', job'⟩ := next
          obtain rfl := Option.some.inj hjob
          exact act_adopting hact
        · rw [State.put_other σ _ hself] at hjob
          exact V.adopting call p fresh hjob
    | shut => exact V.adopting call p fresh hjob

theorem AllVetted.run (h : Machine.run r.step r.init actions = some σ) : r.AllVetted σ := by
  have hstep : ∀ σ₁ a σ₂, r.AllVetted σ₁ → r.step σ₁ a = some σ₂ → r.AllVetted σ₂ :=
    fun _ _ _ V h => V.step h
  exact Machine.run_invariant hstep (AllVetted.init r) h

/-- The result of a call that has finished. -/
def returned (σ : State) (call : Nat) : Option IngestResult :=
  match σ.jobs call with
  | some (.finished result) => some result
  | _ => none

end Receiver

end Microtel.Concentrator
