import Mathlib.Tactic

/-!
Encodings whose end is told by the encoding itself: of two texts that begin with an
encoding each, if the texts agree so do the encoded values and what follows. Such
encodings can be put one behind another, and a list of them needs no end mark.
-/

/-- On a domain, an encoding can be taken off a text in one way only. -/
def SelfDelimiting {α β : Type} (dom : α → Prop) (encode : α → List β) : Prop :=
  ∀ x y, dom x → dom y → ∀ rest rest', encode x ++ rest = encode y ++ rest' → x = y ∧ rest = rest'

namespace SelfDelimiting

variable {α β γ : Type} {dom : α → Prop} {encode : α → List β}

/-- Values that all take the same room. -/
theorem ofFixed {width : Nat} (hwidth : ∀ x, (encode x).length = width)
    (hinj : ∀ x y, dom x → dom y → encode x = encode y → x = y) : SelfDelimiting dom encode := by
  intro x y hx hy rest rest' heq
  have hlength : (encode x).length = (encode y).length := (hwidth x).trans (hwidth y).symm
  obtain ⟨hencode, hrest⟩ := List.append_inj heq hlength
  exact ⟨hinj x y hx hy hencode, hrest⟩

/-- A list whose length is known already. -/
theorem flatMap_of_length (h : SelfDelimiting dom encode) {l l' : List α}
    (hl : ∀ x ∈ l, dom x) (hl' : ∀ x ∈ l', dom x) (hlength : l.length = l'.length)
    {rest rest' : List β} (heq : l.flatMap encode ++ rest = l'.flatMap encode ++ rest') :
    l = l' ∧ rest = rest' := by
  induction l generalizing l' with
  | nil =>
      obtain rfl := List.eq_nil_of_length_eq_zero hlength.symm
      exact ⟨rfl, heq⟩
  | cons x l ih =>
      cases l' with
      | nil => cases hlength
      | cons y l' =>
          rw [List.flatMap_cons, List.flatMap_cons, List.append_assoc, List.append_assoc] at heq
          obtain ⟨rfl, htail⟩ := h x y (hl x (by simp)) (hl' y (by simp)) _ _ heq
          have hrest : ∀ z ∈ l, dom z := fun z hz => hl z (by simp [hz])
          have hrest' : ∀ z ∈ l', dom z := fun z hz => hl' z (by simp [hz])
          obtain ⟨rfl, hsame⟩ := ih hrest hrest' (Nat.succ.inj hlength) htail
          exact ⟨rfl, hsame⟩

/-- A list behind its length. -/
theorem counted {bound : Nat} {size : Nat → List β} (hsize : SelfDelimiting (· < bound) size)
    (h : SelfDelimiting dom encode) :
    SelfDelimiting (fun l : List α => l.length < bound ∧ ∀ x ∈ l, dom x)
      fun l => size l.length ++ l.flatMap encode := by
  intro l l' hl hl' rest rest' heq
  dsimp only at heq
  rw [List.append_assoc, List.append_assoc] at heq
  obtain ⟨hlength, htail⟩ := hsize _ _ hl.1 hl'.1 _ _ heq
  exact h.flatMap_of_length hl.2 hl'.2 hlength htail

/-- One value behind another, the second encoding chosen by the first value. -/
theorem append {domNext : γ → Prop} {tag : γ → α} {encodeNext : γ → List β}
    (h : SelfDelimiting dom encode) (htag : ∀ z, domNext z → dom (tag z))
    (hnext : ∀ z w, domNext z → domNext w → tag z = tag w → ∀ rest rest',
      encodeNext z ++ rest = encodeNext w ++ rest' → z = w ∧ rest = rest') :
    SelfDelimiting domNext fun z => encode (tag z) ++ encodeNext z := by
  intro z w hz hw rest rest' heq
  dsimp only at heq
  rw [List.append_assoc, List.append_assoc] at heq
  obtain ⟨hsame, htail⟩ := h _ _ (htag z hz) (htag w hw) _ _ heq
  exact hnext z w hz hw hsame _ _ htail

/-- A list that ends with the text. -/
theorem flatMap_injective (h : SelfDelimiting dom encode) (hne : ∀ x, encode x ≠ [])
    {l l' : List α} (hl : ∀ x ∈ l, dom x) (hl' : ∀ x ∈ l', dom x)
    (heq : l.flatMap encode = l'.flatMap encode) : l = l' := by
  induction l generalizing l' with
  | nil =>
      cases l' with
      | nil => rfl
      | cons y l' =>
          rw [List.flatMap_nil, List.flatMap_cons] at heq
          exact absurd (List.append_eq_nil_iff.mp heq.symm).1 (hne y)
  | cons x l ih =>
      cases l' with
      | nil =>
          rw [List.flatMap_nil, List.flatMap_cons] at heq
          exact absurd (List.append_eq_nil_iff.mp heq).1 (hne x)
      | cons y l' =>
          rw [List.flatMap_cons, List.flatMap_cons] at heq
          obtain ⟨rfl, htail⟩ := h x y (hl x (by simp)) (hl' y (by simp)) _ _ heq
          have hrest : ∀ z ∈ l, dom z := fun z hz => hl z (by simp [hz])
          have hrest' : ∀ z ∈ l', dom z := fun z hz => hl' z (by simp [hz])
          rw [ih hrest hrest' htail]

/-- A list in front of a mark that begins none of its encodings. -/
theorem flatMap_of_end (h : SelfDelimiting dom encode) {stop : β}
    (hstop : ∀ x rest rest', encode x ++ rest ≠ stop :: rest') {l l' : List α}
    (hl : ∀ x ∈ l, dom x) (hl' : ∀ x ∈ l', dom x) {rest rest' : List β}
    (heq : l.flatMap encode ++ stop :: rest = l'.flatMap encode ++ stop :: rest') :
    l = l' ∧ rest = rest' := by
  induction l generalizing l' with
  | nil =>
      cases l' with
      | nil => exact ⟨rfl, (List.cons.inj heq).2⟩
      | cons y l' =>
          rw [List.flatMap_cons, List.append_assoc] at heq
          exact absurd heq.symm (hstop y _ _)
  | cons x l ih =>
      cases l' with
      | nil =>
          rw [List.flatMap_cons, List.append_assoc] at heq
          exact absurd heq (hstop x _ _)
      | cons y l' =>
          rw [List.flatMap_cons, List.flatMap_cons, List.append_assoc, List.append_assoc] at heq
          obtain ⟨rfl, htail⟩ := h x y (hl x (by simp)) (hl' y (by simp)) _ _ heq
          have hrest : ∀ z ∈ l, dom z := fun z hz => hl z (by simp [hz])
          have hrest' : ∀ z ∈ l', dom z := fun z hz => hl' z (by simp [hz])
          obtain ⟨rfl, hsame⟩ := ih hrest hrest' htail
          exact ⟨rfl, hsame⟩

/-- A list whose encoding begins with that of another begins with the other. -/
theorem flatMap_prefix (h : SelfDelimiting dom encode) (hne : ∀ x, encode x ≠ [])
    {l l' : List α} (hl : ∀ x ∈ l, dom x) (hl' : ∀ x ∈ l', dom x) {rest : List β}
    (heq : l'.flatMap encode = l.flatMap encode ++ rest) :
    ∃ more, l' = l ++ more ∧ rest = more.flatMap encode := by
  induction l generalizing l' with
  | nil => exact ⟨l', rfl, heq.symm⟩
  | cons x l ih =>
      cases l' with
      | nil =>
          rw [List.flatMap_cons, List.append_assoc, List.flatMap_nil] at heq
          exact absurd (List.append_eq_nil_iff.mp heq.symm).1 (hne x)
      | cons y l' =>
          rw [List.flatMap_cons, List.flatMap_cons, List.append_assoc] at heq
          obtain ⟨rfl, htail⟩ := h y x (hl' y (by simp)) (hl x (by simp)) _ _ heq
          have hrest : ∀ z ∈ l, dom z := fun z hz => hl z (by simp [hz])
          have hrest' : ∀ z ∈ l', dom z := fun z hz => hl' z (by simp [hz])
          obtain ⟨more, rfl, hmore⟩ := ih hrest hrest' htail
          exact ⟨more, rfl, hmore⟩

end SelfDelimiting
