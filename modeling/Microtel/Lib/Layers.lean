import Mathlib.Tactic

/-!
Layers that answer a question, the highest first. A layer answers by an entry of its
own or by its table. Precedence goes layer by layer; a reader that asks every table
before any entry lets a lower table answer before a higher entry.
-/

namespace Layers

variable {σ β : Type} (own table : σ → Option β)

/-- What a layer answers. -/
def answer (s : σ) : Option β := (own s).or (table s)

/-- The highest layer that answers does so by its own entry, and the highest table
below it answers otherwise. -/
def Overtaken (layers : List σ) : Prop :=
  ∃ higher s lower v w, layers = higher ++ s :: lower ∧ (∀ t ∈ higher, answer own table t = none) ∧
    own s = some v ∧ lower.findSome? table = some w ∧ w ≠ v

variable {own table} {s : σ} {layers : List σ}

theorem answer_eq_none_iff : answer own table s = none ↔ own s = none ∧ table s = none := by
  unfold answer
  rw [Option.or_eq_none_iff]

theorem not_overtaken_nil : ¬ Overtaken own table [] := by
  rintro ⟨higher, s, lower, v, w, heq, -⟩
  cases higher <;> cases heq

theorem overtaken_cons :
    Overtaken own table (s :: layers) ↔
      (∃ v w, own s = some v ∧ layers.findSome? table = some w ∧ w ≠ v) ∨
        (answer own table s = none ∧ Overtaken own table layers) := by
  constructor
  · rintro ⟨higher, t, lower, v, w, heq, hhigher, hown, htable, hne⟩
    cases higher with
    | nil =>
        obtain ⟨rfl, rfl⟩ := List.cons.inj heq
        exact .inl ⟨v, w, hown, htable, hne⟩
    | cons u higher =>
        obtain ⟨rfl, hrest⟩ := List.cons.inj heq
        refine .inr ⟨hhigher s List.mem_cons_self, higher, t, lower, v, w, hrest, ?_, hown,
          htable, hne⟩
        intro t' ht'
        exact hhigher t' (List.mem_cons_of_mem _ ht')
  · rintro (⟨v, w, hown, htable, hne⟩ | ⟨hnone, higher, t, lower, v, w, heq, hhigher, hown,
      htable, hne⟩)
    · exact ⟨[], s, layers, v, w, rfl, by simp, hown, htable, hne⟩
    · refine ⟨s :: higher, t, lower, v, w, by rw [heq, List.cons_append], ?_, hown, htable, hne⟩
      intro t' ht'
      rcases List.mem_cons.mp ht' with rfl | ht'
      · exact hnone
      · exact hhigher t' ht'

theorem answers_none_iff :
    (layers.findSome? table).or (layers.findSome? own) = none ↔
      layers.findSome? (answer own table) = none := by
  rw [Option.or_eq_none_iff, List.findSome?_eq_none_iff, List.findSome?_eq_none_iff,
    List.findSome?_eq_none_iff]
  constructor
  · rintro ⟨htable, hown⟩ s hs
    exact answer_eq_none_iff.mpr ⟨hown s hs, htable s hs⟩
  · intro h
    exact ⟨fun s hs => (answer_eq_none_iff.mp (h s hs)).2,
      fun s hs => (answer_eq_none_iff.mp (h s hs)).1⟩

/-- Asking the tables first gives the answer of the highest layer exactly where no
entry is overtaken. -/
theorem tables_first_iff (h : ∀ s ∈ layers, own s = none ∨ table s = none) :
    (layers.findSome? table).or (layers.findSome? own) = layers.findSome? (answer own table) ↔
      ¬ Overtaken own table layers := by
  induction layers with
  | nil => simp [not_overtaken_nil]
  | cons s layers ih =>
      have hrest := ih fun t ht => h t (List.mem_cons_of_mem _ ht)
      rw [overtaken_cons]
      cases hown : own s with
      | none =>
          cases htable : table s with
          | none =>
              have hnone : answer own table s = none := answer_eq_none_iff.mpr ⟨hown, htable⟩
              simp only [List.findSome?_cons, hown, htable, hnone, hrest]
              simp
          | some w =>
              have hsome : answer own table s = some w := by
                rw [answer, hown, htable]
                rfl
              simp only [List.findSome?_cons, htable, hsome]
              simp
      | some v =>
          have htable : table s = none := by
            rcases h s List.mem_cons_self with hnone | hnone
            · rw [hown] at hnone
              cases hnone
            · exact hnone
          have hsome : answer own table s = some v := by
            rw [answer, hown]
            rfl
          simp only [List.findSome?_cons, hown, htable, hsome]
          cases layers.findSome? table with
          | none => simp
          | some w => simp

end Layers
