import Mathlib.Tactic

/-!
Readers over lists. A reader takes a value off the front of a list; it is exact for
a grammar when it accepts the grammar's texts and nothing else, whatever follows
them. A loop that reads a list to its end with an exact reader accepts exactly the
sequences of its grammar, and folds over their items.
-/

namespace Walk

variable {σ α β γ : Type}

/-! ### Exact readers -/

/-- The reader accepts the texts of the grammar, whatever follows them. -/
def Exact (read : List α → Option (β × List α)) (G : List α → β → Prop) : Prop :=
  ∀ data v rest, read data = some (v, rest) ↔ ∃ text, data = text ++ rest ∧ G text v

namespace Exact

theorem accepts {read : List α → Option (β × List α)} {G : List α → β → Prop} {text : List α}
    {v : β} (h : Exact read G) (htext : G text v) (rest : List α) :
    read (text ++ rest) = some (v, rest) :=
  (h _ _ _).mpr ⟨text, rfl, htext⟩

/-- A reader after a reader. -/
theorem bind {f : List α → Option (β × List α)} {g : β → List α → Option (γ × List α)}
    {F : List α → β → Prop} {G : β → List α → γ → Prop} (hf : Exact f F)
    (hg : ∀ b, Exact (g b) (G b)) :
    Exact (fun data => (f data).bind fun p => g p.1 p.2)
      (fun text c => ∃ b front back, text = front ++ back ∧ F front b ∧ G b back c) := by
  intro data c rest
  constructor
  · intro h
    obtain ⟨⟨b, mid⟩, hread, hrest⟩ := Option.bind_eq_some_iff.mp h
    obtain ⟨front, rfl, hfront⟩ := (hf _ _ _).mp hread
    obtain ⟨back, rfl, hback⟩ := (hg b _ _ _).mp hrest
    exact ⟨front ++ back, (List.append_assoc ..).symm, b, front, back, rfl, hfront, hback⟩
  · rintro ⟨text, rfl, b, front, back, rfl, hfront, hback⟩
    refine Option.bind_eq_some_iff.mpr ⟨(b, back ++ rest), ?_, (hg b).accepts hback rest⟩
    rw [List.append_assoc]
    exact hf.accepts hfront (back ++ rest)

/-- The same values under another description of the texts. -/
theorem congr {read : List α → Option (β × List α)} {F G : List α → β → Prop}
    (h : Exact read F) (hG : ∀ text v, F text v ↔ G text v) : Exact read G := by
  intro data v rest
  rw [h data v rest]
  simp only [hG]

theorem shortens {read : List α → Option (β × List α)} {G : List α → β → Prop}
    (h : Exact read G) (hne : ∀ text v, G text v → text ≠ []) {data rest : List α} {v : β}
    (hread : read data = some (v, rest)) : rest.length < data.length := by
  obtain ⟨text, rfl, htext⟩ := (h _ _ _).mp hread
  have := List.length_pos_iff.mpr (hne text v htext)
  rw [List.length_append]
  omega

end Exact

/-! ### Loops to the end of a list -/

/-- One round: what it makes of the state, and what it leaves of the list. -/
structure Reader (σ α : Type) where
  read : σ → List α → Option (σ × List α)
  shortens : ∀ {s data s' rest}, read s data = some (s', rest) → rest.length < data.length

/-- `while (!data.empty())`, ended early by a round that fails. -/
def walk (r : Reader σ α) (s : σ) : List α → Option σ
  | [] => some s
  | a :: data =>
      match _hread : r.read s (a :: data) with
      | none => none
      | some (s', rest) => walk r s' rest
termination_by data => data.length
decreasing_by exact r.shortens _hread

@[simp] theorem walk_nil (r : Reader σ α) (s : σ) : walk r s [] = some s := by
  unfold walk
  rfl

theorem walk_step {r : Reader σ α} {s s' : σ} {data rest : List α}
    (h : r.read s data = some (s', rest)) : walk r s data = walk r s' rest := by
  cases data with
  | nil => exact absurd (r.shortens h) (Nat.not_lt_zero _)
  | cons a data =>
      rw [walk]
      split
      · next hnone =>
        rw [hnone] at h
        cases h
      · next s'' rest' hsome =>
        rw [hsome] at h
        cases h
        rfl

theorem walk_fail {r : Reader σ α} {s : σ} {data : List α} (hne : data ≠ [])
    (h : r.read s data = none) : walk r s data = none := by
  cases data with
  | nil => exact absurd rfl hne
  | cons a data =>
      rw [walk]
      split
      · rfl
      · next hsome =>
        rw [hsome] at h
        cases h

/-- The texts that are items of a grammar one after the other. -/
inductive Sequence (G : List α → β → Prop) : List α → List β → Prop
  | nil : Sequence G [] []
  | cons {text rest : List α} {item : β} {items : List β} (h : G text item)
      (hrest : Sequence G rest items) : Sequence G (text ++ rest) (item :: items)

section Items

variable {r : Reader σ α} {G : List α → β → Prop} {step : σ → β → Option σ}
  (h : ∀ s, Exact (r.read s) fun text s' => ∃ item, G text item ∧ step s item = some s')

include h

theorem sequence_of_walk {s t : σ} {data : List α} (hwalk : walk r s data = some t) :
    ∃ items, Sequence G data items ∧ items.foldlM step s = some t := by
  cases hread : r.read s data with
  | none =>
      by_cases hnil : data = []
      · subst hnil
        rw [walk_nil] at hwalk
        exact ⟨[], .nil, hwalk⟩
      · rw [walk_fail hnil hread] at hwalk
        cases hwalk
  | some next =>
      obtain ⟨s', rest⟩ := next
      have hlt := r.shortens hread
      rw [walk_step hread] at hwalk
      obtain ⟨items, hitems, hfold⟩ := sequence_of_walk hwalk
      obtain ⟨text, htext, item, hitem, hstep⟩ := (h s _ _ _).mp hread
      refine ⟨item :: items, htext ▸ .cons hitem hitems, ?_⟩
      rw [List.foldlM_cons, hstep]
      exact hfold
termination_by data.length

variable (G step) in
/-- Run rule: the loop accepts the sequences of the grammar, folding over their items. -/
theorem walk_iff (s t : σ) (data : List α) :
    walk r s data = some t ↔ ∃ items, Sequence G data items ∧ items.foldlM step s = some t := by
  constructor
  · exact sequence_of_walk h
  · rintro ⟨items, hitems, hfold⟩
    induction hitems generalizing s with
    | nil => rw [walk_nil]; exact hfold
    | cons hitem hrest ih =>
        obtain ⟨s', hstep, hfold⟩ := Option.bind_eq_some_iff.mp hfold
        rw [walk_step ((h s).accepts ⟨_, hitem, hstep⟩ _)]
        exact ih s' hfold

end Items

/-- Run rule for a round that takes every item: the loop folds over the items. -/
theorem walk_of_sequence {r : Reader σ α} {G : List α → β → Prop} {step : σ → β → σ}
    (hread : ∀ {s text item} rest, G text item → r.read s (text ++ rest) = some (step s item, rest))
    {s : σ} {data : List α} {items : List β} (h : Sequence G data items) :
    walk r s data = some (items.foldl step s) := by
  induction h generalizing s with
  | nil => exact walk_nil r s
  | cons hitem hrest ih =>
      rw [walk_step (hread _ hitem), ih]
      rfl

end Walk
