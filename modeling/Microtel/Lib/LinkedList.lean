import Mathlib.Tactic

/-!
Singly linked lists threaded through a store: `next` reads a node's link and
`nil` is the null link. `IsList next nil h l` says that following links from
`h` visits exactly `l` and then ends. The list surgery lemmas take the new link
function as a separate argument, constrained only on the nodes involved.
-/

namespace LinkedList

variable {α β : Type}

def IsList (next : α → α) (nil : α) : α → List α → Prop
  | h, [] => h = nil
  | h, a :: l => h = a ∧ a ≠ nil ∧ IsList next nil (next a) l

/-- The last node of a list, or `nil`. -/
def last (nil : α) (l : List α) : α := l.getLast?.getD nil

@[simp] theorem last_nil (nil : α) : last nil ([] : List α) = nil := rfl

@[simp] theorem last_concat (nil a : α) (l : List α) : last nil (l ++ [a]) = a := by
  simp [last]

variable {next next' : α → α} {nil : α}

theorem IsList.ne_nil {h : α} {l : List α} (H : IsList next nil h l) : ∀ a ∈ l, a ≠ nil := by
  induction l generalizing h with
  | nil => simp
  | cons b l ih =>
      intro a ha
      rcases List.mem_cons.mp ha with rfl | ha
      · exact H.2.1
      · exact ih H.2.2 a ha

theorem IsList.nil_iff {h : α} {l : List α} (H : IsList next nil h l) : h = nil ↔ l = [] := by
  cases l with
  | nil => simpa [IsList] using H
  | cons a l => simp [H.1, H.2.1]

theorem IsList.unique {h : α} {l l' : List α} (H : IsList next nil h l)
    (H' : IsList next nil h l') : l = l' := by
  induction l generalizing h l' with
  | nil => exact (H'.nil_iff.mp H).symm
  | cons a l ih =>
      obtain ⟨rfl, hne, hl⟩ := H
      cases l' with
      | nil => exact absurd H' hne
      | cons b l' =>
          obtain ⟨rfl, -, hl'⟩ := H'
          rw [ih hl hl']

/-- The rest of a list from any of its nodes. -/
theorem IsList.suffix {h a : α} {l₁ l₂ : List α} (H : IsList next nil h (l₁ ++ a :: l₂)) :
    IsList next nil a (a :: l₂) := by
  induction l₁ generalizing h with
  | nil => exact ⟨rfl, H.2.1, H.2.2⟩
  | cons b l₁ ih => exact ih H.2.2

theorem IsList.nodup {h : α} {l : List α} (H : IsList next nil h l) : l.Nodup := by
  induction l generalizing h with
  | nil => exact List.nodup_nil
  | cons a l ih =>
      refine List.nodup_cons.mpr ⟨?_, ih H.2.2⟩
      intro hmem
      -- A node that came back would start a shorter list of the same nodes.
      obtain ⟨l₁, l₂, rfl⟩ := List.append_of_mem hmem
      have hshort : IsList next nil a (a :: l₂) := IsList.suffix H.2.2
      have hlong : IsList next nil a (a :: (l₁ ++ a :: l₂)) := ⟨rfl, H.2.1, H.2.2⟩
      have heq := congrArg List.length (hlong.unique hshort)
      simp at heq
      omega

theorem IsList.next_mem {h a : α} {l : List α} (H : IsList next nil h l) (ha : a ∈ l) :
    next a = nil ∨ next a ∈ l := by
  obtain ⟨l₁, l₂, rfl⟩ := List.append_of_mem ha
  have hrest := (IsList.suffix H).2.2
  cases l₂ with
  | nil => exact Or.inl hrest
  | cons b l₂ => exact Or.inr (by simp [hrest.1])

theorem IsList.head_mem {h : α} {l : List α} (H : IsList next nil h l) : h = nil ∨ h ∈ l := by
  cases l with
  | nil => exact Or.inl H
  | cons a l => exact Or.inr (by simp [H.1])

theorem last_mem (nil : α) (l : List α) : last nil l = nil ∨ last nil l ∈ l := by
  rcases List.eq_nil_or_concat' l with rfl | ⟨l, a, rfl⟩
  · exact Or.inl rfl
  · exact Or.inr (by simp)

theorem last_eq_nil_iff {l : List α} (h : ∀ a ∈ l, a ≠ nil) : last nil l = nil ↔ l = [] := by
  rcases List.eq_nil_or_concat' l with rfl | ⟨l, a, rfl⟩
  · simp
  · have := h a (by simp)
    simp [this]

theorem IsList.congr {h : α} {l : List α} (H : IsList next nil h l)
    (hnext : ∀ a ∈ l, next' a = next a) : IsList next' nil h l := by
  induction l generalizing h with
  | nil => exact H
  | cons a l ih =>
      obtain ⟨rfl, hne, hl⟩ := H
      refine ⟨rfl, hne, ?_⟩
      rw [hnext h (by simp)]
      exact ih hl fun b hb => hnext b (by simp [hb])

/-- Forwarding every node and every link. -/
theorem IsList.map {f : α → α} {h : α} {l : List α} (H : IsList next nil h l)
    (hnil : f nil = nil) (hne : ∀ a ∈ l, f a ≠ nil)
    (hnext : ∀ a ∈ l, next' (f a) = f (next a)) : IsList next' nil (f h) (l.map f) := by
  induction l generalizing h with
  | nil =>
      have hh : h = nil := H
      rw [hh]
      exact hnil
  | cons a l ih =>
      obtain ⟨rfl, -, hl⟩ := H
      refine ⟨rfl, hne h (by simp), ?_⟩
      rw [hnext h (by simp)]
      exact ih hl (fun b hb => hne b (by simp [hb])) fun b hb => hnext b (by simp [hb])

theorem last_map {f : α → α} (hnil : f nil = nil) (l : List α) :
    last nil (l.map f) = f (last nil l) := by
  rcases List.eq_nil_or_concat' l with rfl | ⟨l, a, rfl⟩
  · simpa using hnil.symm
  · simp

/-- A prefix of a list, relinked to another continuation. `h'` is the new
head: the old one, unless the prefix is empty. -/
theorem IsList.relink {h b h' : α} {l₁ l₂ l₂' : List α} (H : IsList next nil h (l₁ ++ l₂))
    (htail : IsList next' nil b l₂')
    (hkeep : ∀ c ∈ l₁, c ≠ last nil l₁ → next' c = next c)
    (hlast : l₁ ≠ [] → next' (last nil l₁) = b)
    (hhead : h' = if l₁ = [] then b else h) : IsList next' nil h' (l₁ ++ l₂') := by
  induction l₁ generalizing h h' with
  | nil => simpa [hhead] using htail
  | cons c l₁ ih =>
      have hnd := H.nodup
      obtain ⟨rfl, hne, hl⟩ := H
      simp only [reduceCtorEq, if_false] at hhead
      subst hhead
      refine ⟨rfl, hne, ?_⟩
      rcases List.eq_nil_or_concat' l₁ with rfl | ⟨l₀, d, rfl⟩
      · have hb : next' h' = b := hlast (by simp)
        rw [hb]
        exact htail
      · have hlastd : last nil (h' :: (l₀ ++ [d])) = d := by
          rw [← List.cons_append, last_concat]
        have hdne : h' ≠ d := by
          rintro rfl
          simp at hnd
        rw [hkeep h' (by simp) (by rwa [hlastd])]
        refine ih hl ?_ ?_ (by simp)
        · intro e he hlastne
          refine hkeep e (List.mem_cons_of_mem _ he) ?_
          rw [hlastd]
          rwa [last_concat] at hlastne
        · intro _
          have hb := hlast (by simp)
          rw [hlastd] at hb
          rwa [last_concat]

/-- Appending a node after the last one. -/
theorem IsList.append {h a h' : α} {l : List α} (H : IsList next nil h l) (ha : a ≠ nil)
    (hkeep : ∀ c ∈ l, c ≠ last nil l → next' c = next c)
    (hlast : l ≠ [] → next' (last nil l) = a) (hend : next' a = nil)
    (hhead : h' = if l = [] then a else h) : IsList next' nil h' (l ++ [a]) := by
  have H' : IsList next nil h (l ++ []) := by simpa using H
  exact H'.relink (b := a) ⟨rfl, ha, hend⟩ hkeep hlast hhead

end LinkedList
