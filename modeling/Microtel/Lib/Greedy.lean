import Mathlib.Tactic

/-!
Items taken in order under a rule that looks at what was taken before, and the
loops that do so one item at a time.
-/

namespace Greedy

variable {α : Type} (fits : List α → α → Bool)

def takeOne (taken : List α) (x : α) : List α := if fits taken x then taken ++ [x] else taken

/-- What the rule takes of a list. -/
def taken (xs : List α) : List α := xs.foldl (takeOne fits) []

/-- How many it leaves. -/
def refused (xs : List α) : Nat := xs.length - (taken fits xs).length

variable {fits}

@[simp] theorem taken_nil : taken fits [] = [] := rfl

theorem taken_concat (xs : List α) (x : α) :
    taken fits (xs ++ [x]) = takeOne fits (taken fits xs) x := by
  unfold taken
  rw [List.foldl_append]
  rfl

theorem taken_sublist (xs : List α) : (taken fits xs).Sublist xs := by
  induction xs using List.reverseRecOn with
  | nil => exact List.Sublist.refl []
  | append_singleton xs x ih =>
      rw [taken_concat, takeOne]
      split
      · exact ih.append (List.Sublist.refl [x])
      · exact ih.trans (List.sublist_append_left xs [x])

@[simp] theorem refused_nil : refused fits [] = 0 := rfl

/-- Two rules that agree on what may have been taken take the same. -/
theorem taken_congr {fits' : List α → α → Bool} {xs : List α}
    (h : ∀ t x, (∀ y ∈ t ++ [x], y ∈ xs) → fits t x = fits' t x) :
    taken fits xs = taken fits' xs := by
  induction xs using List.reverseRecOn with
  | nil => rfl
  | append_singleton xs x ih =>
      have hrest : taken fits xs = taken fits' xs :=
        ih fun t y hmem => h t y fun z hz => List.mem_append_left _ (hmem z hz)
      have hx : fits (taken fits xs) x = fits' (taken fits xs) x := by
        apply h
        intro y hy
        rcases List.mem_append.mp hy with hbefore | hlast
        · exact List.mem_append_left _ ((taken_sublist xs).subset hbefore)
        · exact List.mem_append_right _ hlast
      rw [taken_concat, taken_concat, takeOne, takeOne, hx, hrest]

theorem taken_of_fits {xs : List α} {x : α} (h : fits (taken fits xs) x = true) :
    taken fits (xs ++ [x]) = taken fits xs ++ [x] := by
  rw [taken_concat, takeOne, if_pos h]

theorem refused_of_fits {xs : List α} {x : α} (h : fits (taken fits xs) x = true) :
    refused fits (xs ++ [x]) = refused fits xs := by
  unfold refused
  rw [taken_of_fits h, List.length_append, List.length_append, Nat.add_sub_add_right]

theorem taken_of_not_fits {xs : List α} {x : α} (h : fits (taken fits xs) x = false) :
    taken fits (xs ++ [x]) = taken fits xs := by
  rw [taken_concat, takeOne, if_neg (by simp [h])]

theorem refused_of_not_fits {xs : List α} {x : α} (h : fits (taken fits xs) x = false) :
    refused fits (xs ++ [x]) = refused fits xs + 1 := by
  have hsub : (taken fits xs).Sublist xs := taken_sublist xs
  have hle := hsub.length_le
  unfold refused
  rw [taken_of_not_fits h, List.length_append, List.length_singleton]
  omega

/-- The rule of a loop that passes some items over: an invariant on what was taken
and how many were refused, kept by an item passed over, an item that fits and an
item that does not. -/
theorem foldl_invariant {σ : Type} {step : σ → α → σ} {skip : α → Bool}
    {I : List α → Nat → σ → Prop}
    (hskip : ∀ t n s x, skip x = true → I t n s → I t n (step s x))
    (hfits : ∀ t n s x, skip x = false → fits t x = true → I t n s → I (t ++ [x]) n (step s x))
    (hover : ∀ t n s x, skip x = false → fits t x = false → I t n s → I t (n + 1) (step s x))
    {s₀ : σ} (hstart : I [] 0 s₀) (xs : List α) :
    I (taken fits (xs.filter fun x => !skip x)) (refused fits (xs.filter fun x => !skip x))
      (xs.foldl step s₀) := by
  induction xs using List.reverseRecOn with
  | nil => exact hstart
  | append_singleton xs x ih =>
      rw [List.foldl_append, List.filter_append, List.foldl_cons, List.foldl_nil,
        List.filter_singleton]
      cases hx : skip x with
      | true =>
          rw [Bool.not_true, cond_false, List.append_nil]
          exact hskip _ _ _ x hx ih
      | false =>
          rw [Bool.not_false, cond_true]
          cases hfit : fits (taken fits (xs.filter fun x => !skip x)) x with
          | true =>
              rw [taken_of_fits hfit, refused_of_fits hfit]
              exact hfits _ _ _ x hx hfit ih
          | false =>
              rw [taken_of_not_fits hfit, refused_of_not_fits hfit]
              exact hover _ _ _ x hx hfit ih

end Greedy
