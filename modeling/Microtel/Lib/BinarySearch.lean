import Mathlib.Tactic

/-!
`std::lower_bound` and `std::binary_search` over a list.
-/

namespace BinarySearch

variable {α : Type}

/-- The loop over the `len` elements from `first` on. -/
def lowerBoundFrom (below : α → Bool) (xs : List α) : (fuel first len : Nat) → Nat
  | 0, first, _ => first
  | fuel + 1, first, len =>
      match xs[first + len / 2]? with
      | none => first
      | some middle =>
          if len = 0 then first
          else if below middle then
            lowerBoundFrom below xs fuel (first + len / 2 + 1) (len - len / 2 - 1)
          else lowerBoundFrom below xs fuel first (len / 2)

/-- The first element that is not below, for a list whose elements below come first. -/
def lowerBound (below : α → Bool) (xs : List α) : Nat :=
  lowerBoundFrom below xs xs.length 0 xs.length

section

variable {below : α → Bool} {xs : List α}

/-- The elements before `first` are below, those from `first + len` on are not. -/
structure Bounds (below : α → Bool) (xs : List α) (first len : Nat) : Prop where
  within : first + len ≤ xs.length
  before : ∀ i < first, ∀ x, xs[i]? = some x → below x = true
  after : ∀ i, first + len ≤ i → ∀ x, xs[i]? = some x → below x = false

/-- The elements below come first. -/
def Split (below : α → Bool) (xs : List α) : Prop :=
  xs.Pairwise fun x y => below y = true → below x = true

theorem Split.get {i j : Nat} {x y : α} (h : Split below xs) (hij : i ≤ j)
    (hx : xs[i]? = some x) (hy : xs[j]? = some y) (hbelow : below y = true) : below x = true := by
  rcases Nat.eq_or_lt_of_le hij with rfl | hlt
  · rw [hx] at hy
    rwa [Option.some.inj hy]
  · obtain ⟨hi, rfl⟩ := List.getElem?_eq_some_iff.mp hx
    obtain ⟨hj, rfl⟩ := List.getElem?_eq_some_iff.mp hy
    exact List.pairwise_iff_getElem.mp h i j hi hj hlt hbelow

theorem lowerBoundFrom_le (fuel first len : Nat) (h : first + len ≤ xs.length) :
    lowerBoundFrom below xs fuel first len ≤ xs.length := by
  induction fuel generalizing first len with
  | zero =>
      rw [lowerBoundFrom]
      omega
  | succ fuel ih =>
      rw [lowerBoundFrom]
      split
      · omega
      · split
        · omega
        · split
          · exact ih _ _ (by omega)
          · exact ih _ _ (by omega)

/-- The index is within the list, whether it is sorted or not. -/
theorem lowerBound_le (below : α → Bool) (xs : List α) : lowerBound below xs ≤ xs.length :=
  lowerBoundFrom_le _ _ _ (by omega)

theorem Bounds.lowerBoundFrom (hsplit : Split below xs) (fuel : Nat) {first len : Nat}
    (h : Bounds below xs first len) (hfuel : len ≤ fuel) :
    Bounds below xs (BinarySearch.lowerBoundFrom below xs fuel first len) 0 := by
  induction fuel generalizing first len with
  | zero =>
      obtain rfl : len = 0 := by omega
      exact h
  | succ fuel ih =>
      rw [BinarySearch.lowerBoundFrom]
      have hwithin := h.within
      split
      · next hnone =>
        have hlen := List.getElem?_eq_none_iff.mp hnone
        obtain rfl : len = 0 := by omega
        exact h
      · next middle hmiddle =>
        split
        · next hzero =>
          rwa [hzero] at h
        · split
          · next hbelow =>
            refine ih ⟨by omega, ?_, ?_⟩ (by omega)
            · intro i hi x hx
              exact hsplit.get (by omega) hx hmiddle hbelow
            · intro i hi x hx
              exact h.after i (by omega) x hx
          · next hbelow =>
            refine ih ⟨by omega, h.before, ?_⟩ (by omega)
            intro i hi x hx
            rw [Bool.eq_false_iff]
            intro hxbelow
            exact hbelow (hsplit.get hi hmiddle hx hxbelow)

theorem bounds_lowerBound (hsplit : Split below xs) : Bounds below xs (lowerBound below xs) 0 := by
  refine Bounds.lowerBoundFrom hsplit _ ⟨by omega, by omega, ?_⟩ (le_refl _)
  intro i hi x hx
  obtain ⟨hlt, -⟩ := List.getElem?_eq_some_iff.mp hx
  omega

end

/-! ### Membership -/

/-- `std::binary_search`: the first element not below the wanted one is not above it. -/
def binarySearch (lt : α → α → Bool) (xs : List α) (x : α) : Bool :=
  match xs[lowerBound (lt · x) xs]? with
  | none => false
  | some y => !lt x y

/-- In a sorted list the search finds what is there. -/
theorem binarySearch_iff {lt : α → α → Bool} {xs : List α} (x : α)
    (hsorted : xs.Pairwise fun a b => lt b a = false)
    (htrans : ∀ a b c, lt b a = false → lt b c = true → lt a c = true)
    (hconn : ∀ a b, lt a b = false → lt b a = false → a = b) (hirrefl : ∀ a, lt a a = false) :
    binarySearch lt xs x = true ↔ x ∈ xs := by
  have hsplit : Split (lt · x) xs := hsorted.imp fun {a b} hab hb => htrans a b x hab hb
  have B := bounds_lowerBound hsplit
  unfold binarySearch
  constructor
  · intro h
    split at h
    · cases h
    · next y hy =>
      have hnot := B.after _ (le_refl _) y hy
      obtain rfl := hconn x y (by simpa using h) hnot
      exact List.mem_of_getElem? hy
  · intro hx
    obtain ⟨i, hi⟩ := List.mem_iff_getElem?.mp hx
    have hle : lowerBound (lt · x) xs ≤ i := by
      by_contra hlt
      have hbelow := B.before i (by omega) x hi
      rw [hirrefl] at hbelow
      cases hbelow
    obtain ⟨hlen, -⟩ := List.getElem?_eq_some_iff.mp hi
    obtain ⟨y, hy⟩ : ∃ y, xs[lowerBound (lt · x) xs]? = some y :=
      ⟨_, List.getElem?_eq_getElem (by omega)⟩
    rw [hy]
    dsimp only
    rcases Nat.eq_or_lt_of_le hle with heq | hlt
    · rw [heq, hi] at hy
      rw [← Option.some.inj hy, hirrefl]
      rfl
    · obtain ⟨hl, rfl⟩ := List.getElem?_eq_some_iff.mp hy
      obtain ⟨hi', rfl⟩ := List.getElem?_eq_some_iff.mp hi
      rw [List.pairwise_iff_getElem.mp hsorted _ _ hl hi' hlt]
      rfl

end BinarySearch
