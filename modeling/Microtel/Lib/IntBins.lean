import Mathlib.Tactic
import Mathlib.Order.Monotone.Basic
import Mathlib.Algebra.Order.Floor.Ring
import Mathlib.Algebra.Order.Floor.Semiring

/-!
Integers in bins: the least and the greatest of a list, how often each integer
between them occurs, and what remains of that when the integers are mapped by a
monotone function.
-/

namespace IntBins

/-! ### Ends -/

/-- The least of the integers, zero for none. -/
def lo (xs : List Int) : Int := xs.min?.getD 0

/-- The greatest of the integers, zero for none. -/
def hi (xs : List Int) : Int := xs.max?.getD 0

variable {xs ys : List Int}

theorem lo_eq {m : Int} (hmem : m ∈ xs) (hle : ∀ x ∈ xs, m ≤ x) : lo xs = m := by
  rw [lo, List.min?_eq_some_iff.mpr ⟨hmem, hle⟩, Option.getD_some]

theorem hi_eq {m : Int} (hmem : m ∈ xs) (hle : ∀ x ∈ xs, x ≤ m) : hi xs = m := by
  rw [hi, List.max?_eq_some_iff.mpr ⟨hmem, hle⟩, Option.getD_some]

theorem lo_spec (h : xs ≠ []) : lo xs ∈ xs ∧ ∀ x ∈ xs, lo xs ≤ x := by
  cases hmin : xs.min? with
  | none => exact absurd (List.min?_eq_none_iff.mp hmin) h
  | some m =>
      rw [lo, hmin, Option.getD_some]
      exact List.min?_eq_some_iff.mp hmin

theorem hi_spec (h : xs ≠ []) : hi xs ∈ xs ∧ ∀ x ∈ xs, x ≤ hi xs := by
  cases hmax : xs.max? with
  | none => exact absurd (List.max?_eq_none_iff.mp hmax) h
  | some m =>
      rw [hi, hmax, Option.getD_some]
      exact List.max?_eq_some_iff.mp hmax

theorem lo_le_hi (h : xs ≠ []) : lo xs ≤ hi xs := (lo_spec h).2 _ (hi_spec h).1

theorem lo_map {f : Int → Int} (hf : Monotone f) (h : xs ≠ []) : lo (xs.map f) = f (lo xs) := by
  obtain ⟨hmem, hle⟩ := lo_spec h
  apply lo_eq (List.mem_map_of_mem hmem)
  intro y hy
  obtain ⟨x, hx, rfl⟩ := List.mem_map.mp hy
  exact hf (hle x hx)

theorem hi_map {f : Int → Int} (hf : Monotone f) (h : xs ≠ []) : hi (xs.map f) = f (hi xs) := by
  obtain ⟨hmem, hle⟩ := hi_spec h
  apply hi_eq (List.mem_map_of_mem hmem)
  intro y hy
  obtain ⟨x, hx, rfl⟩ := List.mem_map.mp hy
  exact hf (hle x hx)

theorem lo_cons (x : Int) (h : xs ≠ []) : lo (x :: xs) = min (lo xs) x := by
  obtain ⟨hmem, hle⟩ := lo_spec h
  apply lo_eq
  · rcases min_choice (lo xs) x with heq | heq
    · rw [heq]
      exact List.mem_cons_of_mem _ hmem
    · rw [heq]
      exact List.mem_cons_self
  · intro y hy
    rcases List.mem_cons.mp hy with rfl | hy
    · exact min_le_right _ _
    · exact (min_le_left _ _).trans (hle y hy)

theorem hi_cons (x : Int) (h : xs ≠ []) : hi (x :: xs) = max (hi xs) x := by
  obtain ⟨hmem, hle⟩ := hi_spec h
  apply hi_eq
  · rcases max_choice (hi xs) x with heq | heq
    · rw [heq]
      exact List.mem_cons_of_mem _ hmem
    · rw [heq]
      exact List.mem_cons_self
  · intro y hy
    rcases List.mem_cons.mp hy with rfl | hy
    · exact le_max_right _ _
    · exact (hle y hy).trans (le_max_left _ _)

theorem lo_perm (h : xs.Perm ys) : lo xs = lo ys := by
  by_cases hnil : ys = []
  · rw [hnil] at h ⊢
    rw [h.eq_nil]
  · obtain ⟨hmem, hle⟩ := lo_spec hnil
    exact lo_eq (h.mem_iff.mpr hmem) fun x hx => hle x (h.mem_iff.mp hx)

theorem hi_perm (h : xs.Perm ys) : hi xs = hi ys := by
  by_cases hnil : ys = []
  · rw [hnil] at h ⊢
    rw [h.eq_nil]
  · obtain ⟨hmem, hle⟩ := hi_spec hnil
    exact hi_eq (h.mem_iff.mpr hmem) fun x hx => hle x (h.mem_iff.mp hx)

/-! ### Widths -/

/-- How many bins the integers need. -/
def width (xs : List Int) : Nat := if xs = [] then 0 else (hi xs - lo xs + 1).toNat

theorem width_of_ne_nil (h : xs ≠ []) : (width xs : Int) = hi xs - lo xs + 1 := by
  have hle := lo_le_hi h
  rw [width, if_neg h]
  omega

theorem width_perm (h : xs.Perm ys) : width xs = width ys := by
  unfold width
  by_cases hnil : ys = []
  · rw [hnil] at h ⊢
    rw [h.eq_nil]
  · have hne : xs ≠ [] := by
      rintro rfl
      exact hnil h.symm.eq_nil
    rw [if_neg hnil, if_neg hne, lo_perm h, hi_perm h]

theorem width_le_cons (x : Int) : width xs ≤ width (x :: xs) := by
  by_cases hnil : xs = []
  · simp [hnil, width]
  · have hall := width_of_ne_nil (List.cons_ne_nil x xs)
    have hxs := width_of_ne_nil hnil
    have hlo := lo_cons x hnil
    have hhi := hi_cons x hnil
    omega

theorem width_subset {ys : List Int} (h : xs ⊆ ys) : width xs ≤ width ys := by
  by_cases hnil : xs = []
  · rw [hnil]
    exact Nat.zero_le _
  · have hys : ys ≠ [] := by
      rintro rfl
      exact hnil (List.subset_nil.mp h)
    have hwx := width_of_ne_nil hnil
    have hwy := width_of_ne_nil hys
    have hlow := (lo_spec hys).2 _ (h (lo_spec hnil).1)
    have hhigh := (hi_spec hys).2 _ (h (hi_spec hnil).1)
    omega

/-! ### Counts -/

/-- The integers of a range, counted one bin after the other, are those of the list. -/
theorem sum_count_range (f : Int → Int) (lowest : Int) (n : Nat) (j : Int)
    (h : ∀ x ∈ xs, lowest ≤ x ∧ x < lowest + n) :
    (∑ k ∈ Finset.range n, if f (lowest + k) = j then xs.count (lowest + (k : Int)) else 0) =
      (xs.map f).count j := by
  induction xs with
  | nil => simp
  | cons x xs ih =>
      have hrest := ih fun y hy => h y (List.mem_cons_of_mem _ hy)
      obtain ⟨hlow, hhigh⟩ := h x List.mem_cons_self
      -- the new integer is counted in one bin only
      have hindex : ∀ k : Nat, (if f (lowest + k) = j then (if x = lowest + (k : Int) then 1 else 0)
          else 0) = if k = (x - lowest).toNat then (if f x = j then 1 else 0) else 0 := by
        intro k
        by_cases hk : k = (x - lowest).toNat
        · have heq : lowest + (k : Int) = x := by omega
          rw [heq, if_pos hk]
          simp
        · have hne : x ≠ lowest + (k : Int) := by omega
          rw [if_neg hne, if_neg hk]
          simp
      have hone : (∑ k ∈ Finset.range n,
          if f (lowest + k) = j then (if x = lowest + (k : Int) then 1 else 0) else 0) =
          if f x = j then 1 else 0 := by
        rw [Finset.sum_congr rfl fun k _ => hindex k, Finset.sum_ite_eq', if_pos]
        rw [Finset.mem_range]
        omega
      have hsplit : ∀ k : Nat,
          (if f (lowest + k) = j then (x :: xs).count (lowest + (k : Int)) else 0) =
          (if f (lowest + k) = j then xs.count (lowest + (k : Int)) else 0) +
            if f (lowest + k) = j then (if x = lowest + (k : Int) then 1 else 0) else 0 := by
        intro k
        rw [List.count_cons]
        split <;> simp
      rw [Finset.sum_congr rfl fun k _ => hsplit k, Finset.sum_add_distrib, hrest, hone,
        List.map_cons, List.count_cons]
      simp

/-- All the bins together hold the whole list. -/
theorem sum_count (lowest : Int) (n : Nat) (h : ∀ x ∈ xs, lowest ≤ x ∧ x < lowest + n) :
    (∑ k ∈ Finset.range n, xs.count (lowest + (k : Int))) = xs.length := by
  have hall := sum_count_range (fun _ => 0) lowest n 0 h
  simpa using hall

/-! ### Halving -/

theorem monotone_ediv (n : Nat) : Monotone fun x : Int => x / 2 ^ n :=
  fun _ _ h => Int.ediv_le_ediv (by positivity) h

theorem ediv_pow_add (x : Int) (m n : Nat) : x / 2 ^ (m + n) = x / 2 ^ m / 2 ^ n := by
  rw [pow_add, Int.ediv_ediv_of_nonneg (by positivity)]

theorem map_ediv_add (m n : Nat) :
    xs.map (· / 2 ^ (m + n)) = (xs.map (· / 2 ^ m)).map (· / 2 ^ n) := by
  rw [List.map_map]
  exact List.map_congr_left fun x _ => ediv_pow_add x m n

/-- Halving brings two integers no further apart. -/
theorem ediv_spread {low high : Int} (h : low ≤ high) (n : Nat) :
    high / 2 ^ n ≤ low / 2 ^ n + (high - low) := by
  have hpos : (0 : Int) < 2 ^ n := by positivity
  rw [← Int.add_mul_ediv_right _ _ hpos.ne']
  apply Int.ediv_le_ediv hpos
  nlinarith

/-- Halving the integers does not need more bins. -/
theorem width_ediv_le (n : Nat) : width (xs.map (· / 2 ^ n)) ≤ width xs := by
  by_cases hnil : xs = []
  · simp [hnil, width]
  · have hle := lo_le_hi hnil
    have hmapped := @width_of_ne_nil (xs.map (· / 2 ^ n)) (by simpa using hnil)
    have hxs := width_of_ne_nil hnil
    rw [lo_map (monotone_ediv n) hnil, hi_map (monotone_ediv n) hnil] at hmapped
    have hspread := ediv_spread hle n
    omega

theorem width_ediv_mono {m n : Nat} (h : m ≤ n) :
    width (xs.map (· / 2 ^ n)) ≤ width (xs.map (· / 2 ^ m)) := by
  obtain ⟨k, rfl⟩ := Nat.exists_eq_add_of_le h
  rw [map_ediv_add]
  exact width_ediv_le k

/-- And two bins are enough in the end. -/
theorem width_ediv_le_two {n : Nat} (h : ∀ x ∈ xs, x.natAbs < 2 ^ n) :
    width (xs.map (· / 2 ^ n)) ≤ 2 := by
  by_cases hnil : xs = []
  · simp [hnil, width]
  · have hmapped := @width_of_ne_nil (xs.map (· / 2 ^ n)) (by simpa using hnil)
    have hle := lo_le_hi hnil
    rw [lo_map (monotone_ediv n) hnil, hi_map (monotone_ediv n) hnil] at hmapped
    have hpos : (0 : Int) < 2 ^ n := by positivity
    have hends : ∀ x ∈ xs, -1 ≤ x / 2 ^ n ∧ x / 2 ^ n ≤ 0 := by
      intro x hx
      have hbound : (x.natAbs : Int) < 2 ^ n := by exact_mod_cast h x hx
      constructor
      · rw [Int.le_ediv_iff_mul_le hpos]
        omega
      · have hlt : x / 2 ^ n < 1 := by
          rw [Int.ediv_lt_iff_lt_mul hpos]
          omega
        omega
    have hlow := hends _ (lo_spec hnil).1
    have hhigh := hends _ (hi_spec hnil).1
    omega

end IntBins
