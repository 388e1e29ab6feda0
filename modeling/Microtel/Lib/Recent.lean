import Mathlib.Data.List.Sort
import Mathlib.Data.List.TakeWhile
import Mathlib.Tactic

/-!
The most recent entries of a history, newest first: the entries up to the first that
fails a test, at most `n` of them. The lowest two entries of a list of integers.
-/

namespace Recent

section Prefix

variable {α : Type} {p : α → Bool}

/-- A test that no older entry passes once a newer one has failed keeps a prefix. -/
theorem filter_eq_takeWhile {l : List α} (h : l.Pairwise fun a b => p b = true → p a = true) :
    l.filter p = l.takeWhile p := by
  induction l with
  | nil => rfl
  | cons a l ih =>
      obtain ⟨ha, hl⟩ := List.pairwise_cons.mp h
      cases hp : p a with
      | true => rw [List.filter_cons_of_pos hp, List.takeWhile_cons_of_pos hp, ih hl]
      | false =>
          rw [List.takeWhile_cons_of_neg (by rw [hp]; exact Bool.false_ne_true),
            List.filter_cons_of_neg (by rw [hp]; exact Bool.false_ne_true),
            List.filter_eq_nil_iff]
          intro b hb hpb
          rw [ha b hb hpb] at hp
          cases hp

theorem filter_take {l : List α} (h : l.Pairwise fun a b => p b = true → p a = true) (n : Nat) :
    (l.take n).filter p = (l.filter p).take n := by
  rw [filter_eq_takeWhile h, filter_eq_takeWhile (h.sublist (List.take_sublist n l)),
    List.take_takeWhile]

theorem take_cons_take (a : α) (l : List α) (n : Nat) :
    (a :: l.take n).take n = (a :: l).take n := by
  cases n with
  | zero => rfl
  | succ n =>
      rw [List.take_succ_cons, List.take_succ_cons, List.take_take, Nat.min_eq_left n.le_succ]

/-- Replacing an entry by one that the test does not tell apart replaces it among the
recent ones. -/
theorem recent_replace {a : α} (a' : α) (ha : p a' = p a) (before : List α) {after kept : List α}
    {n : Nat} (h : ((before ++ a :: after).takeWhile p).take n = before ++ a :: kept) :
    ((before ++ a' :: after).takeWhile p).take n = before ++ a' :: kept := by
  induction before generalizing n with
  | nil =>
      rw [List.nil_append] at h ⊢
      cases hp : p a with
      | false =>
          rw [List.takeWhile_cons_of_neg (by rw [hp]; exact Bool.false_ne_true), List.take_nil] at h
          cases h
      | true =>
          cases n with
          | zero => cases h
          | succ n =>
              rw [List.takeWhile_cons_of_pos hp, List.take_succ_cons] at h
              rw [List.takeWhile_cons_of_pos (ha.trans hp), List.take_succ_cons,
                (List.cons.inj h).2]
              rfl
  | cons b before ih =>
      rw [List.cons_append] at h ⊢
      cases hp : p b with
      | false =>
          rw [List.takeWhile_cons_of_neg (by rw [hp]; exact Bool.false_ne_true), List.take_nil] at h
          cases h
      | true =>
          cases n with
          | zero => cases h
          | succ n =>
              rw [List.takeWhile_cons_of_pos hp, List.take_succ_cons] at h
              rw [List.takeWhile_cons_of_pos hp, List.take_succ_cons, ih (List.cons.inj h).2]
              rfl

end Prefix

/-! ### The lowest two -/

/-- The second-smallest entry, with multiplicity, or the only one. -/
def corroborated (l : List Int) : Option Int :=
  match l.insertionSort (· ≤ ·) with
  | [] => none
  | [only] => some only
  | _ :: second :: _ => some second

theorem corroborated_perm {l l' : List Int} (h : l.Perm l') : corroborated l = corroborated l' := by
  have hsort : l.insertionSort (· ≤ ·) = l'.insertionSort (· ≤ ·) :=
    ((List.perm_insertionSort (· ≤ ·) l).trans
      (h.trans (List.perm_insertionSort (· ≤ ·) l').symm)).eq_of_pairwise'
      (List.pairwise_insertionSort (· ≤ ·) l) (List.pairwise_insertionSort (· ≤ ·) l')
  rw [corroborated, hsort, corroborated]

/-- One round of a scan that keeps the lowest two entries. -/
def keepLowest (s : Int × Int) (x : Int) : Int × Int :=
  if x < s.1 then (x, s.1) else if x < s.2 then (s.1, x) else s

/-- The scan holds the lowest two of the entries read and of its first two values. -/
structure Lowest (l : List Int) (s : Int × Int) (rest : List Int) : Prop where
  perm : (s.1 :: s.2 :: rest).Perm l
  le : s.1 ≤ s.2
  least : ∀ x ∈ rest, s.2 ≤ x

theorem Lowest.keep {l : List Int} {s : Int × Int} {rest : List Int}
    (L : Lowest l s rest) (x : Int) :
    ∃ rest', Lowest (x :: l) (keepLowest s x) rest' := by
  have hperm : (x :: s.1 :: s.2 :: rest).Perm (x :: l) := L.perm.cons x
  unfold keepLowest
  split
  · next hlt =>
    refine ⟨s.2 :: rest, hperm, hlt.le, fun y hy => ?_⟩
    rcases List.mem_cons.mp hy with rfl | hy
    · exact L.le
    · exact le_trans L.le (L.least y hy)
  · next hge =>
    split
    · next hlt =>
      refine ⟨s.2 :: rest, (List.Perm.swap x s.1 _).trans hperm, not_lt.mp hge, fun y hy => ?_⟩
      rcases List.mem_cons.mp hy with rfl | hy
      · exact hlt.le
      · exact le_trans hlt.le (L.least y hy)
    · next hge' =>
      refine ⟨x :: rest, ?_, L.le, fun y hy => ?_⟩
      · have hswap : (s.1 :: s.2 :: x :: rest).Perm (s.1 :: x :: s.2 :: rest) :=
          (List.Perm.swap x s.2 rest).cons s.1
        exact hswap.trans ((List.Perm.swap x s.1 _).trans hperm)
      · rcases List.mem_cons.mp hy with rfl | hy
        · exact not_lt.mp hge'
        · exact L.least y hy

/-- Run lemma: a scan from two values above every entry. -/
theorem lowest_foldl {l : List Int} {s : Int × Int} {rest : List Int} (L : Lowest l s rest)
    (xs : List Int) : ∃ rest', Lowest (xs.reverse ++ l) (xs.foldl keepLowest s) rest' := by
  induction xs generalizing l s rest with
  | nil => exact ⟨rest, L⟩
  | cons x xs ih =>
      obtain ⟨rest', L'⟩ := L.keep x
      obtain ⟨rest'', L''⟩ := ih L'
      rw [List.reverse_cons, List.append_assoc]
      exact ⟨rest'', L''⟩

/-- What the scan holds is what sorting puts in front. -/
theorem Lowest.sorted {l : List Int} {s : Int × Int} {rest : List Int} (L : Lowest l s rest) :
    l.insertionSort (· ≤ ·) = s.1 :: s.2 :: rest.insertionSort (· ≤ ·) := by
  have hrest := List.perm_insertionSort (· ≤ ·) rest
  refine ((List.perm_insertionSort (· ≤ ·) l).trans (L.perm.symm.trans ?_)).eq_of_pairwise'
    (List.pairwise_insertionSort (· ≤ ·) l) ?_
  · exact (hrest.symm.cons s.2).cons s.1
  · have hleast : ∀ x ∈ rest.insertionSort (· ≤ ·), s.2 ≤ x := fun x hx =>
      L.least x (hrest.mem_iff.mp hx)
    refine List.pairwise_cons.mpr ⟨fun x hx => ?_, List.pairwise_cons.mpr ⟨hleast, ?_⟩⟩
    · rcases List.mem_cons.mp hx with rfl | hx
      · exact L.le
      · exact le_trans L.le (hleast x hx)
    · exact List.pairwise_insertionSort (· ≤ ·) rest

/-- A scan from a value that no entry exceeds ends with the corroborated entry. -/
theorem corroborated_scan {top : Int} {xs : List Int} (htop : ∀ x ∈ xs, x ≤ top) (hne : xs ≠ []) :
    corroborated xs = some (if xs.length < 2 then (xs.foldl keepLowest (top, top)).1
      else (xs.foldl keepLowest (top, top)).2) := by
  have hstart : Lowest [top, top] (top, top) [] := ⟨List.Perm.refl _, le_rfl, nofun⟩
  obtain ⟨rest, L⟩ := lowest_foldl hstart xs
  have hsort := L.sorted
  have hpadded : (xs.reverse ++ [top, top]).insertionSort (· ≤ ·) =
      xs.insertionSort (· ≤ ·) ++ [top, top] := by
    refine ((List.perm_insertionSort (· ≤ ·) _).trans ?_).eq_of_pairwise'
      (List.pairwise_insertionSort (· ≤ ·) _) ?_
    · exact (xs.reverse_perm.trans (List.perm_insertionSort (· ≤ ·) xs).symm).append_right _
    · refine List.pairwise_append.mpr ⟨List.pairwise_insertionSort (· ≤ ·) xs, by simp, ?_⟩
      intro x hx y hy
      have hy : y = top := by simpa using hy
      rw [hy]
      exact htop x ((List.mem_insertionSort (· ≤ ·)).mp hx)
  rw [hpadded] at hsort
  have hlength := List.length_insertionSort (· ≤ ·) xs
  unfold corroborated
  cases hxs : xs.insertionSort (· ≤ ·) with
  | nil =>
      rw [hxs] at hlength
      exact absurd (List.eq_nil_of_length_eq_zero hlength.symm) hne
  | cons first more =>
      cases more with
      | nil =>
          rw [hxs] at hsort hlength
          rw [if_pos (by rw [← hlength]; exact Nat.one_lt_two), (List.cons.inj hsort).1]
      | cons second more =>
          rw [hxs] at hsort hlength
          rw [if_neg (by rw [← hlength]; simp), (List.cons.inj (List.cons.inj hsort).2).1]

/-- One entry cannot bring the corroborated one below a bound of the others. -/
theorem le_corroborated {before after : List Int} {x low result : Int}
    (hlow : ∀ y ∈ before ++ after, low ≤ y) (hne : before ++ after ≠ [])
    (hresult : corroborated (before ++ x :: after) = some result) : low ≤ result := by
  have hperm : (before ++ x :: after).insertionSort (· ≤ ·) |>.Perm (x :: (before ++ after)) :=
    (List.perm_insertionSort (· ≤ ·) _).trans List.perm_middle
  have hsorted := List.pairwise_insertionSort (· ≤ ·) (before ++ x :: after)
  unfold corroborated at hresult
  generalize (before ++ x :: after).insertionSort (· ≤ ·) = sorted at hperm hsorted hresult
  match sorted, hperm, hsorted, hresult with
  | [], hperm, _, _ => cases hperm.nil_eq
  | [_], hperm, _, _ =>
      have hlength := hperm.length_eq
      rw [List.length_cons, List.length_cons] at hlength
      exact absurd (List.eq_nil_of_length_eq_zero (Nat.succ.inj hlength).symm) hne
  | first :: second :: rest, hperm, hsorted, hresult =>
      obtain rfl := Option.some.inj hresult
      by_contra hlt
      have hsecond : second < low := not_le.mp hlt
      have hfirst : first < low :=
        lt_of_le_of_lt ((List.pairwise_cons.mp hsorted).1 second (List.mem_cons_self ..)) hsecond
      have hothers : (before ++ after).countP (· < low) = 0 := by
        rw [List.countP_eq_zero]
        intro y hy
        simpa using hlow y hy
      have hcount := hperm.countP_eq (· < low)
      rw [List.countP_cons_of_pos (by simpa using hfirst),
        List.countP_cons_of_pos (by simpa using hsecond), List.countP_cons, hothers] at hcount
      split at hcount <;> omega

end Recent
