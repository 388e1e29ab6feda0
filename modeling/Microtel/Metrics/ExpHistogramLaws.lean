import Microtel.Lib.IntBins
import Microtel.Metrics.ExpHistogram
import Mathlib.Analysis.SpecialFunctions.Log.Base

/-!
An exponential histogram point after any sequence of values: its scale is the
largest that fits, and its buckets are what counting every value afresh at that
scale gives.
-/

namespace Microtel.Metrics

open IntBins

/-! ### Halving indices -/

theorem floorDivPow2_eq (value : Int) (shift : Nat) :
    floorDivPow2 value shift = value / 2 ^ shift := by
  unfold floorDivPow2
  dsimp only
  have hpos : (0 : Int) < 2 ^ shift := by positivity
  have hsign : (2 ^ shift : Int).sign = 1 := Int.sign_eq_one_of_pos hpos
  rw [Int.ediv_eq_tdiv, hsign]
  simp only [Int.dvd_iff_tmod_eq_zero]
  split
  · next h =>
    rw [if_neg]
    rintro (hnonneg | hzero)
    · omega
    · exact h.1 hzero
  · next h =>
    rw [if_pos]
    · omega
    · by_cases hnonneg : 0 ≤ value
      · exact .inl hnonneg
      · right
        by_contra hne
        exact h ⟨hne, by omega⟩

/-! ### Buckets by index -/

/-- The count of an index, zero outside the array. -/
def ExpBuckets.bucket (buckets : ExpBuckets) (i : Int) : Nat :=
  if i < buckets.offset then 0 else buckets.counts[(i - buckets.offset).toNat]?.getD 0

theorem bucket_makeRoom (buckets : ExpBuckets) (index i : Int) :
    (makeRoom buckets index).bucket i = buckets.bucket i := by
  unfold makeRoom ExpBuckets.bucket
  split
  · next hnil =>
    have hzero : ([0] : List Nat)[(i - index).toNat]?.getD 0 = 0 := by
      cases (i - index).toNat <;> rfl
    simp [hnil, hzero]
  · split
    · next hless =>
      dsimp only
      by_cases hi : i < index
      · rw [if_pos hi, if_pos (by omega)]
      · rw [if_neg hi, List.getElem?_append, List.length_replicate]
        by_cases hin : i < buckets.offset
        · rw [if_pos hin, if_pos (by omega), List.getElem?_replicate_of_lt (by omega)]
          rfl
        · have hslot : (i - index).toNat - (buckets.offset - index).toNat =
              (i - buckets.offset).toNat := by omega
          rw [if_neg hin, if_neg (by omega), hslot]
    · split
      · next hmore =>
        dsimp only
        by_cases hi : i < buckets.offset
        · rw [if_pos hi, if_pos hi]
        · rw [if_neg hi, if_neg hi, List.getElem?_append]
          split
          · rfl
          · next hout =>
            rw [List.getElem?_eq_none (by omega : buckets.counts.length ≤ _),
              List.getElem?_replicate]
            split <;> rfl
      · rfl

theorem makeRoom_ends_nil {buckets : ExpBuckets} (h : buckets.counts = []) (index : Int) :
    (makeRoom buckets index).offset = index ∧ lastIndex (makeRoom buckets index) = index := by
  unfold makeRoom lastIndex
  rw [if_pos h]
  simp

theorem makeRoom_ends {buckets : ExpBuckets} (h : buckets.counts ≠ []) (index : Int) :
    (makeRoom buckets index).offset = min buckets.offset index ∧
      lastIndex (makeRoom buckets index) = max (lastIndex buckets) index := by
  have hlen : 0 < buckets.counts.length := List.length_pos_iff.mpr h
  unfold makeRoom
  rw [if_neg h]
  split
  · unfold lastIndex
    simp
    omega
  · split
    · next hmore =>
      unfold lastIndex at hmore ⊢
      simp
      omega
    · omega

/-- The array of `makeRoom` holds the index. -/
theorem makeRoom_holds (buckets : ExpBuckets) (index : Int) :
    (makeRoom buckets index).offset ≤ index ∧ index ≤ lastIndex (makeRoom buckets index) := by
  by_cases hnil : buckets.counts = []
  · have hends := makeRoom_ends_nil hnil index
    omega
  · have hends := makeRoom_ends hnil index
    omega

theorem bucket_place (buckets : ExpBuckets) (index i : Int) :
    (place buckets index).bucket i = buckets.bucket i + if i = index then 1 else 0 := by
  rw [← bucket_makeRoom buckets index i]
  obtain ⟨hlow, hhigh⟩ := makeRoom_holds buckets index
  unfold place ExpBuckets.bucket
  unfold lastIndex at hhigh
  generalize makeRoom buckets index = room at *
  dsimp only
  by_cases hi : i < room.offset
  · rw [if_pos hi, if_pos hi, if_neg (by omega)]
  · rw [if_neg hi, if_neg hi]
    rw [List.getElem?_modify]
    by_cases heq : i = index
    · subst heq
      rw [List.getElem?_eq_getElem (by omega)]
      simp
    · have hne : ¬ (index - room.offset).toNat = (i - room.offset).toNat := by omega
      simp [hne, heq]

/-! ### Direct counting -/

/-- The buckets of a list of indices. -/
def countedBuckets (xs : List Int) : ExpBuckets where
  offset := lo xs
  counts := (List.range (width xs)).map fun k : Nat => xs.count (lo xs + (k : Int))

theorem countedBuckets_perm {xs ys : List Int} (h : xs.Perm ys) :
    countedBuckets xs = countedBuckets ys := by
  unfold countedBuckets
  rw [lo_perm h, width_perm h]
  congr 2
  funext k
  exact h.count_eq _

variable {xs : List Int}

theorem countedBuckets_nil : countedBuckets [] = {} := rfl

theorem length_countedBuckets : (countedBuckets xs).counts.length = width xs := by
  simp [countedBuckets]

theorem countedBuckets_counts_eq_nil : (countedBuckets xs).counts = [] ↔ xs = [] := by
  rw [← List.length_eq_zero_iff, length_countedBuckets]
  constructor
  · intro hzero
    by_contra hne
    have hwidth := width_of_ne_nil hne
    have hle := lo_le_hi hne
    omega
  · rintro rfl
    rfl

theorem lastIndex_countedBuckets (h : xs ≠ []) : lastIndex (countedBuckets xs) = hi xs := by
  unfold lastIndex
  rw [length_countedBuckets, width_of_ne_nil h]
  change lo xs + _ - 1 = _
  omega

theorem bucket_countedBuckets (i : Int) : (countedBuckets xs).bucket i = xs.count i := by
  unfold ExpBuckets.bucket countedBuckets
  dsimp only
  by_cases hnil : xs = []
  · simp [hnil, width]
  · obtain ⟨-, hlow⟩ := lo_spec hnil
    obtain ⟨-, hhigh⟩ := hi_spec hnil
    have hwidth := width_of_ne_nil hnil
    by_cases hi' : i < lo xs
    · rw [if_pos hi', eq_comm, List.count_eq_zero]
      intro hmem
      have hle := hlow i hmem
      omega
    · rw [if_neg hi', List.getElem?_map]
      by_cases hin : (i - lo xs).toNat < width xs
      · have heq : lo xs + ((i - lo xs).toNat : Int) = i := by omega
        rw [List.getElem?_range hin, Option.map_some, Option.getD_some, heq]
      · rw [List.getElem?_eq_none (by simpa using hin), eq_comm]
        simp only [Option.map_none, Option.getD_none]
        rw [List.count_eq_zero]
        intro hmem
        have hle := hhigh i hmem
        omega

/-- Buckets are known by their ends and their counts. -/
theorem eq_countedBuckets {buckets : ExpBuckets} (hoffset : buckets.offset = lo xs)
    (hlength : buckets.counts.length = width xs) (hbucket : ∀ i, buckets.bucket i = xs.count i) :
    buckets = countedBuckets xs := by
  have hcounts : buckets.counts = (countedBuckets xs).counts := by
    apply List.ext_getElem
    · rw [hlength, length_countedBuckets]
    · intro k hk hk'
      have hat := hbucket (lo xs + k)
      unfold ExpBuckets.bucket at hat
      have hslot : (lo xs + (k : Int) - lo xs).toNat = k := by omega
      rw [hoffset, if_neg (by omega), hslot, List.getElem?_eq_getElem hk, Option.getD_some] at hat
      simp [hat, countedBuckets]
  cases buckets
  rw [countedBuckets]
  congr 1

/-! ### Place -/

/-- Placing an index is counting one more. -/
theorem place_countedBuckets (index : Int) :
    place (countedBuckets xs) index = countedBuckets (index :: xs) := by
  have hplaced : (place (countedBuckets xs) index).offset =
      (makeRoom (countedBuckets xs) index).offset ∧
      (place (countedBuckets xs) index).counts.length =
      (makeRoom (countedBuckets xs) index).counts.length := by
    simp [place]
  have hwidth := width_of_ne_nil (List.cons_ne_nil index xs)
  have hends : (makeRoom (countedBuckets xs) index).offset = lo (index :: xs) ∧
      lastIndex (makeRoom (countedBuckets xs) index) = hi (index :: xs) := by
    by_cases hnil : xs = []
    · have hends := makeRoom_ends_nil (countedBuckets_counts_eq_nil.mpr hnil) index
      rw [hnil] at hends ⊢
      exact hends
    · have hends := makeRoom_ends (mt countedBuckets_counts_eq_nil.mp hnil) index
      rw [lastIndex_countedBuckets hnil] at hends
      rw [lo_cons index hnil, hi_cons index hnil]
      exact hends
  have hlast := hends.2
  unfold lastIndex at hlast
  apply eq_countedBuckets
  · rw [hplaced.1, hends.1]
  · rw [hplaced.2]
    omega
  · intro i
    rw [bucket_place, bucket_countedBuckets, List.count_cons]
    by_cases heq : i = index
    · simp [heq]
    · simp [heq, Ne.symm heq]

/-! ### Rescale -/

theorem mergeBucket_spec (buckets : ExpBuckets) (shift : Nat) (newOffset : Int) (merged : List Nat)
    (k : Nat) (hslot : buckets.counts.getD k 0 ≠ 0 →
      0 ≤ (buckets.offset + (k : Int)) / 2 ^ shift - newOffset ∧
        (buckets.offset + (k : Int)) / 2 ^ shift - newOffset < merged.length) :
    (mergeBucket buckets shift newOffset merged k).length = merged.length ∧
      ∀ j : Nat, (mergeBucket buckets shift newOffset merged k)[j]?.getD 0 = merged[j]?.getD 0 +
        if (buckets.offset + (k : Int)) / 2 ^ shift = newOffset + j then buckets.counts.getD k 0
        else 0 := by
  unfold mergeBucket
  dsimp only
  rw [floorDivPow2_eq]
  split
  · next hzero =>
    refine ⟨rfl, ?_⟩
    intro j
    rw [hzero, ite_self, add_zero]
  · next hcount =>
    obtain ⟨hlow, hhigh⟩ := hslot hcount
    refine ⟨by simp, ?_⟩
    intro j
    rw [List.getElem?_modify]
    by_cases hj : (buckets.offset + (k : Int)) / 2 ^ shift = newOffset + j
    · have heq : ((buckets.offset + (k : Int)) / 2 ^ shift - newOffset).toNat = j := by omega
      rw [if_pos hj, List.getElem?_eq_getElem (by omega : j < merged.length)]
      simp only [heq, if_true]
      rfl
    · have hne : ((buckets.offset + (k : Int)) / 2 ^ shift - newOffset).toNat ≠ j := by omega
      rw [if_neg hj]
      simp [hne]

/-- The counts after the first `n` rounds of the loop. -/
theorem foldl_mergeBucket (buckets : ExpBuckets) (shift : Nat) (newOffset : Int) (merged : List Nat)
    (n : Nat) (hslots : ∀ k < n, buckets.counts.getD k 0 ≠ 0 →
      0 ≤ (buckets.offset + (k : Int)) / 2 ^ shift - newOffset ∧
        (buckets.offset + (k : Int)) / 2 ^ shift - newOffset < merged.length) :
    ((List.range n).foldl (mergeBucket buckets shift newOffset) merged).length = merged.length ∧
      ∀ j : Nat, ((List.range n).foldl (mergeBucket buckets shift newOffset) merged)[j]?.getD 0 =
        merged[j]?.getD 0 + ∑ k ∈ Finset.range n,
          if (buckets.offset + (k : Int)) / 2 ^ shift = newOffset + j then buckets.counts.getD k 0
          else 0 := by
  induction n with
  | zero => simp
  | succ n ih =>
      obtain ⟨hlength, hcounts⟩ := ih fun k hk => hslots k (by omega)
      obtain ⟨hlength', hcounts'⟩ := mergeBucket_spec buckets shift newOffset
        ((List.range n).foldl (mergeBucket buckets shift newOffset) merged) n
        (by rw [hlength]; exact hslots n (by omega))
      rw [List.range_succ, List.foldl_append, List.foldl_cons, List.foldl_nil]
      refine ⟨hlength'.trans hlength, ?_⟩
      intro j
      rw [hcounts', hcounts, Finset.sum_range_succ, add_assoc]

/-- Merging the buckets is counting the merged indices. -/
theorem rescale_countedBuckets (shift : Nat) :
    rescale (countedBuckets xs) shift = countedBuckets (xs.map (· / 2 ^ shift)) := by
  by_cases hnil : xs = []
  · rw [hnil, List.map_nil, countedBuckets_nil]
    rfl
  · have hne : xs.map (· / 2 ^ shift) ≠ [] := by simpa using hnil
    have hlo := lo_map (monotone_ediv shift) hnil
    have hhi := hi_map (monotone_ediv shift) hnil
    have hwidth := width_of_ne_nil hnil
    have hwidth' := width_of_ne_nil hne
    have hle := lo_le_hi hne
    rw [hlo, hhi] at hwidth' hle
    obtain ⟨-, hlow⟩ := lo_spec hnil
    obtain ⟨-, hhigh⟩ := hi_spec hnil
    -- the code's array has the ends of the merged indices
    have hoffset : (rescale (countedBuckets xs) shift).offset = lo xs / 2 ^ shift := by
      unfold rescale
      rw [if_neg (mt countedBuckets_counts_eq_nil.mp hnil)]
      exact floorDivPow2_eq _ _
    have hcounts : (rescale (countedBuckets xs) shift).counts =
        (List.range (width xs)).foldl (mergeBucket (countedBuckets xs) shift (lo xs / 2 ^ shift))
          (List.replicate (hi xs / 2 ^ shift - lo xs / 2 ^ shift + 1).toNat 0) := by
      unfold rescale
      rw [if_neg (mt countedBuckets_counts_eq_nil.mp hnil), lastIndex_countedBuckets hnil,
        length_countedBuckets, floorDivPow2_eq, floorDivPow2_eq]
      rfl
    have hat : ∀ k < width xs, (countedBuckets xs).counts.getD k 0 =
        xs.count (lo xs + (k : Int)) := by
      intro k hk
      simp [countedBuckets, hk]
    obtain ⟨hlength, hmerged⟩ := foldl_mergeBucket (countedBuckets xs) shift (lo xs / 2 ^ shift)
      (List.replicate (hi xs / 2 ^ shift - lo xs / 2 ^ shift + 1).toNat 0) (width xs) (by
        intro k hk _
        have hfirst : lo xs / 2 ^ shift ≤ (lo xs + (k : Int)) / 2 ^ shift :=
          monotone_ediv shift (by omega)
        have hlast : (lo xs + (k : Int)) / 2 ^ shift ≤ hi xs / 2 ^ shift :=
          monotone_ediv shift (by omega)
        change 0 ≤ (lo xs + (k : Int)) / 2 ^ shift - _ ∧ (lo xs + (k : Int)) / 2 ^ shift - _ < _
        rw [List.length_replicate]
        omega)
    apply eq_countedBuckets
    · rw [hoffset, hlo]
    · rw [hcounts, hlength, List.length_replicate]
      omega
    · intro i
      unfold ExpBuckets.bucket
      rw [hoffset, hcounts]
      by_cases hi' : i < lo xs / 2 ^ shift
      · rw [if_pos hi', eq_comm, List.count_eq_zero]
        intro hmem
        have hmin := (lo_spec hne).2 i hmem
        rw [hlo] at hmin
        omega
      · have hj : lo xs / 2 ^ shift + ((i - lo xs / 2 ^ shift).toNat : Int) = i := by omega
        rw [if_neg hi', hmerged, hj, ← sum_count_range (· / 2 ^ shift) (lo xs) (width xs) i (by
          intro x hx
          have hx₁ := hlow x hx
          have hx₂ := hhigh x hx
          omega)]
        have hzero : (List.replicate (hi xs / 2 ^ shift - lo xs / 2 ^ shift + 1).toNat
            0)[(i - lo xs / 2 ^ shift).toNat]?.getD 0 = 0 := by
          rw [List.getElem?_replicate]
          split <;> rfl
        rw [hzero, zero_add]
        apply Finset.sum_congr rfl
        intro k hk
        rw [hat k (Finset.mem_range.mp hk)]
        rfl

/-! ### Downscaling -/

theorem mergedSpan_countedBuckets (h : xs ≠ []) (index : Int) (change : Nat) :
    mergedSpan (countedBuckets xs) index change =
      width ((index :: xs).map (· / 2 ^ change)) := by
  have hne : index :: xs ≠ [] := List.cons_ne_nil index xs
  rw [width_of_ne_nil (by simp), lo_map (monotone_ediv change) hne,
    hi_map (monotone_ediv change) hne,
    lo_cons index h, hi_cons index h, ← lastIndex_countedBuckets h]
  unfold mergedSpan
  rw [floorDivPow2_eq, floorDivPow2_eq]
  rfl

theorem requiredDownscaleFrom_spec {buckets : ExpBuckets} {index maxBuckets : Int}
    {fuel change result : Nat}
    (h : requiredDownscaleFrom buckets index maxBuckets fuel change = some result) :
    change ≤ result ∧ mergedSpan buckets index result ≤ maxBuckets ∧
      ∀ c, change ≤ c → c < result → maxBuckets < mergedSpan buckets index c := by
  induction fuel generalizing change with
  | zero => cases h
  | succ fuel ih =>
      unfold requiredDownscaleFrom at h
      split at h
      · next hover =>
        obtain ⟨hle, hfits, hbefore⟩ := ih h
        refine ⟨by omega, hfits, ?_⟩
        intro c hc hlt
        by_cases hfirst : c = change
        · rw [hfirst]
          exact hover
        · exact hbefore c (by omega) hlt
      · next hfits =>
        obtain rfl := Option.some.inj h
        exact ⟨le_refl _, by omega, by omega⟩

theorem requiredDownscaleFrom_ends {buckets : ExpBuckets} {index maxBuckets : Int}
    {fuel change c : Nat} (hlow : change ≤ c) (hhigh : c < change + fuel)
    (hfits : mergedSpan buckets index c ≤ maxBuckets) :
    ∃ result, requiredDownscaleFrom buckets index maxBuckets fuel change = some result := by
  induction fuel generalizing change with
  | zero => omega
  | succ fuel ih =>
      unfold requiredDownscaleFrom
      split
      · next hover =>
        have hne : c ≠ change := by
          rintro rfl
          omega
        exact ih (by omega) (by omega)
      · exact ⟨change, rfl⟩

/-- With two buckets a side the loop ends. -/
theorem requiredDownscale_ends (h : xs ≠ []) (index : Int) {maxBuckets : Int}
    (hmax : 2 ≤ maxBuckets) :
    ∃ result, requiredDownscale (countedBuckets xs) index maxBuckets = some result := by
  unfold requiredDownscale
  rw [lastIndex_countedBuckets h]
  change ∃ result, requiredDownscaleFrom _ _ _ ((min (lo xs) index).natAbs + _ + 1) 1 = _
  rw [← lo_cons index h, ← hi_cons index h]
  apply requiredDownscaleFrom_ends
    (c := (lo (index :: xs)).natAbs + (hi (index :: xs)).natAbs + 1) (by omega) (by omega)
  rw [mergedSpan_countedBuckets h]
  have hne : index :: xs ≠ [] := List.cons_ne_nil index xs
  have htwo : width ((index :: xs).map
      (· / 2 ^ ((lo (index :: xs)).natAbs + (hi (index :: xs)).natAbs + 1))) ≤ 2 := by
    apply width_ediv_le_two
    intro x hx
    have hlow := (lo_spec hne).2 x hx
    have hhigh := (hi_spec hne).2 x hx
    have hpow := @Nat.lt_two_pow_self ((lo (index :: xs)).natAbs + (hi (index :: xs)).natAbs + 1)
    omega
  omega

/-! ### One value -/

section Insert

variable {V : Type}

/-- A point whose buckets count the indices `pos` and `neg`, taken at the scale
`maxScale`, halved `down` times. -/
structure Counts (maxScale : Int) (pos neg : List Int) (down : Nat) (point : ExpHistoPoint V) :
    Prop where
  scale : point.scale = maxScale - down
  positive : point.positive = countedBuckets (pos.map (· / 2 ^ down))
  negative : point.negative = countedBuckets (neg.map (· / 2 ^ down))

/-- The indices of one sign. -/
def side (isNegative : Bool) (pos neg : List Int) : List Int := if isNegative then neg else pos

/-- One more index on a side. -/
def addTo (isNegative wanted : Bool) (index : Int) (xs : List Int) : List Int :=
  if isNegative = wanted then index :: xs else xs

theorem Counts.target {maxScale : Int} {pos neg : List Int} {down : Nat} {point : ExpHistoPoint V}
    (C : Counts maxScale pos neg down point) (isNegative : Bool) :
    point.target isNegative = countedBuckets ((side isNegative pos neg).map (· / 2 ^ down)) := by
  cases isNegative with
  | false => exact C.positive
  | true => exact C.negative

theorem Counts.place {maxScale : Int} {pos neg : List Int} {down : Nat} {point : ExpHistoPoint V}
    (C : Counts maxScale pos neg down point) (isNegative : Bool) (index : Int) :
    Counts maxScale (addTo isNegative false index pos) (addTo isNegative true index neg) down
      (point.withTarget isNegative
        (Metrics.place (point.target isNegative) (index / 2 ^ down))) := by
  rw [C.target, place_countedBuckets]
  cases isNegative with
  | false => exact ⟨C.scale, rfl, C.negative⟩
  | true => exact ⟨C.scale, C.positive, rfl⟩

theorem Counts.rescale {maxScale : Int} {pos neg : List Int} {down : Nat} {point : ExpHistoPoint V}
    (C : Counts maxScale pos neg down point) (change : Nat) :
    Counts maxScale pos neg (down + change)
      { point with
        positive := Metrics.rescale point.positive change
        negative := Metrics.rescale point.negative change
        scale := point.scale - change } := by
  refine ⟨?_, ?_, ?_⟩
  · have hscale := C.scale
    dsimp only
    push_cast
    omega
  · rw [C.positive, rescale_countedBuckets, map_ediv_add]
  · rw [C.negative, rescale_countedBuckets, map_ediv_add]

theorem Counts.perm {maxScale : Int} {pos pos' neg neg' : List Int} {down : Nat}
    {point : ExpHistoPoint V} (C : Counts maxScale pos neg down point) (hpos : pos.Perm pos')
    (hneg : neg.Perm neg') :
    Counts maxScale pos' neg' down point where
  scale := C.scale
  positive := C.positive.trans (countedBuckets_perm (hpos.map _))
  negative := C.negative.trans (countedBuckets_perm (hneg.map _))

/-- The widths of a side at the scales a point has been at. -/
structure Downscaled (maxBuckets : Int) (xs : List Int) (index : Int) (before after : Nat) :
    Prop where
  le : before ≤ after
  fits : xs = [] ∨ width ((index :: xs).map (· / 2 ^ after)) ≤ maxBuckets
  needed : ∀ d, before ≤ d → d < after → maxBuckets < width ((index :: xs).map (· / 2 ^ d))

section

variable {mapIndex : V → Int → Int} {maxScale maxBuckets : Int} {pos neg : List Int} {down : Nat}
  {point : ExpHistoPoint V} {absValue : V} {index : Int} {isNegative : Bool}

theorem width_map_cons_ediv (xs : List Int) (index : Int) (m n : Nat) :
    width ((index / 2 ^ m :: xs.map (· / 2 ^ m)).map (· / 2 ^ n)) =
      width ((index :: xs).map (· / 2 ^ (m + n))) := by
  rw [map_ediv_add]
  rfl

/-- `InsertValue` either finds room for the index or halves all indices, no more
often than it has to. -/
theorem insertValue_spec (C : Counts maxScale pos neg down point)
    (hindex : mapIndex absValue (maxScale - down) = index / 2 ^ down) {point' : ExpHistoPoint V}
    (h : insertValue mapIndex point absValue isNegative maxBuckets = some point') :
    ∃ down', Downscaled maxBuckets (side isNegative pos neg) index down down' ∧
      Counts maxScale (addTo isNegative false index pos) (addTo isNegative true index neg) down'
        point' := by
  unfold insertValue at h
  dsimp only at h
  rw [C.scale, hindex] at h
  have htarget := C.target isNegative
  have hempty : (point.target isNegative).counts = [] ↔ side isNegative pos neg = [] := by
    rw [htarget, countedBuckets_counts_eq_nil, List.map_eq_nil_iff]
  have hspan : side isNegative pos neg ≠ [] → ∀ c : Nat,
      mergedSpan (point.target isNegative) (index / 2 ^ down) c =
        width ((index :: side isNegative pos neg).map (· / 2 ^ (down + c))) := by
    intro hne c
    rw [htarget, mergedSpan_countedBuckets (by simpa using hne), width_map_cons_ediv]
  split at h
  · next hover =>
    have hne : side isNegative pos neg ≠ [] := fun hnil => hover.1 (hempty.mpr hnil)
    split at h
    · cases h
    · next change hchange =>
      obtain ⟨hone, hfits, hbefore⟩ := requiredDownscaleFrom_spec hchange
      rw [hspan hne] at hfits
      have hfirst := hover.2
      rw [hspan hne] at hfirst
      refine ⟨down + change, ⟨by omega, .inr hfits, ?_⟩, ?_⟩
      · intro d hd hlt
        obtain ⟨c, rfl⟩ := Nat.exists_eq_add_of_le hd
        by_cases hzero : c = 0
        · rw [hzero]
          exact hfirst
        · rw [← hspan hne]
          exact hbefore c (by omega) (by omega)
      · rw [← Option.some.inj h, floorDivPow2_eq, ← ediv_pow_add, ← C.scale]
        exact (C.rescale change).place isNegative index
  · next hroom =>
    refine ⟨down, ⟨le_refl _, ?_, by omega⟩, ?_⟩
    · by_cases hnil : side isNegative pos neg = []
      · exact .inl hnil
      · right
        by_contra hover
        refine hroom ⟨mt hempty.mp hnil, ?_⟩
        rw [hspan hnil]
        simpa using hover
    · rw [← Option.some.inj h]
      exact C.place isNegative index

/-- And with two buckets a side it returns. -/
theorem insertValue_returns (hmax : 2 ≤ maxBuckets) (C : Counts maxScale pos neg down point) :
    ∃ point', insertValue mapIndex point absValue isNegative maxBuckets = some point' := by
  unfold insertValue
  dsimp only
  split
  · next hover =>
    have hne : (side isNegative pos neg).map (· / 2 ^ down) ≠ [] := by
      intro hnil
      apply hover.1
      rw [C.target, countedBuckets_counts_eq_nil]
      exact hnil
    obtain ⟨change, hchange⟩ :=
      requiredDownscale_ends hne (mapIndex absValue point.scale) hmax
    rw [← C.target] at hchange
    rw [hchange]
    exact ⟨_, rfl⟩
  · exact ⟨_, rfl⟩

theorem insertValue_counters {point' : ExpHistoPoint V}
    (h : insertValue mapIndex point absValue isNegative maxBuckets = some point') :
    point'.count = point.count ∧ point'.zeroCount = point.zeroCount ∧ point'.sum = point.sum := by
  have hwith : ∀ (p : ExpHistoPoint V) (b : ExpBuckets),
      (p.withTarget isNegative b).count = p.count ∧
        (p.withTarget isNegative b).zeroCount = p.zeroCount ∧
        (p.withTarget isNegative b).sum = p.sum := by
    intro p b
    unfold ExpHistoPoint.withTarget
    split <;> exact ⟨rfl, rfl, rfl⟩
  unfold insertValue at h
  dsimp only at h
  split at h
  · split at h
    · cases h
    · rw [← Option.some.inj h]
      exact hwith _ _
  · rw [← Option.some.inj h]
    exact hwith _ _

end

end Insert

/-! ### The scale -/

/-- Both sides fit after halving `down` times. -/
def Fits (maxBuckets : Int) (pos neg : List Int) (down : Nat) : Prop :=
  width (pos.map (· / 2 ^ down)) ≤ maxBuckets ∧ width (neg.map (· / 2 ^ down)) ≤ maxBuckets

/-- The fewest halvings that fit. -/
structure Fewest (maxBuckets : Int) (pos neg : List Int) (down : Nat) : Prop where
  fits : Fits maxBuckets pos neg down
  least : ∀ d < down, ¬ Fits maxBuckets pos neg d

theorem width_map_le_cons (f : Int → Int) (index : Int) (xs : List Int) :
    width (xs.map f) ≤ width ((index :: xs).map f) := by
  rw [List.map_cons]
  exact width_le_cons (f index)

theorem Downscaled.width_le {maxBuckets : Int} {xs : List Int} {index : Int} {before after : Nat}
    (D : Downscaled maxBuckets xs index before after) (hmax : 1 ≤ maxBuckets) :
    width ((index :: xs).map (· / 2 ^ after)) ≤ maxBuckets := by
  rcases D.fits with rfl | hfits
  · have hone : width ([index].map (· / 2 ^ after)) = 1 := by
      simp [width, lo, hi]
    rw [hone]
    exact hmax
  · exact hfits

theorem Fewest.step {maxBuckets : Int} {pos neg : List Int} {index : Int} {before after : Nat}
    {isNegative : Bool} (F : Fewest maxBuckets pos neg before) (hmax : 1 ≤ maxBuckets)
    (D : Downscaled maxBuckets (side isNegative pos neg) index before after) :
    Fewest maxBuckets (addTo isNegative false index pos)
      (addTo isNegative true index neg) after := by
  have hside := D.width_le hmax
  have hneeded := D.needed
  have hkept : ∀ xs : List Int, width (xs.map (· / 2 ^ before)) ≤ maxBuckets →
      width (xs.map (· / 2 ^ after)) ≤ maxBuckets := by
    intro xs hxs
    have hmono := @width_ediv_mono xs _ _ D.le
    omega
  cases isNegative with
  | false =>
      refine ⟨⟨hside, hkept neg F.fits.2⟩, ?_⟩
      rintro d hd ⟨hpos, hneg⟩
      have hless := width_map_le_cons (· / 2 ^ d) index pos
      by_cases hbefore : d < before
      · exact F.least d hbefore ⟨le_trans (by exact_mod_cast hless) hpos, hneg⟩
      · have hover := hneeded d (by omega) hd
        exact absurd hpos (not_le.mpr hover)
  | true =>
      refine ⟨⟨hkept pos F.fits.1, hside⟩, ?_⟩
      rintro d hd ⟨hpos, hneg⟩
      have hless := width_map_le_cons (· / 2 ^ d) index neg
      by_cases hbefore : d < before
      · exact F.least d hbefore ⟨hpos, le_trans (by exact_mod_cast hless) hneg⟩
      · have hover := hneeded d (by omega) hd
        exact absurd hneg (not_le.mpr hover)

theorem Fewest.perm {maxBuckets : Int} {pos pos' neg neg' : List Int} {down : Nat}
    (F : Fewest maxBuckets pos neg down) (hpos : pos.Perm pos') (hneg : neg.Perm neg') :
    Fewest maxBuckets pos' neg' down := by
  have hfits : ∀ d, Fits maxBuckets pos neg d ↔ Fits maxBuckets pos' neg' d := by
    intro d
    unfold Fits
    rw [width_perm (hpos.map _), width_perm (hneg.map _)]
  refine ⟨(hfits down).mp F.fits, ?_⟩
  intro d hd h
  exact F.least d hd ((hfits d).mpr h)

/-! ### All values -/

section Record

variable {V : Type} [AddGroup V] [LinearOrder V] (mapIndex : V → Int → Int)

/-- The indices of the positive and of the negative values at a scale. -/
def positives (scale : Int) (values : List V) : List Int :=
  (values.filter fun v => 0 < v).map fun v => mapIndex |v| scale

def negatives (scale : Int) (values : List V) : List Int :=
  (values.filter fun v => v < 0).map fun v => mapIndex |v| scale

/-- Lowering the scale halves the index. -/
def Halves (maxScale : Int) : Prop :=
  ∀ (v : V) (down : Nat), mapIndex v (maxScale - down) = mapIndex v maxScale / 2 ^ down

variable (maxScale maxBuckets : Int)

/-- What a point knows about the values it has seen. -/
structure Seen (values : List V) (point : ExpHistoPoint V) : Prop where
  count : point.count = values.length
  zeroCount : point.zeroCount = values.count 0
  fresh : values = [] → point = .new
  shape : values ≠ [] → ∃ down,
    Counts maxScale (positives mapIndex maxScale values) (negatives mapIndex maxScale values) down
        point ∧
      (1 ≤ maxBuckets → Fewest maxBuckets (positives mapIndex maxScale values)
        (negatives mapIndex maxScale values) down)

variable {mapIndex maxScale maxBuckets} {values : List V} {point point' : ExpHistoPoint V} {v : V}

theorem Halves.positives (H : Halves mapIndex maxScale) (down : Nat) (values : List V) :
    (positives mapIndex maxScale values).map (· / 2 ^ down) =
      Metrics.positives mapIndex (maxScale - down) values := by
  unfold Metrics.positives
  rw [List.map_map]
  exact List.map_congr_left fun v _ => (H |v| down).symm

theorem Halves.negatives (H : Halves mapIndex maxScale) (down : Nat) (values : List V) :
    (negatives mapIndex maxScale values).map (· / 2 ^ down) =
      Metrics.negatives mapIndex (maxScale - down) values := by
  unfold Metrics.negatives
  rw [List.map_map]
  exact List.map_congr_left fun v _ => (H |v| down).symm

/-- The point before `InsertValue`. -/
def counted (maxScale : Int) (point : ExpHistoPoint V) (v : V) : ExpHistoPoint V :=
  let point :=
    if point.count = 0 then { point with scale := maxScale, min := v, max := v }
    else { point with min := Min.min point.min v, max := Max.max point.max v }
  { point with count := point.count + 1, sum := point.sum + v }

theorem recordExp_eq (maxScale maxBuckets : Int) (point : ExpHistoPoint V) (v : V) :
    recordExp mapIndex maxScale maxBuckets point v =
      if v = 0 then
        some { counted maxScale point v with zeroCount := (counted maxScale point v).zeroCount + 1 }
      else insertValue mapIndex (counted maxScale point v) |v| (v < 0) maxBuckets := rfl

theorem counted_counters (maxScale : Int) (point : ExpHistoPoint V) (v : V) :
    (counted maxScale point v).count = point.count + 1 ∧
      (counted maxScale point v).zeroCount = point.zeroCount := by
  unfold counted
  dsimp only
  split <;> exact ⟨rfl, rfl⟩

theorem Seen.counted (S : Seen mapIndex maxScale maxBuckets values point) :
    ∃ down, Counts maxScale (positives mapIndex maxScale values)
        (negatives mapIndex maxScale values) down (Metrics.counted maxScale point v) ∧
      (1 ≤ maxBuckets → Fewest maxBuckets (positives mapIndex maxScale values)
        (negatives mapIndex maxScale values) down) := by
  by_cases hnil : values = []
  · have hpoint := S.fresh hnil
    subst hnil
    refine ⟨0, ?_, ?_⟩
    · rw [hpoint]
      exact ⟨(sub_zero maxScale).symm, rfl, rfl⟩
    · intro hmax
      refine ⟨⟨?_, ?_⟩, by omega⟩
      · simp [positives, width]
        omega
      · simp [negatives, width]
        omega
  · obtain ⟨down, C, F⟩ := S.shape hnil
    have hcount : point.count ≠ 0 := by
      rw [S.count]
      exact fun hzero => hnil (List.length_eq_zero_iff.mp hzero)
    refine ⟨down, ?_, F⟩
    unfold Metrics.counted
    rw [if_neg hcount]
    exact ⟨C.scale, C.positive, C.negative⟩

theorem addTo_positives (hne : v ≠ 0) :
    addTo (decide (v < 0)) false (mapIndex |v| maxScale) (positives mapIndex maxScale values) =
      positives mapIndex maxScale (v :: values) := by
  unfold addTo positives
  by_cases hneg : v < 0
  · simp [hneg, hneg.le]
  · have hpos : 0 < v := lt_of_le_of_ne (not_lt.mp hneg) (Ne.symm hne)
    simp [hneg, hpos]

theorem addTo_negatives :
    addTo (decide (v < 0)) true (mapIndex |v| maxScale) (negatives mapIndex maxScale values) =
      negatives mapIndex maxScale (v :: values) := by
  unfold addTo negatives
  by_cases hneg : v < 0
  · simp [hneg]
  · simp [hneg]

/-- One more value. -/
theorem Seen.record (S : Seen mapIndex maxScale maxBuckets values point)
    (hhalves : Halves mapIndex maxScale)
    (h : recordExp mapIndex maxScale maxBuckets point v = some point') :
    Seen mapIndex maxScale maxBuckets (v :: values) point' := by
  rw [recordExp_eq] at h
  obtain ⟨hcount, hzero⟩ := counted_counters maxScale point v
  obtain ⟨down, C, F⟩ := S.counted (v := v)
  split at h
  · next hv =>
    subst hv
    rw [← Option.some.inj h]
    refine ⟨?_, ?_, by simp, ?_⟩
    · rw [List.length_cons, ← S.count]
      exact hcount
    · rw [List.count_cons_self, ← S.zeroCount]
      exact congrArg (· + 1) hzero
    · intro _
      have hpos : positives mapIndex maxScale (0 :: values) =
          positives mapIndex maxScale values := by
        simp [positives]
      have hneg : negatives mapIndex maxScale (0 :: values) =
          negatives mapIndex maxScale values := by
        simp [negatives]
      rw [hpos, hneg]
      exact ⟨down, ⟨C.scale, C.positive, C.negative⟩, F⟩
  · next hv =>
    obtain ⟨hcount', hzero', -⟩ := insertValue_counters h
    obtain ⟨down', D, C'⟩ := insertValue_spec C (hhalves |v| down) h
    refine ⟨?_, ?_, by simp, ?_⟩
    · rw [hcount', hcount, S.count, List.length_cons]
    · rw [hzero', hzero, S.zeroCount, List.count_cons_of_ne hv]
    · intro _
      rw [addTo_positives hv, addTo_negatives] at C'
      refine ⟨down', C', ?_⟩
      intro hmax
      have F' := (F hmax).step hmax D
      rw [addTo_positives hv, addTo_negatives] at F'
      exact F'

theorem Seen.returns (S : Seen mapIndex maxScale maxBuckets values point) (hmax : 2 ≤ maxBuckets)
    (v : V) : ∃ point', recordExp mapIndex maxScale maxBuckets point v = some point' := by
  obtain ⟨down, C, -⟩ := S.counted (v := v)
  rw [recordExp_eq]
  split
  · exact ⟨_, rfl⟩
  · exact insertValue_returns hmax C

theorem Seen.new : Seen mapIndex maxScale maxBuckets [] (.new : ExpHistoPoint V) where
  count := rfl
  zeroCount := rfl
  fresh _ := rfl
  shape h := absurd rfl h

/-- A run of values, from any point on. -/
theorem Seen.foldlM (hhalves : Halves mapIndex maxScale)
    (S : Seen mapIndex maxScale maxBuckets values point) (more : List V)
    (h : more.foldlM (recordExp mapIndex maxScale maxBuckets) point = some point') :
    Seen mapIndex maxScale maxBuckets (more.reverse ++ values) point' := by
  induction more generalizing values point with
  | nil =>
      obtain rfl := Option.some.inj h
      exact S
  | cons v more ih =>
      rw [List.foldlM_cons] at h
      obtain ⟨point₁, hfirst, hrest⟩ := Option.bind_eq_some_iff.mp h
      rw [List.reverse_cons, List.append_assoc]
      exact ih (S.record hhalves hfirst) hrest

theorem Seen.foldlM_returns (hhalves : Halves mapIndex maxScale) (hmax : 2 ≤ maxBuckets)
    (S : Seen mapIndex maxScale maxBuckets values point) (more : List V) :
    ∃ point', more.foldlM (recordExp mapIndex maxScale maxBuckets) point = some point' := by
  induction more generalizing values point with
  | nil => exact ⟨point, rfl⟩
  | cons v more ih =>
      obtain ⟨point₁, hfirst⟩ := S.returns hmax v
      obtain ⟨point', hrest⟩ := ih (S.record hhalves hfirst)
      refine ⟨point', ?_⟩
      rw [List.foldlM_cons, hfirst]
      exact hrest

/-- Seen once, seen in any order. -/
theorem Seen.perm {values' : List V} (S : Seen mapIndex maxScale maxBuckets values point)
    (h : values.Perm values') : Seen mapIndex maxScale maxBuckets values' point := by
  refine ⟨S.count.trans h.length_eq, S.zeroCount.trans (h.count_eq 0), ?_, ?_⟩
  · rintro rfl
    exact S.fresh h.eq_nil
  · intro hne
    obtain ⟨down, C, F⟩ := S.shape (fun hnil => hne (by rw [hnil] at h; exact h.symm.eq_nil))
    have hpos : (positives mapIndex maxScale values).Perm (positives mapIndex maxScale values') :=
      (h.filter _).map _
    have hneg : (negatives mapIndex maxScale values).Perm (negatives mapIndex maxScale values') :=
      (h.filter _).map _
    exact ⟨down, C.perm hpos hneg, fun hmax => (F hmax).perm hpos hneg⟩

end Record

/-! ### The exact index -/

/-- `MapIndex` without rounding. -/
noncomputable def exactIndex (v : ℝ) (scale : Int) : Int := ⌈Real.logb 2 v * 2 ^ scale⌉ - 1

/-- The bound of `MapIndex`, for a logarithm that is given. -/
noncomputable def ceilLog {V : Type} (log2 : V → ℝ) (absValue : V) (scale : Int) : Int :=
  ⌈log2 absValue * 2 ^ scale⌉

theorem ceil_div_sub_one (x : ℝ) (n : Nat) (hn : 0 < n) : ⌈x / n⌉ - 1 = (⌈x⌉ - 1) / (n : Int) := by
  have hfloor : -⌈x / n⌉ = (-⌈x⌉) / (n : Int) := by
    rw [← Int.floor_neg, ← neg_div, Int.floor_div_natCast, Int.floor_neg]
  have hceil : ⌈x / n⌉ = -((-⌈x⌉) / (n : Int)) := by
    rw [← hfloor, neg_neg]
  have hn' : (0 : Int) < n := by exact_mod_cast hn
  clear hfloor
  generalize ⌈x⌉ = c at hceil ⊢
  have hneg : (-c) / (n : Int) = -((c - 1) / n) - 1 := by
    refine ((Int.ediv_emod_unique (r := n - (c - 1) % n - 1) hn').mpr ⟨?_, ?_, ?_⟩).1
    · have hdiv := Int.emod_add_mul_ediv (c - 1) n
      linear_combination (-1 : Int) * hdiv
    · have hlt' := Int.emod_lt_of_pos (c - 1) hn'
      omega
    · have hnonneg := Int.emod_nonneg (c - 1) hn'.ne'
      omega
  rw [hceil, hneg]
  ring

/-- `MapIndex` over the `std::log2` of the platform, however that rounds: scaling a
`double` by a power of two does not. -/
noncomputable def mapIndex {V : Type} (log2 : V → ℝ) (absValue : V) (scale : Int) : Int :=
  ⌈log2 absValue * 2 ^ scale⌉ - 1

theorem mapIndex_sub {V : Type} (log2 : V → ℝ) (v : V) (scale : Int) (down : Nat) :
    mapIndex log2 v (scale - down) = mapIndex log2 v scale / 2 ^ down := by
  unfold mapIndex
  have hpow : (2 : ℝ) ^ (scale - (down : Int)) = 2 ^ scale / ((2 ^ down : Nat) : ℝ) := by
    rw [zpow_sub₀ two_ne_zero, zpow_natCast]
    push_cast
    rfl
  rw [hpow, ← mul_div_assoc, ceil_div_sub_one _ _ (by positivity)]
  push_cast
  rfl

theorem halves_mapIndex {V : Type} (log2 : V → ℝ) (maxScale : Int) :
    Halves (mapIndex log2) maxScale := fun v down => mapIndex_sub log2 v maxScale down

theorem halves_exactIndex (maxScale : Int) : Halves exactIndex maxScale :=
  halves_mapIndex (Real.logb 2) maxScale

/-! ### Order independence -/

/-- Both signs span at most `maxBuckets` indices at a scale. -/
def FitsAt (maxBuckets : Int) (values : List ℝ) (scale : Int) : Prop :=
  width (positives exactIndex scale values) ≤ maxBuckets ∧
    width (negatives exactIndex scale values) ≤ maxBuckets

/-- What the values determine of a point: the direct computation at the largest scale
that fits. -/
structure Direct (maxScale maxBuckets : Int) (values : List ℝ) (point : ExpHistoPoint ℝ) :
    Prop where
  count : point.count = values.length
  zeroCount : point.zeroCount = values.count 0
  below : point.scale ≤ maxScale
  fits : FitsAt maxBuckets values point.scale
  largest : ∀ scale, point.scale < scale → scale ≤ maxScale → ¬ FitsAt maxBuckets values scale
  positive : point.positive = countedBuckets (positives exactIndex point.scale values)
  negative : point.negative = countedBuckets (negatives exactIndex point.scale values)

theorem Seen.direct {maxScale maxBuckets : Int} {values : List ℝ} {point : ExpHistoPoint ℝ}
    (hmax : 1 ≤ maxBuckets) (hne : values ≠ [])
    (S : Seen exactIndex maxScale maxBuckets values point) :
    Direct maxScale maxBuckets values point := by
  obtain ⟨down, C, hfewest⟩ := S.shape hne
  have F := hfewest hmax
  have hscale := C.scale
  have hhalves := halves_exactIndex maxScale
  refine ⟨S.count, S.zeroCount, by omega, ?_, ?_, ?_, ?_⟩
  · rw [FitsAt, hscale, ← hhalves.positives, ← hhalves.negatives]
    exact F.fits
  · rintro scale hlt hle ⟨hpos, hneg⟩
    obtain ⟨d, hd⟩ : ∃ d : Nat, scale = maxScale - d := ⟨(maxScale - scale).toNat, by omega⟩
    rw [hd, ← hhalves.positives] at hpos
    rw [hd, ← hhalves.negatives] at hneg
    exact F.least d (by omega) ⟨hpos, hneg⟩
  · rw [hscale, ← hhalves.positives]
    exact C.positive
  · rw [hscale, ← hhalves.negatives]
    exact C.negative

/-- The values determine the counters, the scale and the buckets. -/
theorem Direct.unique {maxScale maxBuckets : Int} {values : List ℝ} {point point' : ExpHistoPoint ℝ}
    (D : Direct maxScale maxBuckets values point) (D' : Direct maxScale maxBuckets values point') :
    point'.scale = point.scale ∧ point'.count = point.count ∧
      point'.zeroCount = point.zeroCount ∧ point'.positive = point.positive ∧
      point'.negative = point.negative := by
  have hscale : point'.scale = point.scale := by
    rcases lt_trichotomy point'.scale point.scale with hlt | heq | hgt
    · exact absurd D.fits (D'.largest _ hlt D.below)
    · exact heq
    · exact absurd D'.fits (D.largest _ hgt D'.below)
  refine ⟨hscale, D'.count.trans D.count.symm, D'.zeroCount.trans D.zeroCount.symm, ?_, ?_⟩
  · rw [D'.positive, D.positive, hscale]
  · rw [D'.negative, D.negative, hscale]

/-- An array that runs from its least to its greatest occupied index and counts the
values with each index. -/
structure Exact (buckets : ExpBuckets) (indices : List Int) : Prop where
  empty : indices = [] → buckets = {}
  counts : ∀ i, buckets.bucket i = indices.count i
  first : indices ≠ [] → 0 < buckets.bucket buckets.offset
  last : indices ≠ [] → 0 < buckets.bucket (lastIndex buckets)
  within : ∀ i, 0 < buckets.bucket i → buckets.offset ≤ i ∧ i ≤ lastIndex buckets

theorem exact_countedBuckets (indices : List Int) : Exact (countedBuckets indices) indices := by
  refine ⟨?_, bucket_countedBuckets, ?_, ?_, ?_⟩
  · rintro rfl
    rfl
  · intro hne
    rw [bucket_countedBuckets, List.count_pos_iff]
    exact (lo_spec hne).1
  · intro hne
    rw [bucket_countedBuckets, List.count_pos_iff, lastIndex_countedBuckets hne]
    exact (hi_spec hne).1
  · intro i hpos
    rw [bucket_countedBuckets, List.count_pos_iff] at hpos
    have hne : indices ≠ [] := List.ne_nil_of_mem hpos
    rw [lastIndex_countedBuckets hne]
    exact ⟨(lo_spec hne).2 i hpos, (hi_spec hne).2 i hpos⟩

/-- Recording values in any order gives the direct computation, the same for every
order. -/
theorem recordAllExp_order_independent (maxScale maxBuckets : Int) (hmax : 2 ≤ maxBuckets)
    (values : List ℝ) (hne : values ≠ []) :
    ∃ point, recordAllExp exactIndex maxScale maxBuckets values = some point ∧
      Direct maxScale maxBuckets values point ∧
      Exact point.positive (positives exactIndex point.scale values) ∧
      Exact point.negative (negatives exactIndex point.scale values) ∧
      ∀ values', values'.Perm values →
        ∃ point', recordAllExp exactIndex maxScale maxBuckets values' = some point' ∧
          point'.scale = point.scale ∧ point'.count = point.count ∧
          point'.zeroCount = point.zeroCount ∧ point'.positive = point.positive ∧
          point'.negative = point.negative := by
  have hrun : ∀ values', values'.Perm values →
      ∃ point, recordAllExp exactIndex maxScale maxBuckets values' = some point ∧
        Direct maxScale maxBuckets values point := by
    intro values' hperm
    obtain ⟨point, hpoint⟩ :=
      Seen.new.foldlM_returns (halves_exactIndex maxScale) hmax values'
    have S := Seen.new.foldlM (halves_exactIndex maxScale) values' hpoint
    rw [List.append_nil] at S
    exact ⟨point, hpoint, (S.perm ((List.reverse_perm values').trans hperm)).direct (by omega) hne⟩
  obtain ⟨point, hpoint, D⟩ := hrun values (List.Perm.refl _)
  refine ⟨point, hpoint, D, ?_, ?_, ?_⟩
  · rw [D.positive]
    exact exact_countedBuckets _
  · rw [D.negative]
    exact exact_countedBuckets _
  · intro values' hperm
    obtain ⟨point', hpoint', D'⟩ := hrun values' hperm
    exact ⟨point', hpoint', D.unique D'⟩

/-- Four values, two buckets a side. -/
theorem recordAllExp_order_independent_four :
    ∃ point, recordAllExp exactIndex 1 2 [8, 1, -2, 0] = some point ∧ point.count = 4 ∧
      point.zeroCount = 1 ∧
      ∃ point', recordAllExp exactIndex 1 2 [1, 8, -2, 0] = some point' ∧
        point'.positive = point.positive := by
  obtain ⟨point, hpoint, D, -, -, horders⟩ :=
    recordAllExp_order_independent 1 2 (by decide) [8, 1, -2, 0] (by simp)
  obtain ⟨point', hpoint', -, -, -, hpositive, -⟩ := horders [1, 8, -2, 0] (.swap _ _ _)
  refine ⟨point, hpoint, D.count, ?_, point', hpoint', hpositive⟩
  rw [D.zeroCount]
  norm_num [List.count_cons]

example :
    recordAllExp (fun (v : ℚ) scale => if v = 8 then 3 * 2 ^ scale.toNat - 1 else -1) 0 2 [8, 1] =
      some { scale := -2, count := 2, sum := 9, min := 1, max := 8
             positive := { offset := -1, counts := [1, 1] } } := by
  decide +kernel

end Microtel.Metrics
