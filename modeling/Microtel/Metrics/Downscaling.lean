import Microtel.Metrics.ExpHistogramLaws

/-!
When the loop of `RequiredDownscale` ends. Halving takes a negative index towards -1
and any other towards 0, so two of them meet unless they lie on different sides.
-/

namespace Microtel.Metrics

open IntBins

/-- The ends of the array with the new index. -/
def lowEnd (buckets : ExpBuckets) (index : Int) : Int := min buckets.offset index

def highEnd (buckets : ExpBuckets) (index : Int) : Int := max (lastIndex buckets) index

theorem lowEnd_le_highEnd (buckets : ExpBuckets) (index : Int) :
    lowEnd buckets index ≤ highEnd buckets index :=
  (min_le_right _ _).trans (le_max_right _ _)

theorem mergedSpan_eq (buckets : ExpBuckets) (index : Int) (change : Nat) :
    mergedSpan buckets index change =
      highEnd buckets index / 2 ^ change - lowEnd buckets index / 2 ^ change + 1 := by
  unfold mergedSpan
  rw [floorDivPow2_eq, floorDivPow2_eq]
  rfl

theorem mergedSpan_pos (buckets : ExpBuckets) (index : Int) (change : Nat) :
    1 ≤ mergedSpan buckets index change := by
  have hmono : lowEnd buckets index / 2 ^ change ≤ highEnd buckets index / 2 ^ change :=
    monotone_ediv change (lowEnd_le_highEnd buckets index)
  rw [mergedSpan_eq]
  omega

theorem mergedSpan_antitone (buckets : ExpBuckets) (index : Int) {c d : Nat} (h : c ≤ d) :
    mergedSpan buckets index d ≤ mergedSpan buckets index c := by
  obtain ⟨n, rfl⟩ := Nat.exists_eq_add_of_le h
  have hspread := ediv_spread (monotone_ediv c (lowEnd_le_highEnd buckets index)) n
  dsimp only at hspread
  rw [mergedSpan_eq, mergedSpan_eq, ediv_pow_add, ediv_pow_add]
  omega

/-- The loop stops with the least change, from one on, that fits. -/
def StopsAtLeast (buckets : ExpBuckets) (index maxBuckets : Int) : Prop :=
  ∃ fuel change, requiredDownscaleFrom buckets index maxBuckets fuel 1 = some change ∧
    1 ≤ change ∧ mergedSpan buckets index change ≤ maxBuckets ∧
      ∀ c, 1 ≤ c → c < change → maxBuckets < mergedSpan buckets index c

/-- Two buckets hold any two indices in the end; one bucket does not hold indices of
both sides of zero. -/
def CanFit (buckets : ExpBuckets) (index maxBuckets : Int) : Prop :=
  2 ≤ maxBuckets ∨ 0 ≤ lowEnd buckets index ∨ highEnd buckets index < 0

instance (buckets : ExpBuckets) (index maxBuckets : Int) :
    Decidable (CanFit buckets index maxBuckets) :=
  inferInstanceAs (Decidable (_ ∨ _ ∨ _))

/-- What is left of an index after as many halvings as it is away from zero. -/
theorem ediv_pow_of_natAbs_lt {x : Int} {n : Nat} (h : x.natAbs < 2 ^ n) :
    x / 2 ^ n = if x < 0 then -1 else 0 := by
  have hbound : (x.natAbs : Int) < 2 ^ n := by exact_mod_cast h
  have hpos : (0 : Int) < 2 ^ n := by positivity
  by_cases hneg : x < 0
  · rw [if_pos hneg]
    apply le_antisymm
    · have hlt : x / 2 ^ n < 0 := Int.ediv_neg_of_neg_of_pos hneg hpos
      omega
    · rw [Int.le_ediv_iff_mul_le hpos]
      omega
  · rw [if_neg hneg]
    exact Int.ediv_eq_zero_of_lt (by omega) (by omega)

theorem span_two_of_sides {low high : Int} (hlow : low < 0) (hhigh : 0 ≤ high) (n : Nat) :
    2 ≤ high / 2 ^ n - low / 2 ^ n + 1 := by
  have hpos : (0 : Int) < 2 ^ n := by positivity
  have hlow' : low / 2 ^ n < 0 := Int.ediv_neg_of_neg_of_pos hlow hpos
  have hhigh' : 0 ≤ high / 2 ^ n := Int.ediv_nonneg hhigh hpos.le
  omega

variable {buckets : ExpBuckets} {index maxBuckets : Int}

/-- A change at which the span fits, if there can be one. -/
theorem CanFit.fits (hmax : 1 ≤ maxBuckets) (h : CanFit buckets index maxBuckets) :
    mergedSpan buckets index
      ((lowEnd buckets index).natAbs + (highEnd buckets index).natAbs + 1) ≤ maxBuckets := by
  have hle := lowEnd_le_highEnd buckets index
  have hpow := @Nat.lt_two_pow_self
    ((lowEnd buckets index).natAbs + (highEnd buckets index).natAbs + 1)
  rw [mergedSpan_eq, ediv_pow_of_natAbs_lt (x := lowEnd buckets index) (by omega),
    ediv_pow_of_natAbs_lt (x := highEnd buckets index) (by omega)]
  rcases h with htwo | hnonneg | hneg
  · split
    · split
      · omega
      · omega
    · split
      · omega
      · omega
  · rw [if_neg (by omega), if_neg (by omega)]
    omega
  · rw [if_pos (by omega), if_pos (by omega)]
    omega

/-- Then the loop ends, in the rounds that `requiredDownscale` gives it. -/
theorem CanFit.returns (hmax : 1 ≤ maxBuckets) (h : CanFit buckets index maxBuckets) :
    ∃ change, requiredDownscale buckets index maxBuckets = some change :=
  requiredDownscaleFrom_ends
    (c := (lowEnd buckets index).natAbs + (highEnd buckets index).natAbs + 1) (by omega)
    (by unfold lowEnd highEnd; omega) (h.fits hmax)

theorem requiredDownscaleFrom_unique {fuel fuel' change result result' : Nat}
    (h : requiredDownscaleFrom buckets index maxBuckets fuel change = some result)
    (h' : requiredDownscaleFrom buckets index maxBuckets fuel' change = some result') :
    result = result' := by
  obtain ⟨hle, hfits, hbefore⟩ := requiredDownscaleFrom_spec h
  obtain ⟨hle', hfits', hbefore'⟩ := requiredDownscaleFrom_spec h'
  rcases lt_trichotomy result result' with hlt | heq | hgt
  · have hover := hbefore' result hle hlt
    omega
  · exact heq
  · have hover := hbefore result' hle' hgt
    omega

theorem StopsAtLeast.canFit (h : StopsAtLeast buckets index maxBuckets) :
    CanFit buckets index maxBuckets := by
  obtain ⟨fuel, change, -, -, hfits, -⟩ := h
  by_contra hcannot
  unfold CanFit at hcannot
  push Not at hcannot
  obtain ⟨hone, hlow, hhigh⟩ := hcannot
  have htwo := span_two_of_sides hlow hhigh change
  rw [← mergedSpan_eq] at htwo
  omega

/-- With at least one bucket allowed, the loop ends exactly when the indices can be
made to fit. -/
theorem stopsAtLeast_iff (buckets : ExpBuckets) (index maxBuckets : Int) (hmax : 1 ≤ maxBuckets) :
    StopsAtLeast buckets index maxBuckets ↔ CanFit buckets index maxBuckets := by
  constructor
  · exact StopsAtLeast.canFit
  · intro hcan
    obtain ⟨change, hstops⟩ := hcan.returns hmax
    obtain ⟨hone, hfits, hbefore⟩ := requiredDownscaleFrom_spec hstops
    exact ⟨_, change, hstops, hone, hfits, hbefore⟩

/-- Two indices that cannot meet, and room for two. -/
theorem stopsAtLeast_two : StopsAtLeast { offset := -3, counts := [1] } 5 2 :=
  (stopsAtLeast_iff _ _ 2 (by decide)).mpr (.inl (by decide))

/-- A half, then two, in one bucket: no change will do. -/
theorem oneBucket_hangs :
    ¬∀ (maxScale maxBuckets : Int) (values : List ℝ) (point : ExpHistoPoint ℝ) (isNegative : Bool)
      (index : Int), 1 ≤ maxBuckets →
        recordAllExp exactIndex maxScale maxBuckets values = some point →
          StopsAtLeast (point.target isNegative) index maxBuckets := by
  intro h
  have hhalf : exactIndex (1 / 2) 0 = -2 := by
    unfold exactIndex
    rw [one_div, Real.logb_inv, Real.logb_self_eq_one (by norm_num)]
    norm_num
  have hindex : exactIndex 2 0 = 0 := by
    unfold exactIndex
    rw [Real.logb_self_eq_one (by norm_num)]
    norm_num
  have hrun : recordAllExp exactIndex 0 1 [(1 / 2 : ℝ)] = some
      { scale := 0, count := 1, sum := 1 / 2, min := 1 / 2, max := 1 / 2
        positive := { offset := -2, counts := [1] } } := by
    unfold recordAllExp
    rw [List.foldlM_cons, recordExp_eq, if_neg (by norm_num)]
    unfold insertValue counted ExpHistoPoint.new
    norm_num [ExpHistoPoint.target, hhalf, ExpHistoPoint.withTarget, place, makeRoom]
  have hstops := h 0 1 _ _ false (exactIndex 2 0) (le_refl _) hrun
  rw [hindex] at hstops
  exact absurd hstops.canFit (by decide)

end Microtel.Metrics
