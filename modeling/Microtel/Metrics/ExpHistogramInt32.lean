import Microtel.Metrics.Downscaling

/-!
The exponential histogram as it computes, in `int32`. A step whose result is out of
range, or whose shift count is, has no result here; where there is one it is that of
the unbounded integers.
-/

namespace Microtel.Metrics

open IntBins

/-- An `int32` result. -/
def int32 (x : Int) : Option Int := if -2147483648 ≤ x ∧ x ≤ 2147483647 then some x else none

namespace Checked

def floorDivPow2 (value : Int) (shift : Nat) : Option Int :=
  if 31 ≤ shift then none
  else do
    let divisor ← int32 (2 ^ shift)
    let quotient ← int32 (value.tdiv divisor)
    if value.tmod divisor ≠ 0 ∧ value < 0 then int32 (quotient - 1) else some quotient

def lastIndex (buckets : ExpBuckets) : Option Int := do
  let size ← int32 buckets.counts.length
  let stop ← int32 (buckets.offset + size)
  int32 (stop - 1)

def mergedSpan (buckets : ExpBuckets) (index : Int) (change : Nat) : Option Int := do
  let low ← floorDivPow2 (min buckets.offset index) change
  let last ← lastIndex buckets
  let high ← floorDivPow2 (max last index) change
  let distance ← int32 (high - low)
  int32 (distance + 1)

def requiredDownscaleFrom (buckets : ExpBuckets) (index maxBuckets : Int) :
    (fuel change : Nat) → Option Nat
  | 0, _ => none
  | fuel + 1, change => do
      let span ← mergedSpan buckets index change
      if maxBuckets < span then requiredDownscaleFrom buckets index maxBuckets fuel (change + 1)
      else some change

/-- The round at which the shift count is 31 is the last. -/
def requiredDownscale (buckets : ExpBuckets) (index maxBuckets : Int) : Option Nat :=
  requiredDownscaleFrom buckets index maxBuckets 31 1

def mergeBucket (buckets : ExpBuckets) (shift : Nat) (newOffset : Int)
    (merged : List Nat) (k : Nat) :
    Option (List Nat) :=
  let n := buckets.counts.getD k 0
  if n = 0 then some merged
  else do
    let position ← int32 k
    let absIndex ← int32 (buckets.offset + position)
    let quotient ← floorDivPow2 absIndex shift
    let slot ← int32 (quotient - newOffset)
    some (merged.modify slot.toNat (· + n))

def rescale (buckets : ExpBuckets) (shift : Nat) : Option ExpBuckets :=
  if buckets.counts = [] then some buckets
  else do
    let newOffset ← floorDivPow2 buckets.offset shift
    let last ← lastIndex buckets
    let newLast ← floorDivPow2 last shift
    let distance ← int32 (newLast - newOffset)
    let newSpan ← int32 (distance + 1)
    let counts ← (List.range buckets.counts.length).foldlM (mergeBucket buckets shift newOffset)
      (List.replicate newSpan.toNat 0)
    some { offset := newOffset, counts }

def makeRoom (buckets : ExpBuckets) (index : Int) : Option ExpBuckets :=
  if buckets.counts = [] then some { offset := index, counts := [0] }
  else if index < buckets.offset then do
    let prepend ← int32 (buckets.offset - index)
    some { offset := index, counts := List.replicate prepend.toNat 0 ++ buckets.counts }
  else do
    let last ← lastIndex buckets
    if last < index then
      let distance ← int32 (index - buckets.offset)
      let width ← int32 (distance + 1)
      some { buckets with
        counts := buckets.counts ++ List.replicate (width.toNat - buckets.counts.length) 0 }
    else some buckets

def place (buckets : ExpBuckets) (index : Int) : Option ExpBuckets := do
  let buckets ← makeRoom buckets index
  let slot ← int32 (index - buckets.offset)
  some { buckets with counts := buckets.counts.modify slot.toNat (· + 1) }

section

variable {V : Type} (ceilLog : V → Int → Int)

/-- With the rounded-up logarithm, which the cast takes to an `int32`. -/
def mapIndex (absValue : V) (scale : Int) : Option Int := do
  let ceiling ← int32 (ceilLog absValue scale)
  int32 (ceiling - 1)

def insertValue (point : ExpHistoPoint V) (absValue : V) (isNegative : Bool) (maxBuckets : Int) :
    Option (ExpHistoPoint V) := do
  let index ← mapIndex ceilLog absValue point.scale
  let target := point.target isNegative
  if target.counts = [] then
    let placed ← place target index
    some (point.withTarget isNegative placed)
  else
    let span ← mergedSpan target index 0
    if maxBuckets < span then
      let change ← requiredDownscale target index maxBuckets
      let positive ← rescale point.positive change
      let negative ← rescale point.negative change
      let point := { point with positive, negative, scale := point.scale - change }
      let index ← floorDivPow2 index change
      let placed ← place (point.target isNegative) index
      some (point.withTarget isNegative placed)
    else
      let placed ← place target index
      some (point.withTarget isNegative placed)

variable [AddGroup V] [LinearOrder V]

def recordExp (maxScale maxBuckets : Int) (point : ExpHistoPoint V) (observation : V) :
    Option (ExpHistoPoint V) :=
  let point := counted maxScale point observation
  if observation = 0 then some { point with zeroCount := point.zeroCount + 1 }
  else insertValue ceilLog point |observation| (observation < 0) maxBuckets

def recordAllExp (maxScale maxBuckets : Int) (observations : List V) : Option (ExpHistoPoint V) :=
  observations.foldlM (recordExp ceilLog maxScale maxBuckets) .new

end

end Checked

/-! ### Ranges -/

theorem int32_eq {x : Int} (hlow : -2147483648 ≤ x) (hhigh : x ≤ 2147483647) : int32 x = some x :=
  if_pos ⟨hlow, hhigh⟩

theorem int32_over {x : Int} (h : 2147483647 < x) : int32 x = none := if_neg (by omega)

/-- Halving does not leave a range with -1 and 0 in it. -/
theorem ediv_pow_mem {l u x : Int} (hl : l ≤ -1) (hu : 0 ≤ u) (hx : l ≤ x)
    (hx' : x ≤ u) (n : Nat) : l ≤ x / 2 ^ n ∧ x / 2 ^ n ≤ u := by
  have hpos : (0 : Int) < 2 ^ n := by positivity
  have hone : (1 : Int) ≤ 2 ^ n := by omega
  constructor
  · rw [Int.le_ediv_iff_mul_le hpos]
    nlinarith
  · have hle : x / 2 ^ n ≤ u / 2 ^ n := Int.ediv_le_ediv hpos hx'
    have hself : u / 2 ^ n ≤ u := Int.ediv_le_self _ hu
    omega

namespace Checked

theorem floorDivPow2_eq {value : Int} (hlow : -2147483648 ≤ value) (hhigh : value ≤ 2147483647)
    {shift : Nat} (hshift : shift ≤ 30) :
    floorDivPow2 value shift = some (value / 2 ^ shift) := by
  have hpow : (2 : Int) ^ shift ≤ 2 ^ 30 := pow_le_pow_right₀ (by norm_num) hshift
  have hpos : (0 : Int) < 2 ^ shift := by positivity
  have hresult := Metrics.floorDivPow2_eq value shift
  have hmem :=
    ediv_pow_mem (by omega : (-2147483648 : Int) ≤ -1) (by omega : (0 : Int) ≤ 2147483647)
    hlow hhigh shift
  unfold Metrics.floorDivPow2 at hresult
  dsimp only at hresult
  unfold floorDivPow2
  rw [if_neg (by omega), int32_eq (by omega) (by omega)]
  simp only [Option.bind_eq_bind, Option.bind_some]
  by_cases hneg : value.tmod (2 ^ shift) ≠ 0 ∧ value < 0
  · rw [if_pos hneg] at hresult
    have hbelow : value / 2 ^ shift < 0 := Int.ediv_neg_of_neg_of_pos hneg.2 hpos
    rw [int32_eq (by omega) (by omega), Option.bind_some, if_pos hneg,
      int32_eq (by omega) (by omega), hresult]
  · rw [if_neg hneg] at hresult
    rw [int32_eq (by omega) (by omega), Option.bind_some, if_neg hneg, hresult]

theorem floorDivPow2_shift (value : Int) {shift : Nat} (hshift : 31 ≤ shift) :
    floorDivPow2 value shift = none := if_pos hshift

theorem mapIndex_eq {V : Type} (ceilLog : V → Int → Int) (absValue : V) (scale : Int)
    (hlow : -2147483647 ≤ ceilLog absValue scale) (hhigh : ceilLog absValue scale ≤ 2147483647) :
    mapIndex ceilLog absValue scale = some (ceilLog absValue scale - 1) := by
  unfold mapIndex
  rw [int32_eq (by omega) hhigh]
  exact int32_eq (by omega) (by omega)

end Checked

/-! ### Arrays in range -/

/-- The indices at scale 20 of the least and of the greatest double. -/
def leastIndex : Int := -1126170625

def greatestIndex : Int := 1073741823

/-- An array between these indices, no longer than allowed. -/
structure Held (maxBuckets : Int) (buckets : ExpBuckets) : Prop where
  low : buckets.counts ≠ [] → leastIndex ≤ buckets.offset
  high : buckets.counts ≠ [] → lastIndex buckets ≤ greatestIndex
  length : buckets.counts.length ≤ maxBuckets

theorem offset_le_lastIndex {buckets : ExpBuckets} (h : buckets.counts ≠ []) :
    buckets.offset ≤ lastIndex buckets := by
  have hlen : 0 < buckets.counts.length := List.length_pos_iff.mpr h
  unfold lastIndex
  omega

section InRange

variable {maxBuckets : Int} {buckets : ExpBuckets} {index : Int} (H : Held maxBuckets buckets)
  (hne : buckets.counts ≠ []) (hmax : maxBuckets ≤ 2147483647) (hlow : leastIndex ≤ index)
  (hhigh : index ≤ greatestIndex)

include H hne

theorem Held.ends : leastIndex ≤ buckets.offset ∧ buckets.offset ≤ lastIndex buckets ∧
    lastIndex buckets ≤ greatestIndex :=
  ⟨H.low hne, offset_le_lastIndex hne, H.high hne⟩

include hmax in
theorem Checked.lastIndex_eq : Checked.lastIndex buckets = some (Metrics.lastIndex buckets) := by
  obtain ⟨hlow, hle, hhigh⟩ := H.ends hne
  have hlength := H.length
  unfold leastIndex at hlow
  unfold Metrics.lastIndex greatestIndex at hhigh
  unfold Checked.lastIndex Metrics.lastIndex
  rw [int32_eq (by omega) (by omega)]
  simp only [Option.bind_eq_bind, Option.bind_some]
  rw [int32_eq (by omega) (by omega), Option.bind_some]
  exact int32_eq (by omega) (by omega)

include hlow hhigh in
theorem Held.mergedEnds :
    leastIndex ≤ lowEnd buckets index ∧ highEnd buckets index ≤ greatestIndex := by
  obtain ⟨hoffset, -, hlast⟩ := H.ends hne
  exact ⟨le_min hoffset hlow, max_le hlast hhigh⟩

include hmax hlow hhigh

/-- The span is the exact one, as far as it is in range. -/
theorem Checked.mergedSpan_eq {change : Nat} (hchange : change ≤ 30) :
    Checked.mergedSpan buckets index change =
      int32 (Metrics.mergedSpan buckets index change) := by
  obtain ⟨hends, hends'⟩ := H.mergedEnds hne hlow hhigh
  have hle := lowEnd_le_highEnd buckets index
  have hlow' := ediv_pow_mem (x := lowEnd buckets index) (l := leastIndex) (u := greatestIndex)
    (by decide) (by decide) hends (by omega) change
  have hhigh' := ediv_pow_mem (x := highEnd buckets index) (l := leastIndex)
    (u := greatestIndex) (by decide) (by decide) (by omega) hends' change
  have hmono : lowEnd buckets index / 2 ^ change ≤ highEnd buckets index / 2 ^ change :=
    monotone_ediv change hle
  have hlowEnd : lowEnd buckets index = min buckets.offset index := rfl
  have hhighEnd : highEnd buckets index = max (Metrics.lastIndex buckets) index := rfl
  unfold leastIndex greatestIndex at *
  rw [Metrics.mergedSpan_eq]
  unfold Checked.mergedSpan
  rw [Checked.floorDivPow2_eq (by omega : -2147483648 ≤ min buckets.offset index)
    (by omega) hchange, Checked.lastIndex_eq H hne hmax]
  simp only [Option.bind_eq_bind, Option.bind_some]
  rw [Checked.floorDivPow2_eq (by omega) (by omega) hchange, Option.bind_some]
  change (int32 (highEnd buckets index / 2 ^ change - lowEnd buckets index / 2 ^ change)).bind
    (fun distance => int32 (distance + 1)) = _
  by_cases hfits : highEnd buckets index / 2 ^ change - lowEnd buckets index / 2 ^ change ≤
    2147483647
  · rw [int32_eq (by omega) hfits, Option.bind_some]
  · rw [int32_over (by omega), Option.bind_none, int32_over (by omega)]

omit hmax in
/-- From the first halving on it is in range. -/
theorem mergedSpan_halved {change : Nat} (hone : 1 ≤ change) :
    Metrics.mergedSpan buckets index change ≤ 2147483647 := by
  obtain ⟨hends, hends'⟩ := H.mergedEnds hne hlow hhigh
  have hle := lowEnd_le_highEnd buckets index
  obtain ⟨n, rfl⟩ := Nat.exists_eq_add_of_le hone
  have hlow' := ediv_pow_mem (x := lowEnd buckets index / 2 ^ 1) (l := -563085313)
    (u := 536870911) (by decide) (by decide) (by unfold leastIndex at *; omega)
    (by unfold greatestIndex at *; omega) n
  have hhigh' := ediv_pow_mem (x := highEnd buckets index / 2 ^ 1) (l := -563085313)
    (u := 536870911) (by decide) (by decide) (by unfold leastIndex at *; omega)
    (by unfold greatestIndex at *; omega) n
  rw [Metrics.mergedSpan_eq, ediv_pow_add, ediv_pow_add]
  omega

/-! ### Downscaling -/

/-- If thirty halvings are enough the shift counts are in range. -/
theorem Checked.requiredDownscaleFrom_eq
    (hfits : Metrics.mergedSpan buckets index 30 ≤ maxBuckets) {fuel change : Nat}
    (hone : 1 ≤ change) (hchange : change ≤ 30) :
    Checked.requiredDownscaleFrom buckets index maxBuckets fuel change =
      Metrics.requiredDownscaleFrom buckets index maxBuckets fuel change := by
  induction fuel generalizing change with
  | zero => rfl
  | succ fuel ih =>
      have hpos := mergedSpan_pos buckets index change
      have hspan := mergedSpan_halved H hne hlow hhigh hone
      unfold Checked.requiredDownscaleFrom Metrics.requiredDownscaleFrom
      rw [Checked.mergedSpan_eq H hne hmax hlow hhigh hchange, int32_eq (by omega) hspan]
      simp only [Option.bind_eq_bind, Option.bind_some]
      by_cases hover : maxBuckets < Metrics.mergedSpan buckets index change
      · have hlast : change ≠ 30 := by
          rintro rfl
          omega
        rw [if_pos hover, if_pos hover]
        exact ih (by omega) (by omega)
      · rw [if_neg hover, if_neg hover]

/-- If they are not, the loop comes to a shift that is out of range. -/
theorem Checked.requiredDownscaleFrom_none
    (hover : maxBuckets < Metrics.mergedSpan buckets index 30) {fuel change : Nat}
    (hone : 1 ≤ change) :
    Checked.requiredDownscaleFrom buckets index maxBuckets fuel change = none := by
  induction fuel generalizing change with
  | zero => rfl
  | succ fuel ih =>
      unfold Checked.requiredDownscaleFrom
      by_cases hchange : change ≤ 30
      · have hpos := mergedSpan_pos buckets index change
        have hspan := mergedSpan_halved H hne hlow hhigh hone
        have hmono := mergedSpan_antitone buckets index hchange
        rw [Checked.mergedSpan_eq H hne hmax hlow hhigh hchange, int32_eq (by omega) hspan]
        simp only [Option.bind_eq_bind, Option.bind_some]
        rw [if_pos (by omega)]
        exact ih (by omega)
      · unfold Checked.mergedSpan
        rw [Checked.floorDivPow2_shift _ (by omega)]
        rfl

end InRange

/-! ### Merging and placing -/

theorem foldlM_eq_some {α β : Type} {f : β → α → Option β} {g : β → α → β} {l : List α}
    (h : ∀ a ∈ l, ∀ acc, f acc a = some (g acc a)) (acc : β) :
    l.foldlM f acc = some (l.foldl g acc) := by
  induction l generalizing acc with
  | nil => rfl
  | cons a l ih =>
      rw [List.foldlM_cons, h a List.mem_cons_self, List.foldl_cons]
      exact ih (fun b hb => h b (List.mem_cons_of_mem a hb)) (g acc a)

theorem length_foldl_mergeBucket (buckets : ExpBuckets) (shift : Nat) (newOffset : Int)
    (ks : List Nat) (merged : List Nat) :
    (ks.foldl (mergeBucket buckets shift newOffset) merged).length = merged.length := by
  induction ks generalizing merged with
  | nil => rfl
  | cons k ks ih =>
      refine (ih (mergeBucket buckets shift newOffset merged k)).trans ?_
      unfold mergeBucket
      dsimp only
      split
      · rfl
      · exact List.length_modify ..

/-- Merging halves the ends of an array. -/
theorem rescale_ends {buckets : ExpBuckets} (hne : buckets.counts ≠ []) (shift : Nat) :
    (rescale buckets shift).counts ≠ [] ∧
      (rescale buckets shift).offset = buckets.offset / 2 ^ shift ∧
      lastIndex (rescale buckets shift) = lastIndex buckets / 2 ^ shift := by
  have hmono : buckets.offset / 2 ^ shift ≤ lastIndex buckets / 2 ^ shift :=
    monotone_ediv shift (offset_le_lastIndex hne)
  have hlength : (rescale buckets shift).counts.length =
      (lastIndex buckets / 2 ^ shift - buckets.offset / 2 ^ shift + 1).toNat := by
    unfold rescale
    rw [if_neg hne]
    dsimp only
    rw [length_foldl_mergeBucket, List.length_replicate, floorDivPow2_eq, floorDivPow2_eq]
  have hoffset : (rescale buckets shift).offset = buckets.offset / 2 ^ shift := by
    unfold rescale
    rw [if_neg hne]
    exact floorDivPow2_eq _ _
  refine ⟨?_, hoffset, ?_⟩
  · rw [← List.length_pos_iff, hlength]
    omega
  · unfold lastIndex at hlength hmono ⊢
    rw [hoffset, hlength]
    omega

theorem length_eq (buckets : ExpBuckets) :
    (buckets.counts.length : Int) = lastIndex buckets - buckets.offset + 1 := by
  unfold lastIndex
  omega

theorem Held.rescale {maxBuckets : Int} {buckets : ExpBuckets} (H : Held maxBuckets buckets)
    (shift : Nat) : Held maxBuckets (Metrics.rescale buckets shift) := by
  by_cases hnil : buckets.counts = []
  · have hsame : Metrics.rescale buckets shift = buckets := by
      unfold Metrics.rescale
      rw [if_pos hnil]
    rw [hsame]
    exact H
  · obtain ⟨hlow, hle, hhigh⟩ := H.ends hnil
    obtain ⟨-, hoffset, hlast⟩ := rescale_ends hnil shift
    have hmem := ediv_pow_mem (l := leastIndex) (u := greatestIndex) (by decide) (by decide)
      hlow (hle.trans hhigh) shift
    have hmem' := ediv_pow_mem (l := leastIndex) (u := greatestIndex) (by decide) (by decide)
      (hlow.trans hle) hhigh shift
    have hspread := ediv_spread hle shift
    have hlength := length_eq buckets
    have hlength' := length_eq (Metrics.rescale buckets shift)
    have hheld := H.length
    refine ⟨fun _ => ?_, fun _ => ?_, ?_⟩
    · rw [hoffset]
      exact hmem.1
    · rw [hlast]
      exact hmem'.2
    · omega

theorem Checked.rescale_eq {maxBuckets : Int} {buckets : ExpBuckets} (H : Held maxBuckets buckets)
    (hmax : maxBuckets ≤ 2147483647) {shift : Nat} (hshift : shift ≤ 30) :
    Checked.rescale buckets shift = some (Metrics.rescale buckets shift) := by
  unfold Checked.rescale Metrics.rescale
  by_cases hnil : buckets.counts = []
  · rw [if_pos hnil, if_pos hnil]
  · obtain ⟨hlow, hle, hhigh⟩ := H.ends hnil
    have hspread := ediv_spread hle shift
    have hmono : buckets.offset / 2 ^ shift ≤ Metrics.lastIndex buckets / 2 ^ shift :=
      monotone_ediv shift hle
    have hlength := length_eq buckets
    have hheld := H.length
    unfold leastIndex at hlow
    unfold greatestIndex at hhigh
    rw [if_neg hnil, if_neg hnil, Checked.floorDivPow2_eq (by omega) (by omega) hshift,
      Checked.lastIndex_eq H hnil hmax]
    simp only [Option.bind_eq_bind, Option.bind_some]
    rw [Checked.floorDivPow2_eq (by omega) (by omega) hshift, Option.bind_some,
      int32_eq (by omega) (by omega), Option.bind_some, int32_eq (by omega) (by omega),
      Option.bind_some, Metrics.floorDivPow2_eq, Metrics.floorDivPow2_eq]
    rw [foldlM_eq_some (g := Metrics.mergeBucket buckets shift (buckets.offset / 2 ^ shift))]
    · rfl
    · intro k hk merged
      have hk' : k < buckets.counts.length := List.mem_range.mp hk
      have hbelow : buckets.offset / 2 ^ shift ≤ (buckets.offset + (k : Int)) / 2 ^ shift :=
        monotone_ediv shift (by omega)
      have habove : (buckets.offset + (k : Int)) / 2 ^ shift ≤
          Metrics.lastIndex buckets / 2 ^ shift := monotone_ediv shift (by omega)
      unfold Checked.mergeBucket Metrics.mergeBucket
      dsimp only
      by_cases hzero : buckets.counts.getD k 0 = 0
      · rw [if_pos hzero, if_pos hzero]
      · rw [if_neg hzero, if_neg hzero, int32_eq (by omega) (by omega)]
        simp only [Option.bind_eq_bind, Option.bind_some]
        rw [int32_eq (by omega) (by omega), Option.bind_some,
          Checked.floorDivPow2_eq (by omega) (by omega) hshift, Option.bind_some,
          int32_eq (by omega) (by omega), Option.bind_some, Metrics.floorDivPow2_eq]

theorem place_ends (buckets : ExpBuckets) (index : Int) :
    (place buckets index).offset = (makeRoom buckets index).offset ∧
      lastIndex (place buckets index) = lastIndex (makeRoom buckets index) ∧
      (place buckets index).counts.length = (makeRoom buckets index).counts.length := by
  unfold place lastIndex
  simp

/-- Placing an index that fits. -/
theorem Held.place {maxBuckets : Int} {buckets : ExpBuckets} {index : Int}
    (H : Held maxBuckets buckets) (hone : 1 ≤ maxBuckets) (hlow : leastIndex ≤ index)
    (hhigh : index ≤ greatestIndex)
    (hfits : buckets.counts ≠ [] → highEnd buckets index - lowEnd buckets index + 1 ≤ maxBuckets) :
    Held maxBuckets (Metrics.place buckets index) := by
  obtain ⟨hoffset, hlast, hcounts⟩ := place_ends buckets index
  have hlength := length_eq (Metrics.place buckets index)
  by_cases hnil : buckets.counts = []
  · obtain ⟨hfirst, hend⟩ := makeRoom_ends_nil hnil index
    refine ⟨fun _ => ?_, fun _ => ?_, ?_⟩
    · omega
    · omega
    · omega
  · obtain ⟨hfirst, hend⟩ := makeRoom_ends hnil index
    obtain ⟨hmin, hmax⟩ := H.mergedEnds hnil hlow hhigh
    have hroom := hfits hnil
    have hlowEnd : lowEnd buckets index = min buckets.offset index := rfl
    have hhighEnd : highEnd buckets index = max (Metrics.lastIndex buckets) index := rfl
    refine ⟨fun _ => ?_, fun _ => ?_, ?_⟩
    · omega
    · omega
    · omega

theorem Checked.place_eq {maxBuckets : Int} {buckets : ExpBuckets} {index : Int}
    (H : Held maxBuckets buckets) (hmax : maxBuckets ≤ 2147483647)
    (hfits : buckets.counts ≠ [] → highEnd buckets index - lowEnd buckets index + 1 ≤ maxBuckets) :
    Checked.place buckets index = some (Metrics.place buckets index) := by
  have hroom : Checked.makeRoom buckets index = some (Metrics.makeRoom buckets index) := by
    unfold Checked.makeRoom Metrics.makeRoom
    by_cases hnil : buckets.counts = []
    · rw [if_pos hnil, if_pos hnil]
    · have hwidth := hfits hnil
      have hle := offset_le_lastIndex hnil
      have hlowEnd : lowEnd buckets index = min buckets.offset index := rfl
      have hhighEnd : highEnd buckets index = max (Metrics.lastIndex buckets) index := rfl
      rw [if_neg hnil, if_neg hnil]
      by_cases hless : index < buckets.offset
      · rw [if_pos hless, if_pos hless, int32_eq (by omega) (by omega)]
        rfl
      · rw [if_neg hless, if_neg hless, Checked.lastIndex_eq H hnil hmax]
        simp only [Option.bind_eq_bind, Option.bind_some]
        by_cases hmore : Metrics.lastIndex buckets < index
        · rw [if_pos hmore, if_pos hmore, int32_eq (by omega) (by omega), Option.bind_some,
            int32_eq (by omega) (by omega)]
          rfl
        · rw [if_neg hmore, if_neg hmore]
  obtain ⟨hbelow, habove⟩ := makeRoom_holds buckets index
  have hslot : index - (Metrics.makeRoom buckets index).offset ≤ 2147483646 := by
    by_cases hnil : buckets.counts = []
    · have hends := makeRoom_ends_nil hnil index
      omega
    · have hends := makeRoom_ends hnil index
      have hwidth := hfits hnil
      have hlowEnd : lowEnd buckets index = min buckets.offset index := rfl
      have hhighEnd : highEnd buckets index = max (Metrics.lastIndex buckets) index := rfl
      omega
  unfold Checked.place Metrics.place
  rw [hroom]
  simp only [Option.bind_eq_bind, Option.bind_some]
  rw [int32_eq (by omega) (by omega)]
  rfl

/-! ### One value -/

theorem mergedSpan_zero (buckets : ExpBuckets) (index : Int) :
    mergedSpan buckets index 0 = highEnd buckets index - lowEnd buckets index + 1 := by
  rw [mergedSpan_eq, pow_zero, Int.ediv_one, Int.ediv_one]

/-- The span after merging is that of the merged array. -/
theorem span_rescale {buckets : ExpBuckets} (hne : buckets.counts ≠ []) (index : Int)
    (change : Nat) :
    highEnd (rescale buckets change) (index / 2 ^ change) -
        lowEnd (rescale buckets change) (index / 2 ^ change) + 1 =
      mergedSpan buckets index change := by
  obtain ⟨-, hoffset, hlast⟩ := rescale_ends hne change
  have hmono := monotone_ediv change
  have hlow : lowEnd (rescale buckets change) (index / 2 ^ change) =
      lowEnd buckets index / 2 ^ change := by
    unfold lowEnd
    rw [hoffset]
    exact (hmono.map_min (a := buckets.offset) (b := index)).symm
  have hhigh : highEnd (rescale buckets change) (index / 2 ^ change) =
      highEnd buckets index / 2 ^ change := by
    unfold highEnd
    rw [hlast]
    exact (hmono.map_max (a := lastIndex buckets) (b := index)).symm
  rw [hlow, hhigh, mergedSpan_eq]

/-- An empty array, or one that does not lie so far from the new index that the span
is out of range, or that thirty halvings are not enough. -/
def Narrow (maxBuckets : Int) (target : ExpBuckets) (index : Int) : Prop :=
  target.counts = [] ∨
    (mergedSpan target index 0 ≤ 2147483647 ∧ mergedSpan target index 30 ≤ maxBuckets)

section Insert

variable {V : Type} {ceilLog : V → Int → Int} {maxBuckets : Int} {point : ExpHistoPoint V}
  {absValue : V} {isNegative : Bool}

/-- The point's arrays are in range. -/
structure PointHeld (maxBuckets : Int) (point : ExpHistoPoint V) : Prop where
  scale : point.scale ≤ 20
  positive : Held maxBuckets point.positive
  negative : Held maxBuckets point.negative

theorem PointHeld.target (P : PointHeld maxBuckets point) (isNegative : Bool) :
    Held maxBuckets (point.target isNegative) := by
  cases isNegative with
  | false => exact P.positive
  | true => exact P.negative

theorem PointHeld.withTarget (P : PointHeld maxBuckets point) (isNegative : Bool)
    {buckets : ExpBuckets} (H : Held maxBuckets buckets) :
    PointHeld maxBuckets (point.withTarget isNegative buckets) := by
  cases isNegative with
  | false => exact ⟨P.scale, H, P.negative⟩
  | true => exact ⟨P.scale, P.positive, H⟩

theorem PointHeld.rescale (P : PointHeld maxBuckets point) (change : Nat) :
    PointHeld maxBuckets { point with
      positive := Metrics.rescale point.positive change
      negative := Metrics.rescale point.negative change
      scale := point.scale - change } := by
  refine ⟨?_, P.positive.rescale change, P.negative.rescale change⟩
  have hscale := P.scale
  dsimp only
  omega

theorem target_rescale (point : ExpHistoPoint V) (isNegative : Bool) (change : Nat) (scale : Int) :
    ExpHistoPoint.target { point with
        positive := rescale point.positive change
        negative := rescale point.negative change
        scale } isNegative = rescale (point.target isNegative) change := by
  cases isNegative with
  | false => rfl
  | true => rfl

variable (P : PointHeld maxBuckets point) (htwo : 2 ≤ maxBuckets) (hmax : maxBuckets ≤ 2147483647)
  (hlow : leastIndex + 1 ≤ ceilLog absValue point.scale)
  (hhigh : ceilLog absValue point.scale ≤ greatestIndex + 1)

include P htwo hmax hlow hhigh

/-- Where the span is in range and thirty halvings are enough, the computation is the
exact one. -/
theorem insertValue_narrow
    (hnarrow : Narrow maxBuckets (point.target isNegative) (ceilLog absValue point.scale - 1)) :
    ∃ point', Checked.insertValue ceilLog point absValue isNegative maxBuckets = some point' ∧
      insertValue (fun v scale => ceilLog v scale - 1) point absValue isNegative maxBuckets =
        some point' ∧
      PointHeld maxBuckets point' := by
  have hindex := Checked.mapIndex_eq ceilLog absValue point.scale
    (by unfold leastIndex at hlow; omega)
    (by unfold greatestIndex at hhigh; omega)
  generalize hat : ceilLog absValue point.scale - 1 = index at hnarrow hindex
  have hbelow : leastIndex ≤ index := by omega
  have habove : index ≤ greatestIndex := by omega
  have H := P.target isNegative
  unfold Checked.insertValue insertValue
  rw [hindex]
  simp only [Option.bind_eq_bind, Option.bind_some, hat]
  by_cases hnil : (point.target isNegative).counts = []
  · have hplaced : Checked.place (point.target isNegative) index =
        some (Metrics.place (point.target isNegative) index) :=
      Checked.place_eq H hmax fun hne => absurd hnil hne
    rw [if_pos hnil, if_neg fun h => h.1 hnil, hplaced, Option.bind_some]
    refine ⟨_, rfl, rfl, P.withTarget isNegative ?_⟩
    exact H.place (by omega) hbelow habove fun hne => absurd hnil hne
  · obtain ⟨hspan, hthirty⟩ := hnarrow.resolve_left hnil
    have hpos := mergedSpan_pos (point.target isNegative) index 0
    rw [if_neg hnil, Checked.mergedSpan_eq H hnil hmax hbelow habove (by omega),
      int32_eq (by omega) hspan, Option.bind_some]
    by_cases hover : maxBuckets < mergedSpan (point.target isNegative) index 0
    · have hcan : CanFit (point.target isNegative) index maxBuckets := Or.inl htwo
      obtain ⟨change, hchange⟩ := hcan.returns (by omega)
      obtain ⟨hone, hfits, hbefore⟩ := requiredDownscaleFrom_spec hchange
      have hle : change ≤ 30 := by
        by_contra hgt
        have hlate := hbefore 30 (by omega) (by omega)
        omega
      have hchecked : Checked.requiredDownscale (point.target isNegative) index maxBuckets =
          some change := by
        obtain ⟨change', hchange'⟩ : ∃ change', requiredDownscaleFrom (point.target isNegative)
            index maxBuckets 31 1 = some change' :=
          requiredDownscaleFrom_ends (by omega) (by omega) hthirty
        rw [Checked.requiredDownscale,
          Checked.requiredDownscaleFrom_eq H hnil hmax hbelow habove hthirty (by omega) (by omega),
          hchange', requiredDownscaleFrom_unique hchange hchange']
      have hwidth := span_rescale hnil index change
      have hroom : highEnd (rescale (point.target isNegative) change) (index / 2 ^ change) -
          lowEnd (rescale (point.target isNegative) change) (index / 2 ^ change) + 1 ≤
            maxBuckets := by omega
      have hmerged := ediv_pow_mem (l := leastIndex) (u := greatestIndex) (by decide)
        (by decide) hbelow habove change
      rw [if_pos hover, if_pos ⟨hnil, hover⟩, hchecked, hchange]
      simp only [Option.bind_some]
      rw [Checked.rescale_eq P.positive hmax hle, Option.bind_some,
        Checked.rescale_eq P.negative hmax hle, Option.bind_some,
        Checked.floorDivPow2_eq (by unfold leastIndex at hbelow; omega)
          (by unfold greatestIndex at habove; omega) hle, Option.bind_some, floorDivPow2_eq,
        target_rescale, Checked.place_eq (H.rescale change) hmax fun _ => hroom, Option.bind_some]
      refine ⟨_, rfl, rfl, (P.rescale change).withTarget isNegative ?_⟩
      exact (H.rescale change).place (by omega) hmerged.1 hmerged.2 fun _ => hroom
    · have hroom := mergedSpan_zero (point.target isNegative) index
      rw [if_neg hover, if_neg fun h => hover h.2,
        Checked.place_eq H hmax fun _ => by omega, Option.bind_some]
      refine ⟨_, rfl, rfl, P.withTarget isNegative ?_⟩
      exact H.place (by omega) hbelow habove fun _ => by omega

omit htwo in
/-- And where not, some step of it has no result. -/
theorem insertValue_wide
    (hwide : ¬Narrow maxBuckets (point.target isNegative) (ceilLog absValue point.scale - 1)) :
    Checked.insertValue ceilLog point absValue isNegative maxBuckets = none := by
  have hindex := Checked.mapIndex_eq ceilLog absValue point.scale
    (by unfold leastIndex at hlow; omega)
    (by unfold greatestIndex at hhigh; omega)
  generalize hat : ceilLog absValue point.scale - 1 = index at hwide hindex
  have hbelow : leastIndex ≤ index := by omega
  have habove : index ≤ greatestIndex := by omega
  have H := P.target isNegative
  unfold Narrow at hwide
  push Not at hwide
  obtain ⟨hne, hwide⟩ := hwide
  have hpos := mergedSpan_pos (point.target isNegative) index 0
  have hmono := mergedSpan_antitone (point.target isNegative) index (by omega : 0 ≤ 30)
  unfold Checked.insertValue
  rw [hindex]
  simp only [Option.bind_eq_bind, Option.bind_some]
  rw [if_neg hne, Checked.mergedSpan_eq H hne hmax hbelow habove (by omega)]
  by_cases hspan : mergedSpan (point.target isNegative) index 0 ≤ 2147483647
  · have hthirty := hwide hspan
    rw [int32_eq (by omega) hspan, Option.bind_some, if_pos (by omega), Checked.requiredDownscale,
      Checked.requiredDownscaleFrom_none H hne hmax hbelow habove hthirty (by omega)]
    rfl
  · rw [int32_over (by omega)]
    rfl

end Insert

/-! ### Runs -/

section Runs

variable {V : Type}

theorem ceilLog_range {log2 : V → ℝ} {absValue : V} {scale : Int} (hscale : scale ≤ 20)
    (hlow : -1074 ≤ log2 absValue) (hhigh : log2 absValue ≤ 1024) :
    leastIndex + 1 ≤ ceilLog log2 absValue scale ∧
      ceilLog log2 absValue scale ≤ greatestIndex + 1 := by
  have hpos : (0 : ℝ) < 2 ^ scale := by positivity
  have hpow : (2 : ℝ) ^ scale ≤ 2 ^ (20 : Int) := zpow_le_zpow_right₀ (by norm_num) hscale
  have htwenty : (2 : ℝ) ^ (20 : Int) = 1048576 := by norm_num
  rw [htwenty] at hpow
  unfold ceilLog
  constructor
  · have hbelow : ((leastIndex + 1 : Int) : ℝ) ≤ log2 absValue * 2 ^ scale := by
      unfold leastIndex
      push_cast
      nlinarith
    exact Int.cast_le.mp (hbelow.trans (Int.le_ceil _))
  · rw [Int.ceil_le]
    unfold greatestIndex
    push_cast
    nlinarith

variable [AddGroup V] [LinearOrder V] (log2 : V → ℝ) (maxScale maxBuckets : Int)

/-- A double that is finite and not zero, by what its logarithm can be. -/
structure Recordable (v : V) : Prop where
  ne_zero : v ≠ 0
  low : -1074 ≤ log2 |v|
  high : log2 |v| ≤ 1024

/-- Where the next value meets the point narrow. -/
def NarrowAt (point : ExpHistoPoint V) (v : V) : Prop :=
  Narrow maxBuckets ((counted maxScale point v).target (v < 0))
    (mapIndex log2 |v| (counted maxScale point v).scale)

/-- After each value every computation has been in range, and the arrays are no longer
than allowed. -/
def StaysInt32 (values : List V) : Prop :=
  ∀ before, before <+: values → ∃ point,
    Checked.recordAllExp (ceilLog log2) maxScale maxBuckets before = some point ∧
      recordAllExp (mapIndex log2) maxScale maxBuckets before = some point ∧
      point.positive.counts.length ≤ maxBuckets ∧ point.negative.counts.length ≤ maxBuckets

/-- No value meets a point that is not narrow. -/
def NarrowRun (values : List V) : Prop :=
  ∀ before v after point, values = before ++ v :: after →
    recordAllExp (mapIndex log2) maxScale maxBuckets before = some point →
      NarrowAt log2 maxScale maxBuckets point v

variable {log2 maxScale maxBuckets} {point : ExpHistoPoint V} {v : V}

theorem PointHeld.counted (P : PointHeld maxBuckets point) (hscale : maxScale ≤ 20) (v : V) :
    PointHeld maxBuckets (Metrics.counted maxScale point v) := by
  unfold Metrics.counted
  dsimp only
  split
  · exact ⟨hscale, P.positive, P.negative⟩
  · exact ⟨P.scale, P.positive, P.negative⟩

omit [LinearOrder V] in
theorem PointHeld.new (hmax : 0 ≤ maxBuckets) : PointHeld maxBuckets (.new : ExpHistoPoint V) := by
  have hempty : Held maxBuckets {} :=
    ⟨fun h => absurd rfl h, fun h => absurd rfl h, hmax⟩
  exact ⟨show (0 : Int) ≤ 20 by decide, hempty, hempty⟩

variable (hscale : maxScale ≤ 20) (htwo : 2 ≤ maxBuckets) (hmax : maxBuckets ≤ 2147483647)

include hscale htwo hmax

theorem record_narrow (P : PointHeld maxBuckets point) (hv : Recordable log2 v)
    (hnarrow : NarrowAt log2 maxScale maxBuckets point v) :
    ∃ point', Checked.recordExp (ceilLog log2) maxScale maxBuckets point v = some point' ∧
      recordExp (mapIndex log2) maxScale maxBuckets point v = some point' ∧
      PointHeld maxBuckets point' := by
  have Q := P.counted hscale v
  obtain ⟨hlow, hhigh⟩ := ceilLog_range Q.scale hv.low hv.high
  unfold Checked.recordExp
  rw [recordExp_eq, if_neg hv.ne_zero]
  dsimp only
  rw [if_neg hv.ne_zero]
  exact insertValue_narrow Q htwo hmax hlow hhigh hnarrow

omit htwo in
theorem record_returns_narrow (P : PointHeld maxBuckets point) (hv : Recordable log2 v)
    {point' : ExpHistoPoint V}
    (h : Checked.recordExp (ceilLog log2) maxScale maxBuckets point v = some point') :
    NarrowAt log2 maxScale maxBuckets point v := by
  by_contra hwide
  have Q := P.counted hscale v
  obtain ⟨hlow, hhigh⟩ := ceilLog_range Q.scale hv.low hv.high
  unfold Checked.recordExp at h
  dsimp only at h
  rw [if_neg hv.ne_zero, insertValue_wide Q hmax hlow hhigh hwide] at h
  cases h

theorem run_narrow {values : List V} (hvalues : ∀ v ∈ values, Recordable log2 v)
    (hnarrow : NarrowRun log2 maxScale maxBuckets values) (before : List V)
    (hbefore : before <+: values) :
    ∃ point, Checked.recordAllExp (ceilLog log2) maxScale maxBuckets before = some point ∧
      recordAllExp (mapIndex log2) maxScale maxBuckets before = some point ∧
      PointHeld maxBuckets point := by
  induction before using List.reverseRecOn with
  | nil => exact ⟨.new, rfl, rfl, PointHeld.new (by omega)⟩
  | append_singleton before v ih =>
      obtain ⟨after, hafter⟩ := hbefore
      rw [List.append_assoc, List.singleton_append] at hafter
      obtain ⟨point, hchecked, hexact, P⟩ := ih ⟨v :: after, hafter⟩
      have hv : Recordable log2 v := hvalues v (by rw [← hafter]; simp)
      obtain ⟨point', hchecked', hexact', P'⟩ := record_narrow hscale htwo hmax P hv
        (hnarrow before v after point hafter.symm hexact)
      unfold Checked.recordAllExp at hchecked ⊢
      unfold recordAllExp at hexact ⊢
      rw [List.foldlM_append, hchecked, List.foldlM_append, hexact]
      simp only [Option.bind_eq_bind, Option.bind_some, List.foldlM_cons, List.foldlM_nil]
      rw [hchecked', hexact']
      exact ⟨point', rfl, rfl, P'⟩

theorem stays_held {values : List V} (hvalues : ∀ v ∈ values, Recordable log2 v)
    (hstays : StaysInt32 log2 maxScale maxBuckets values) {before : List V}
    (hbefore : before <+: values) {point : ExpHistoPoint V}
    (hexact : recordAllExp (mapIndex log2) maxScale maxBuckets before = some point) :
    PointHeld maxBuckets point := by
  induction before using List.reverseRecOn generalizing point with
  | nil =>
      obtain rfl := Option.some.inj hexact
      exact PointHeld.new (by omega)
  | append_singleton before v ih =>
      have hprefix : before <+: values := (List.prefix_append before [v]).trans hbefore
      obtain ⟨first, hchecked, hfirst, -, -⟩ := hstays before hprefix
      obtain ⟨second, hchecked', hsecond, -, -⟩ := hstays (before ++ [v]) hbefore
      have P := ih hprefix hfirst
      have hv : Recordable log2 v := hvalues v (hbefore.subset (by simp))
      unfold Checked.recordAllExp at hchecked hchecked'
      unfold recordAllExp at hfirst hexact
      rw [List.foldlM_append, hchecked] at hchecked'
      rw [List.foldlM_append, hfirst] at hexact
      simp only [Option.bind_eq_bind, Option.bind_some, List.foldlM_cons, List.foldlM_nil,
        Option.pure_def, Option.bind_fun_some] at hchecked' hexact
      have hnarrow := record_returns_narrow hscale hmax P hv hchecked'
      obtain ⟨point', -, hexact', P'⟩ := record_narrow hscale htwo hmax P hv hnarrow
      rw [hexact] at hexact'
      rw [Option.some.inj hexact']
      exact P'

/-- Recording stays within `int32` exactly when no value meets a point from which it is
too far. -/
theorem staysInt32_iff (values : List V) (hvalues : ∀ v ∈ values, Recordable log2 v) :
    StaysInt32 log2 maxScale maxBuckets values ↔ NarrowRun log2 maxScale maxBuckets values := by
  constructor
  · intro hstays before v after point hsplit hexact
    have hbefore : before <+: values := ⟨v :: after, hsplit.symm⟩
    have hnext : before ++ [v] <+: values := ⟨after, by rw [hsplit, List.append_assoc]; rfl⟩
    have hv : Recordable log2 v := hvalues v (hnext.subset (by simp))
    have P := stays_held hscale htwo hmax hvalues hstays hbefore hexact
    obtain ⟨first, hchecked, hfirst, -, -⟩ := hstays before hbefore
    obtain ⟨second, hchecked', -, -, -⟩ := hstays (before ++ [v]) hnext
    rw [hexact] at hfirst
    obtain rfl := Option.some.inj hfirst
    unfold Checked.recordAllExp at hchecked hchecked'
    rw [List.foldlM_append, hchecked] at hchecked'
    simp only [Option.bind_eq_bind, Option.bind_some, List.foldlM_cons, List.foldlM_nil,
      Option.pure_def, Option.bind_fun_some] at hchecked'
    exact record_returns_narrow hscale hmax P hv hchecked'
  · intro hnarrow before hbefore
    obtain ⟨point, hchecked, hexact, P⟩ :=
      run_narrow hscale htwo hmax hvalues hnarrow before hbefore
    exact ⟨point, hchecked, hexact, P.positive.length, P.negative.length⟩

end Runs

theorem logb_two_zpow (n : Int) : Real.logb 2 |(2 : ℝ) ^ n| = n := by
  rw [abs_of_pos (by positivity), ← Real.rpow_intCast, Real.logb_rpow (by norm_num) (by norm_num)]

theorem recordable_zpow {n : Int} (hlow : -1074 ≤ n) (hhigh : n ≤ 1024) :
    Recordable (Real.logb 2) ((2 : ℝ) ^ n) := by
  refine ⟨by positivity, ?_, ?_⟩
  · rw [logb_two_zpow]
    exact_mod_cast hlow
  · rw [logb_two_zpow]
    exact_mod_cast hhigh

theorem mapIndex_zpow (n : Int) :
    mapIndex (Real.logb 2) |(2 : ℝ) ^ n| 20 = n * 1048576 - 1 := by
  unfold mapIndex
  rw [logb_two_zpow]
  have hcast : (n : ℝ) * 2 ^ (20 : Int) = ((n * 1048576 : Int) : ℝ) := by
    push_cast
    norm_num
  rw [hcast, Int.ceil_intCast]

/-- The point after one positive value. -/
theorem record_first {log2 : ℝ → ℝ} {a : ℝ} (ha : 0 < a) {index : Int}
    (hindex : mapIndex log2 |a| 20 = index) :
    recordAllExp (mapIndex log2) 20 160 [a] = some
      { scale := 20, count := 1, sum := 0 + a, min := a, max := a
        positive := { offset := index, counts := [1] } } := by
  have hnonneg : ¬a < 0 := not_lt.mpr ha.le
  unfold recordAllExp
  rw [List.foldlM_cons, recordExp_eq, if_neg ha.ne']
  unfold insertValue counted ExpHistoPoint.new
  simp only [hnonneg, decide_false, ExpHistoPoint.target, Bool.false_eq_true, if_false, if_true,
    hindex, ne_eq, not_true_eq_false, false_and, ExpHistoPoint.withTarget, place, makeRoom]
  simp

theorem record_two : recordAllExp (mapIndex (Real.logb 2)) 20 160 [(2 : ℝ) ^ (1 : Int)] = some
    { scale := 20, count := 1, sum := 0 + (2 : ℝ) ^ (1 : Int), min := (2 : ℝ) ^ (1 : Int)
      max := (2 : ℝ) ^ (1 : Int), positive := { offset := 1048575, counts := [1] } } :=
  record_first (by positivity) (mapIndex_zpow 1)

/-- Their indices at scale 20 are 1048575 and 2097151, so 4 takes thirteen halvings. -/
theorem record_two_four :
    ∃ point, recordAllExp (mapIndex (Real.logb 2)) 20 160
      [(2 : ℝ) ^ (1 : Int), (2 : ℝ) ^ (2 : Int)] = some point ∧
      point.scale = 7 := by
  have hchange : requiredDownscale { offset := 1048575, counts := [1] } 2097151 160 = some 13 := by
    decide +kernel
  have hwide : (160 : Int) < mergedSpan { offset := 1048575, counts := [1] } 2097151 0 := by decide
  have hnonneg : ¬(2 : ℝ) ^ (2 : Int) < 0 := not_lt.mpr (by positivity)
  have hindex : mapIndex (Real.logb 2) |(2 : ℝ) ^ (2 : Int)| 20 = 2097151 := mapIndex_zpow 2
  have hfirst := record_two
  unfold recordAllExp at hfirst ⊢
  rw [← List.singleton_append, List.foldlM_append, hfirst]
  simp only [Option.bind_eq_bind, Option.bind_some, List.foldlM_cons, List.foldlM_nil,
    Option.pure_def, Option.bind_fun_some]
  rw [recordExp_eq, if_neg (by positivity)]
  unfold insertValue counted
  simp only [hnonneg, decide_false, ExpHistoPoint.target, Bool.false_eq_true, if_false,
    one_ne_zero, hindex]
  rw [if_pos ⟨List.cons_ne_nil _ _, hwide⟩]
  simp only [hchange]
  exact ⟨_, rfl, rfl⟩

theorem staysInt32_two_four : StaysInt32 (Real.logb 2) 20 160
      [(2 : ℝ) ^ (1 : Int), (2 : ℝ) ^ (2 : Int)] ∧
    ∃ point, recordAllExp (mapIndex (Real.logb 2)) 20 160
      [(2 : ℝ) ^ (1 : Int), (2 : ℝ) ^ (2 : Int)] = some point ∧
      point.scale = 7 := by
  have hvalues : ∀ v ∈ [(2 : ℝ) ^ (1 : Int), (2 : ℝ) ^ (2 : Int)], Recordable (Real.logb 2) v := by
    intro v hv
    rcases List.mem_pair.mp hv with rfl | rfl
    · exact recordable_zpow (by decide) (by decide)
    · exact recordable_zpow (by decide) (by decide)
  refine ⟨?_, record_two_four⟩
  rw [staysInt32_iff (by decide) (by decide) (by decide) _ hvalues]
  intro before v after point hsplit hexact
  rcases before with _ | ⟨w, _ | ⟨w', before⟩⟩
  · -- the first value meets an empty point
    obtain rfl := Option.some.inj hexact
    left
    unfold counted ExpHistoPoint.new ExpHistoPoint.target
    simp
  · -- the second meets one bucket, and thirty halvings are plenty
    obtain ⟨rfl, rfl, -⟩ : (2 : ℝ) ^ (1 : Int) = w ∧ (2 : ℝ) ^ (2 : Int) = v ∧ [] = after := by
      simpa using hsplit
    rw [record_two] at hexact
    obtain rfl := Option.some.inj hexact
    have hnonneg : ¬(2 : ℝ) ^ (2 : Int) < 0 := not_lt.mpr (by positivity)
    have hindex : mapIndex (Real.logb 2) |(2 : ℝ) ^ (2 : Int)| 20 = 2097151 := mapIndex_zpow 2
    unfold NarrowAt counted
    simp only [one_ne_zero, if_false, hnonneg, decide_false, ExpHistoPoint.target,
      Bool.false_eq_true, hindex]
    right
    decide
  · simp at hsplit

/-- A second value whose index is too far from that of the first. -/
theorem not_stays_of_far {log2 : ℝ → ℝ} {a b : ℝ} (ha : 0 < a) (hb : 0 < b)
    (hvalues : ∀ v ∈ [a, b], Recordable log2 v)
    (hfar : mapIndex log2 |a| 20 + 2147483647 ≤ mapIndex log2 |b| 20) :
    ¬StaysInt32 log2 20 160 [a, b] := by
  intro hstays
  have hfirst : [a] <+: [a, b] := ⟨[b], rfl⟩
  have hrun := record_first ha (rfl : mapIndex log2 |a| 20 = _)
  have P := stays_held (le_refl _) (by decide) (by decide) hvalues hstays hfirst hrun
  obtain ⟨first, hchecked, hexact, -, -⟩ := hstays _ hfirst
  obtain ⟨second, hchecked', -, -, -⟩ := hstays _ List.prefix_rfl
  rw [← Option.some.inj (hrun.symm.trans hexact)] at hchecked
  have hstep := hchecked'
  unfold Checked.recordAllExp at hchecked hstep
  rw [← List.singleton_append, List.foldlM_append, hchecked] at hstep
  simp only [Option.bind_eq_bind, Option.bind_some, List.foldlM_cons, List.foldlM_nil,
    Option.pure_def, Option.bind_fun_some] at hstep
  have hnarrow := record_returns_narrow (le_refl _) (by decide) P (hvalues b (by simp)) hstep
  have hnonneg : ¬b < 0 := not_lt.mpr hb.le
  unfold NarrowAt counted at hnarrow
  simp only [one_ne_zero, if_false, hnonneg, decide_false, ExpHistoPoint.target,
    Bool.false_eq_true] at hnarrow
  rcases hnarrow with hnil | ⟨hspan, -⟩
  · cases hnil
  · rw [mergedSpan_zero] at hspan
    unfold highEnd lowEnd lastIndex at hspan
    simp only [List.length_singleton, Nat.cast_one, add_sub_cancel_right] at hspan
    omega

/-- The least double and one near the greatest lie more than an `int32` apart. -/
theorem staysInt32_fails :
    ¬∀ (maxScale maxBuckets : Int) (values : List ℝ), maxScale ≤ 20 → 2 ≤ maxBuckets →
      maxBuckets ≤ 2147483647 → (∀ v ∈ values, Recordable (Real.logb 2) v) →
        StaysInt32 (Real.logb 2) maxScale maxBuckets values := by
  intro h
  have hvalues : ∀ v ∈ [(2 : ℝ) ^ (-1074 : Int), (2 : ℝ) ^ (1023 : Int)],
      Recordable (Real.logb 2) v := by
    intro v hv
    rcases List.mem_cons.mp hv with rfl | hv
    · exact recordable_zpow (by decide) (by decide)
    · obtain rfl := List.mem_singleton.mp hv
      exact recordable_zpow (by decide) (by decide)
  refine not_stays_of_far (by positivity) (by positivity) hvalues ?_
    (h 20 160 _ (le_refl _) (by decide) (by decide) hvalues)
  rw [mapIndex_zpow, mapIndex_zpow]
  decide

end Microtel.Metrics
