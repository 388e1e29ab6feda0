import Microtel.Concentrator.Receiver
import Microtel.Lib.Signed64

/-!
The arithmetic of `src/sdk/leaf_time.cpp` on the whole range of `int64_t`. Signed overflow
has no meaning in the source's language, so each function is also evaluated with every
intermediate result checked, in the source's order and with its short circuits.
-/

namespace Microtel.Concentrator

/-- The nearest value of the range. -/
def clamp (n : Int) : Int := max int64Min (min n int64Max)

/-- The result of an `int64_t` operation; `none` where it overflows. -/
def checked (n : Int) : Option Int := if int64Min ≤ n ∧ n ≤ int64Max then some n else none

/-- `sign && test(bound)`: the bound is computed only behind the sign. -/
def guarded (sign : Prop) [Decidable sign] (bound : Int) (test : Int → Bool) : Option Bool :=
  if sign then (checked bound).map test else some false

def evalSaturatingAdd (a b : Int) : Option Int := do
  if ← guarded (0 < b) (int64Max - b) (· < a) then return int64Max
  if ← guarded (b < 0) (int64Min - b) (a < ·) then return int64Min
  checked (a + b)

def evalSaturatingSub (a b : Int) : Option Int := do
  if ← guarded (b < 0) (int64Max + b) (· < a) then return int64Max
  if ← guarded (0 < b) (int64Min + b) (a < ·) then return int64Min
  checked (a - b)

/-! ### Saturation -/

/-- The values an `int64_t` can have. -/
def InInt64 (n : Int) : Prop := int64Min ≤ n ∧ n ≤ int64Max

theorem inInt64 (a : Int64) : InInt64 a.toInt := Signed64.inRange_toInt a

theorem checked_of_inInt64 {n : Int} (h : InInt64 n) : checked n = some n := if_pos h

theorem guarded_eq {sign : Prop} [Decidable sign] {bound : Int} (test : Int → Bool)
    (h : sign → InInt64 bound) : guarded sign bound test = some (decide sign && test bound) := by
  unfold guarded
  split
  · next hsign => simp [checked_of_inInt64 (h hsign), hsign]
  · next hsign => simp [hsign]

theorem saturatingAdd_clamp {a b : Int} (ha : InInt64 a) (hb : InInt64 b) :
    saturatingAdd a b = clamp (a + b) := by
  unfold saturatingAdd clamp
  unfold InInt64 int64Max int64Min at *
  split_ifs <;> omega

theorem saturatingSub_clamp {a b : Int} (ha : InInt64 a) (hb : InInt64 b) :
    saturatingSub a b = clamp (a - b) := by
  unfold saturatingSub clamp
  unfold InInt64 int64Max int64Min at *
  split_ifs <;> omega

theorem clamp_inInt64 (n : Int) : InInt64 (clamp n) := by
  unfold InInt64 clamp int64Max int64Min
  omega

/-- The sign of the operand keeps each bound in range, and what both guards let through
is in range too. -/
theorem evalSaturatingAdd_eq {a b : Int} (ha : InInt64 a) (hb : InInt64 b) :
    evalSaturatingAdd a b = some (saturatingAdd a b) := by
  have habove : 0 < b → InInt64 (int64Max - b) := by
    unfold InInt64 int64Max int64Min at *
    omega
  have hbelow : b < 0 → InInt64 (int64Min - b) := by
    unfold InInt64 int64Max int64Min at *
    omega
  unfold evalSaturatingAdd saturatingAdd
  rw [guarded_eq _ habove, guarded_eq _ hbelow]
  by_cases hhigh : 0 < b ∧ int64Max - b < a
  · simp [hhigh]
  · by_cases hlow : b < 0 ∧ a < int64Min - b
    · simp [hlow, not_lt.mpr hlow.1.le]
    · have hsum : InInt64 (a + b) := by
        unfold InInt64 int64Max int64Min at *
        omega
      simp [hhigh, hlow, checked_of_inInt64 hsum]

theorem evalSaturatingSub_eq {a b : Int} (ha : InInt64 a) (hb : InInt64 b) :
    evalSaturatingSub a b = some (saturatingSub a b) := by
  have habove : b < 0 → InInt64 (int64Max + b) := by
    unfold InInt64 int64Max int64Min at *
    omega
  have hbelow : 0 < b → InInt64 (int64Min + b) := by
    unfold InInt64 int64Max int64Min at *
    omega
  unfold evalSaturatingSub saturatingSub
  rw [guarded_eq _ habove, guarded_eq _ hbelow]
  by_cases hhigh : b < 0 ∧ int64Max + b < a
  · simp [hhigh]
  · by_cases hlow : 0 < b ∧ a < int64Min + b
    · simp [hlow, not_lt.mpr hlow.1.le]
    · have hdiff : InInt64 (a - b) := by
        unfold InInt64 int64Max int64Min at *
        omega
      simp [hhigh, hlow, checked_of_inInt64 hdiff]

/-! ### Corrections -/

theorem saturatingAdd_mono {s t : Int} (offset : Int) (hle : s ≤ t) :
    saturatingAdd s offset ≤ saturatingAdd t offset := by
  unfold saturatingAdd int64Max int64Min
  split_ifs <;> omega

theorem corrected_mono {s t : Int} (c : TimeCorrection) (hle : s ≤ t) :
    corrected s c ≤ corrected t c := by
  unfold corrected
  cases c.fixed with
  | some r => exact Int.le_refl r
  | none => exact max_le_max (Int.le_refl 0) (saturatingAdd_mono c.offset hle)

theorem corrected_range {c : TimeCorrection} {t : Int} (ht : t ≤ int64Max)
    (hfixed : ∀ r, c.fixed = some r → 0 ≤ r ∧ r ≤ int64Max) :
    0 ≤ corrected t c ∧ corrected t c ≤ int64Max := by
  unfold corrected
  cases hc : c.fixed with
  | some r => exact hfixed r hc
  | none =>
      refine ⟨le_max_left _ _, ?_⟩
      apply max_le
      · decide
      · unfold saturatingAdd
        unfold int64Max int64Min at *
        split_ifs <;> omega

/-- A limit in seconds stays below the largest value, so a skew that saturates is over
every limit. -/
theorem saturatingNs_lt (seconds : Int) : saturatingNs seconds < int64Max := by
  unfold saturatingNs int64Max nsPerSecond
  norm_num
  omega

theorem absSkew_le_iff {skew limit : Int} (hlimit : limit < int64Max) :
    (if 0 ≤ clamp skew then clamp skew else saturatingSub 0 (clamp skew)) ≤ limit ↔
      |skew| ≤ limit := by
  rw [abs_le]
  split
  · unfold clamp at *
    unfold int64Max int64Min at *
    omega
  · rw [saturatingSub_clamp ⟨by decide, by decide⟩ (clamp_inInt64 skew)]
    unfold clamp at *
    unfold int64Max int64Min at *
    omega

theorem syncRelative_isSome_iff {received encodeTime : Int} (hreceived : InInt64 received)
    (hencode : InInt64 encodeTime) (syncAge : Int) {limits : SyncLimits}
    (hlimit : limits.maxClockSkew < int64Max) :
    (syncRelative received encodeTime syncAge limits).isSome = true ↔
      (0 ≤ syncAge ∧ syncAge ≤ limits.maxSyncAge) ∧
        |received - encodeTime| ≤ limits.maxClockSkew := by
  unfold syncRelative
  rw [saturatingSub_clamp hreceived hencode, ← absSkew_le_iff hlimit]
  by_cases hfresh : 0 ≤ syncAge ∧ syncAge ≤ limits.maxSyncAge
  · simp only [hfresh]
    split_ifs <;> simp_all
  · simp [hfresh]

/-! ### Main results -/

/-- On every `int64_t`: sums and differences are exact and clamped, computed without an
overflow; the sync mode decides on the exact skew; and a correction keeps the order of
times and yields no negative one. -/
theorem timeArithmetic_saturates :
    (∀ a b : Int64, saturatingAdd a.toInt b.toInt = clamp (a.toInt + b.toInt) ∧
        evalSaturatingAdd a.toInt b.toInt = some (clamp (a.toInt + b.toInt))) ∧
      (∀ a b : Int64, saturatingSub a.toInt b.toInt = clamp (a.toInt - b.toInt) ∧
        evalSaturatingSub a.toInt b.toInt = some (clamp (a.toInt - b.toInt))) ∧
      (∀ (received encodeTime syncAge : Int64) (ageSeconds skewSeconds : Int),
        (syncRelative received.toInt encodeTime.toInt syncAge.toInt
            ⟨saturatingNs ageSeconds, saturatingNs skewSeconds⟩).isSome = true ↔
          (0 ≤ syncAge.toInt ∧ syncAge.toInt ≤ saturatingNs ageSeconds) ∧
            |received.toInt - encodeTime.toInt| ≤ saturatingNs skewSeconds) ∧
      ∀ offset : Int64,
        (Monotone fun t : Int => corrected t ⟨offset.toInt, none⟩) ∧
          ∀ t : Int64, 0 ≤ corrected t.toInt ⟨offset.toInt, none⟩ ∧
            corrected t.toInt ⟨offset.toInt, none⟩ ≤ int64Max := by
  refine ⟨?_, ?_, ?_, ?_⟩
  · intro a b
    have hclamp := saturatingAdd_clamp (inInt64 a) (inInt64 b)
    rw [evalSaturatingAdd_eq (inInt64 a) (inInt64 b), hclamp]
    exact ⟨rfl, rfl⟩
  · intro a b
    have hclamp := saturatingSub_clamp (inInt64 a) (inInt64 b)
    rw [evalSaturatingSub_eq (inInt64 a) (inInt64 b), hclamp]
    exact ⟨rfl, rfl⟩
  · intro received encodeTime syncAge ageSeconds skewSeconds
    exact syncRelative_isSome_iff (inInt64 received) (inInt64 encodeTime) syncAge.toInt
      (saturatingNs_lt skewSeconds)
  · intro offset
    refine ⟨fun s t hle => corrected_mono _ hle, ?_⟩
    intro t
    apply corrected_range (inInt64 t).2
    intro r hr
    cases hr

end Microtel.Concentrator
