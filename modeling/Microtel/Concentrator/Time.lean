import Mathlib.Tactic

/-!
Time correction at the concentrator (`src/sdk/leaf_time.cpp`): saturating
64-bit arithmetic, the corrections of the time modes, and the boot-relative
anchor of one leaf.
-/

namespace Microtel.Concentrator

def int64Max : Int := 2 ^ 63 - 1
def int64Min : Int := -(2 ^ 63)

/-- `a + b`, saturated to the `int64_t` range. -/
def saturatingAdd (a b : Int) : Int :=
  if 0 < b ∧ int64Max - b < a then int64Max
  else if b < 0 ∧ a < int64Min - b then int64Min
  else a + b

/-- `a - b`, saturated to the `int64_t` range. -/
def saturatingSub (a b : Int) : Int :=
  if b < 0 ∧ int64Max + b < a then int64Max
  else if 0 < b ∧ a < int64Min + b then int64Min
  else a - b

/-- How one ResourceSpans' leaf timestamps become Unix times. -/
structure TimeCorrection where
  offset : Int
  fixed : Option Int
  deriving DecidableEq

structure SyncLimits where
  maxSyncAge : Int
  maxClockSkew : Int

def corrected (t : Int) (c : TimeCorrection) : Int :=
  match c.fixed with
  | some r => r
  | none => max 0 (saturatingAdd t c.offset)

def concentratorStamped (received : Int) (encodeTime : Option Int) : TimeCorrection :=
  match encodeTime with
  | none => ⟨0, some (max 0 received)⟩
  | some e => ⟨saturatingSub received e, none⟩

/-- The timestamps are trusted when the sync is fresh and the clocks agree. -/
def syncRelative (received encodeTime syncAge : Int) (limits : SyncLimits) :
    Option TimeCorrection :=
  let skew := saturatingSub received encodeTime
  let absSkew := if 0 ≤ skew then skew else saturatingSub 0 skew
  let fresh := 0 ≤ syncAge ∧ syncAge ≤ limits.maxSyncAge
  if ¬ fresh ∨ limits.maxClockSkew < absSkew then none else some ⟨0, none⟩

/-- One boot-relative sample: the offset `R - E`, taken at receive time `R`. -/
structure BootSample where
  bootId : Int
  offset : Int
  takenAt : Int

/-- A leaf's anchor: the samples in use, oldest first, as (offset, time). -/
structure BootAnchor where
  bootId : Option Int
  samples : List (Int × Int)

namespace BootAnchor

def empty : BootAnchor := ⟨none, []⟩

def maxSamples : Nat := 16

/-- Keeps the samples taken at or after the cutoff, in order. -/
def ageOut (cutoff : Int) (samples : List (Int × Int)) : List (Int × Int) :=
  samples.filter fun s => cutoff ≤ s.2

/-- The smallest and the second-smallest offset, in one pass. -/
def lowestTwo (samples : List (Int × Int)) : Int × Int :=
  samples.foldl (fun (lowest, second) s =>
    if s.1 < lowest then (s.1, lowest)
    else if s.1 < second then (lowest, s.1)
    else (lowest, second)) (int64Max, int64Max)

/-- The second-smallest offset, or the only one. -/
def anchor (a : BootAnchor) : Int :=
  if a.samples.length < 2 then (lowestTwo a.samples).1 else (lowestTwo a.samples).2

def update (a : BootAnchor) (sample : BootSample) (window : Int) : BootAnchor × Int :=
  let samples := if a.bootId = some sample.bootId then a.samples else []
  let samples := ageOut (saturatingSub sample.takenAt window) samples
  let samples := if samples.length = maxSamples then samples.drop 1 else samples
  let a := ⟨some sample.bootId, samples ++ [(sample.offset, sample.takenAt)]⟩
  (a, anchor a)

end BootAnchor

end Microtel.Concentrator
