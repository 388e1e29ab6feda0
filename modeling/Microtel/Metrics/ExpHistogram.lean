import Mathlib.Tactic
import Mathlib.Algebra.Order.Group.Abs

/-!
A point of `ExponentialHistogramStorage` (`src/sdk/metric_exp_histogram_storage.cpp`).
Indices and scales are unbounded integers, and `MapIndex` is a parameter over the
type of the values: the code takes it from the floating-point logarithm.
-/

namespace Microtel.Metrics

structure ExpBuckets where
  offset : Int := 0
  counts : List Nat := []
  deriving DecidableEq, Repr

structure ExpHistoPoint (V : Type) where
  scale : Int := 0
  zeroCount : Nat := 0
  count : Nat := 0
  sum : V
  min : V
  max : V
  positive : ExpBuckets := {}
  negative : ExpBuckets := {}
  deriving DecidableEq, Repr

/-- C++ division rounds towards zero, so a negative value with a remainder is one off. -/
def floorDivPow2 (value : Int) (shift : Nat) : Int :=
  let divisor : Int := 2 ^ shift
  let quotient := value.tdiv divisor
  if value.tmod divisor ≠ 0 ∧ value < 0 then quotient - 1 else quotient

def lastIndex (buckets : ExpBuckets) : Int := buckets.offset + buckets.counts.length - 1

def mergedSpan (buckets : ExpBuckets) (index : Int) (change : Nat) : Int :=
  let low := floorDivPow2 (min buckets.offset index) change
  let high := floorDivPow2 (max (lastIndex buckets) index) change
  high - low + 1

/-- The loop of `RequiredDownscale`; `none` is a loop that does not end. -/
def requiredDownscaleFrom (buckets : ExpBuckets) (index maxBuckets : Int) :
    (fuel change : Nat) → Option Nat
  | 0, _ => none
  | fuel + 1, change =>
      if maxBuckets < mergedSpan buckets index change then
        requiredDownscaleFrom buckets index maxBuckets fuel (change + 1)
      else some change

/-- From as many rounds on as the two ends are away from zero, the span is the same
for ever. -/
def requiredDownscale (buckets : ExpBuckets) (index maxBuckets : Int) : Option Nat :=
  requiredDownscaleFrom buckets index maxBuckets
    ((min buckets.offset index).natAbs + (max (lastIndex buckets) index).natAbs + 1) 1

/-- One round of the loop in `Rescale`. -/
def mergeBucket (buckets : ExpBuckets) (shift : Nat) (newOffset : Int)
    (merged : List Nat) (k : Nat) :
    List Nat :=
  let n := buckets.counts.getD k 0
  if n = 0 then merged
  else
    let absIndex := buckets.offset + k
    let slot := floorDivPow2 absIndex shift - newOffset
    merged.modify slot.toNat (· + n)

def rescale (buckets : ExpBuckets) (shift : Nat) : ExpBuckets :=
  if buckets.counts = [] then buckets
  else
    let newOffset := floorDivPow2 buckets.offset shift
    let newLast := floorDivPow2 (lastIndex buckets) shift
    let newSpan := newLast - newOffset + 1
    { offset := newOffset
      counts := (List.range buckets.counts.length).foldl (mergeBucket buckets shift newOffset)
        (List.replicate newSpan.toNat 0) }

/-- The buckets with room for an index. -/
def makeRoom (buckets : ExpBuckets) (index : Int) : ExpBuckets :=
  if buckets.counts = [] then { offset := index, counts := [0] }
  else if index < buckets.offset then
    { offset := index
      counts := List.replicate (buckets.offset - index).toNat 0 ++ buckets.counts }
  else if lastIndex buckets < index then
    let width := index - buckets.offset + 1
    { buckets with
      counts := buckets.counts ++ List.replicate (width.toNat - buckets.counts.length) 0 }
  else buckets

def place (buckets : ExpBuckets) (index : Int) : ExpBuckets :=
  let buckets := makeRoom buckets index
  { buckets with counts := buckets.counts.modify (index - buckets.offset).toNat (· + 1) }

section

variable {V : Type} (mapIndex : V → Int → Int)

def ExpHistoPoint.target (point : ExpHistoPoint V) (isNegative : Bool) : ExpBuckets :=
  if isNegative then point.negative else point.positive

def ExpHistoPoint.withTarget (point : ExpHistoPoint V) (isNegative : Bool) (buckets : ExpBuckets) :
    ExpHistoPoint V :=
  if isNegative then { point with negative := buckets } else { point with positive := buckets }

def insertValue (point : ExpHistoPoint V) (absValue : V) (isNegative : Bool) (maxBuckets : Int) :
    Option (ExpHistoPoint V) :=
  let index := mapIndex absValue point.scale
  let target := point.target isNegative
  if target.counts ≠ [] ∧ maxBuckets < mergedSpan target index 0 then
    match requiredDownscale target index maxBuckets with
    | none => none
    | some change =>
        let point := { point with
          positive := rescale point.positive change
          negative := rescale point.negative change
          scale := point.scale - change }
        let index := floorDivPow2 index change
        some (point.withTarget isNegative (place (point.target isNegative) index))
  else some (point.withTarget isNegative (place target index))

variable [AddGroup V] [LinearOrder V]

/-- A point as `try_emplace` makes it. -/
def ExpHistoPoint.new : ExpHistoPoint V := { sum := 0, min := 0, max := 0 }

/-- What `Record` does to the point of a finite observation; exemplars apart. -/
def recordExp (maxScale maxBuckets : Int) (point : ExpHistoPoint V) (observation : V) :
    Option (ExpHistoPoint V) :=
  let point :=
    if point.count = 0 then
      { point with scale := maxScale, min := observation, max := observation }
    else
      { point with min := Min.min point.min observation, max := Max.max point.max observation }
  let point := { point with count := point.count + 1, sum := point.sum + observation }
  if observation = 0 then some { point with zeroCount := point.zeroCount + 1 }
  else insertValue mapIndex point |observation| (observation < 0) maxBuckets

/-- The point after a sequence of observations. -/
def recordAllExp (maxScale maxBuckets : Int) (observations : List V) : Option (ExpHistoPoint V) :=
  observations.foldlM (recordExp mapIndex maxScale maxBuckets) .new

end

end Microtel.Metrics
