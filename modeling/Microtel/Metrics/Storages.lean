import Microtel.Metrics.AttributeSet
import Microtel.Metrics.ExpHistogram

/-!
The aggregation storages of the metrics SDK (`src/sdk/metric_sum_storage.cpp`,
`metric_histogram_storage.cpp`, `metric_exp_histogram_storage.cpp`,
`metric_gauge_storage.cpp`). Every call holds `m_mu`, so a run is a sequence of calls.
Exemplars are left out, and the points are listed in the order they were made.
-/

namespace Microtel.Metrics

inductive AggregationTemporality
  | cumulative | delta
  deriving DecidableEq, Repr

/-- A value given to an instrument: `std::isfinite` or not. -/
inductive Reading (V : Type)
  | finite (value : V)
  | nonFinite
  deriving DecidableEq, Repr

/-- What a storage reports to `m_diag`. -/
structure MetricDrops where
  cardinalityOverflow : Nat := 0
  nonFiniteValue : Nat := 0
  deriving DecidableEq, Repr

/-- `m_max_cardinality`, `m_points` and `m_diag`, which may be null. -/
structure Storage (P : Type) where
  maxCardinality : Nat
  points : List (AttributeSet × P) := []
  diag : Option MetricDrops := none
  deriving DecidableEq, Repr

/-- A new point, and a point with one more observation; `none` is an update that does
not return. -/
structure Aggregation (V P : Type) where
  new : P
  update : P → V → Option P

/-- What `Collect` reports. -/
structure Collected (P : Type) where
  temporality : AggregationTemporality
  points : List (AttributeSet × P)
  deriving DecidableEq, Repr

namespace Storage

variable {V P : Type}

def recordNonFinite (s : Storage P) : Storage P :=
  { s with diag := s.diag.map fun d => { d with nonFiniteValue := d.nonFiniteValue + 1 } }

def recordCardinalityOverflow (s : Storage P) : Storage P :=
  { s with diag := s.diag.map fun d => { d with cardinalityOverflow := d.cardinalityOverflow + 1 } }

/-- `Add` and `Record` of the four storages. -/
def record (agg : Aggregation V P) (s : Storage P) (value : Reading V) (attrs : List KeyValue) :
    Option (Storage P) :=
  match value with
  | .nonFinite => some s.recordNonFinite
  | .finite v =>
      let key := AttributeSet.ofSpan attrs
      let needsDrop := attributeKeys.folds s.maxCardinality (s.points.map Prod.fst) key
      let key := if needsDrop then overflowAttributeSet else key
      let s := if needsDrop then s.recordCardinalityOverflow else s
      (CappedMap.upsert attributeKeys agg.new (agg.update · v) s.points key).map fun points =>
        { s with points }

/-- `Collect` of the sum and histogram storages. -/
def collect (s : Storage P) (temporality : AggregationTemporality) : Collected P × Storage P :=
  let data := { temporality, points := s.points }
  match temporality with
  | .delta => (data, { s with points := [] })
  | .cumulative => (data, s)

end Storage

/-! ### Sums -/

namespace SumStorage

variable {V : Type} [Zero V] [Add V]

def aggregation : Aggregation V V := ⟨0, fun sum value => some (sum + value)⟩

def add (s : Storage V) (value : Reading V) (attrs : List KeyValue) : Option (Storage V) :=
  s.record aggregation value attrs

end SumStorage

/-! ### Explicit-bucket histograms -/

structure HistogramPoint (V : Type) where
  count : Nat := 0
  sum : V
  min : V
  max : V
  bucketCounts : List Nat := []
  deriving DecidableEq, Repr

namespace HistogramStorage

variable {V : Type} [AddMonoid V] [LinearOrder V]

/-- The first boundary that is not below the observation. -/
def bucket (boundaries : List V) (observation : V) : Nat :=
  BinarySearch.lowerBound (fun boundary => decide (boundary < observation)) boundaries

def update (boundaries : List V) (point : HistogramPoint V) (observation : V) : HistogramPoint V :=
  let point :=
    if point.bucketCounts = [] then
      { point with
        bucketCounts := List.replicate (boundaries.length + 1) 0
        min := observation
        max := observation }
    else
      { point with min := Min.min point.min observation, max := Max.max point.max observation }
  { point with
    bucketCounts := point.bucketCounts.modify (bucket boundaries observation) (· + 1)
    count := point.count + 1
    sum := point.sum + observation }

def aggregation (boundaries : List V) : Aggregation V (HistogramPoint V) :=
  ⟨{ sum := 0, min := 0, max := 0 }, fun point value => some (update boundaries point value)⟩

def record (boundaries : List V) (s : Storage (HistogramPoint V)) (value : Reading V)
    (attrs : List KeyValue) : Option (Storage (HistogramPoint V)) :=
  s.record (aggregation boundaries) value attrs

end HistogramStorage

/-! ### Exponential histograms -/

namespace ExponentialHistogramStorage

variable {V : Type} [AddGroup V] [LinearOrder V] (mapIndex : V → Int → Int)

def aggregation (maxScale maxBuckets : Int) : Aggregation V (ExpHistoPoint V) :=
  ⟨.new, recordExp mapIndex maxScale maxBuckets⟩

def record (maxScale maxBuckets : Int) (s : Storage (ExpHistoPoint V)) (value : Reading V)
    (attrs : List KeyValue) : Option (Storage (ExpHistoPoint V)) :=
  s.record (aggregation mapIndex maxScale maxBuckets) value attrs

end ExponentialHistogramStorage

/-! ### Gauges -/

namespace GaugeStorage

variable {V : Type} [Zero V]

/-- The last value wins. -/
def aggregation : Aggregation V V := ⟨0, fun _ value => some value⟩

def record (s : Storage V) (value : Reading V) (attrs : List KeyValue) : Option (Storage V) :=
  s.record aggregation value attrs

/-- A gauge has no temporality and keeps its points. -/
def collect (s : Storage V) : List (AttributeSet × V) := s.points

end GaugeStorage

/-! ### Runs of one storage -/

inductive StorageOp (V : Type)
  | record (value : Reading V) (attrs : List KeyValue)
  | collect (temporality : AggregationTemporality)
  deriving DecidableEq, Repr

variable {V P : Type}

/-- The calls in order, with what each `Collect` returned. -/
def Storage.run (agg : Aggregation V P) :
    Storage P → List (StorageOp V) → Option (Storage P × List (Collected P))
  | s, [] => some (s, [])
  | s, .record value attrs :: ops => (s.record agg value attrs).bind fun s' => run agg s' ops
  | s, .collect temporality :: ops =>
      let (data, s') := s.collect temporality
      (run agg s' ops).map fun (last, more) => (last, data :: more)

/-- The measurements of a run with their attribute sets. -/
def measurements : List (StorageOp V) → List (AttributeSet × V)
  | [] => []
  | .record (.finite v) attrs :: ops => (.ofSpan attrs, v) :: measurements ops
  | .record .nonFinite _ :: ops => measurements ops
  | .collect _ :: ops => measurements ops

/-- The same run without its collections. -/
def recordsOnly (ops : List (StorageOp V)) : List (StorageOp V) :=
  ops.filter fun
    | .record _ _ => true
    | .collect _ => false

/-- What each collection covers: the measurements since the last delta collection. -/
def covered : List (AttributeSet × V) → List (StorageOp V) →
    List (AggregationTemporality × List (AttributeSet × V))
  | _, [] => []
  | since, .record (.finite v) attrs :: ops => covered (since ++ [(.ofSpan attrs, v)]) ops
  | since, .record .nonFinite _ :: ops => covered since ops
  | since, .collect .cumulative :: ops => (.cumulative, since) :: covered since ops
  | since, .collect .delta :: ops => (.delta, since) :: covered [] ops

/-- The measurements between two clears, the last of them up to now. -/
def segments : List (AttributeSet × V) → List (StorageOp V) → List (List (AttributeSet × V))
  | since, [] => [since]
  | since, .record (.finite v) attrs :: ops => segments (since ++ [(.ofSpan attrs, v)]) ops
  | since, .record .nonFinite _ :: ops => segments since ops
  | since, .collect .cumulative :: ops => segments since ops
  | since, .collect .delta :: ops => since :: segments [] ops

end Microtel.Metrics
