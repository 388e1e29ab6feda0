import Microtel.Metrics.PointTotals

/-!
Views and the synchronous sum instruments (`src/sdk/view_registry.cpp`,
`src/sdk/sdk_meter.cpp`): which streams an instrument feeds, under which names, and
with which of its attributes.
-/

namespace Microtel.Metrics

inductive InstrumentKind
  | counter | upDownCounter | gauge | histogram | exponentialHistogram
  | observableCounter | observableUpDownCounter | observableGauge
  deriving DecidableEq, Repr

structure InstrumentSelector where
  name : Option Bytes := none
  kind : Option InstrumentKind := none
  meterName : Option Bytes := none
  deriving DecidableEq, Repr

structure ViewTransform where
  name : Option Bytes := none
  attributeAllowlist : Option (List Bytes) := none
  drop : Bool := false
  deriving DecidableEq, Repr

structure ViewConfig where
  selector : InstrumentSelector := {}
  transform : ViewTransform := {}
  deriving DecidableEq, Repr

structure InstrumentDescriptor where
  name : Bytes
  kind : InstrumentKind
  meterName : Bytes
  deriving DecidableEq, Repr

/-! ### Selection -/

/-- `'*'`. -/
def wildcard : UInt8 := 42

def matchesName (pattern : Option Bytes) (name : Bytes) : Bool :=
  match pattern with
  | none => true
  | some p => if p.getLast? = some wildcard then p.dropLast.isPrefixOf name else name == p

/-- The three tests of `ViewRegistry::Match` on one view. -/
def selects (sel : InstrumentSelector) (desc : InstrumentDescriptor) : Bool :=
  matchesName sel.name desc.name &&
    (match sel.kind with
      | none => true
      | some kind => kind == desc.kind) &&
    match sel.meterName with
      | none => true
      | some meterName => meterName == desc.meterName

def matchViews (views : List ViewConfig) (desc : InstrumentDescriptor) : List ViewConfig :=
  views.filter fun view => selects view.selector desc

structure StreamSpec where
  name : Bytes
  allowlist : Option Allowlist
  deriving DecidableEq, Repr

/-- The loop of `ResolveStreamSpecs` over the matching views. -/
def resolveMatches (instrumentName : Bytes) : List ViewConfig → List StreamSpec
  | [] => []
  | view :: views =>
      if view.transform.drop then resolveMatches instrumentName views
      else
        { name := view.transform.name.getD instrumentName
          allowlist := view.transform.attributeAllowlist.map sortAllowlist } ::
          resolveMatches instrumentName views

def resolveStreamSpecs (instrumentName : Bytes) (registry : Option (List ViewConfig))
    (desc : InstrumentDescriptor) : List StreamSpec :=
  match registry with
  | none => [{ name := instrumentName, allowlist := none }]
  | some views =>
      match matchViews views desc with
      | [] => [{ name := instrumentName, allowlist := none }]
      | found => resolveMatches instrumentName found

/-! ### Sum instruments -/

structure SumData (V : Type) where
  temporality : AggregationTemporality
  isMonotonic : Bool
  points : List (AttributeSet × V)
  deriving DecidableEq, Repr

structure MetricRecord (V : Type) where
  name : Bytes
  description : Bytes
  unit : Bytes
  data : SumData V
  deriving DecidableEq, Repr

structure MetricStreamSum where
  name : Bytes
  description : Bytes
  unit : Bytes
  monotonic : Bool
  storage : Storage Int
  deriving DecidableEq, Repr

def MetricStreamSum.collect (stream : MetricStreamSum) (temporality : AggregationTemporality) :
    MetricRecord Int × MetricStreamSum :=
  let (collected, storage) := stream.storage.collect temporality
  ({ name := stream.name
     description := stream.description
     unit := stream.unit
     data := {
       temporality := collected.temporality
       isMonotonic := stream.monotonic
       points := collected.points } },
    { stream with storage })

/-- A stream and the sorted allowlist of its view. -/
structure StorageSlot where
  stream : MetricStreamSum
  allowlist : Option Allowlist
  deriving DecidableEq, Repr

/-- What a meter gives its instruments. -/
structure MeterConfig where
  meterName : Bytes
  registry : Option (List ViewConfig) := none
  maxCardinality : Nat := 2000
  diag : Option MetricDrops := none
  deriving DecidableEq, Repr

/-- `DoCreateCounterI64` and `DoCreateUpDownCounterI64`: one stream per spec. -/
def createSum (kind : InstrumentKind) (monotonic : Bool) (meter : MeterConfig)
    (name description unit : Bytes) : List StorageSlot :=
  (resolveStreamSpecs name meter.registry
    { name, kind, meterName := meter.meterName }).map fun spec =>
      { stream := {
          name := spec.name
          description
          unit
          monotonic
          storage := { maxCardinality := meter.maxCardinality, diag := meter.diag } }
        allowlist := spec.allowlist }

def createCounter := createSum .counter true

def createUpDownCounter := createSum .upDownCounter false

/-- The attributes a slot passes on; `FilterAttrs` clears the shared buffer first. -/
def passedAttrs (allowlist : Option Allowlist) (attrs : List KeyValue) : List KeyValue :=
  match allowlist with
  | none => attrs
  | some allowlist => filterAttrs attrs allowlist

/-- `InstrumentSlots::ForEach` with the `Add` of one value. -/
def addToSlots (value : Int) (attrs : List KeyValue) : List StorageSlot → Option (List StorageSlot)
  | [] => some []
  | slot :: slots =>
      (SumStorage.add slot.stream.storage (.finite value)
        (passedAttrs slot.allowlist attrs)).bind fun storage =>
          (addToSlots value attrs slots).map fun slots =>
            { slot with stream := { slot.stream with storage } } :: slots

/-- The collection of the streams of one instrument. -/
def collectSlots (slots : List StorageSlot) (temporality : AggregationTemporality) :
    List (MetricRecord Int) × List StorageSlot :=
  (slots.map fun slot => (slot.stream.collect temporality).1,
    slots.map fun slot => { slot with stream := (slot.stream.collect temporality).2 })

inductive InstrumentOp
  | add (value : Int) (attrs : List KeyValue)
  | collect (temporality : AggregationTemporality)
  deriving DecidableEq, Repr

/-- Calls of `Add` and collections, with what each collection reported. -/
def runSum : List StorageSlot → List InstrumentOp →
    Option (List StorageSlot × List (List (MetricRecord Int)))
  | slots, [] => some (slots, [])
  | slots, .add value attrs :: ops => (addToSlots value attrs slots).bind fun slots =>
      runSum slots ops
  | slots, .collect temporality :: ops =>
      let (records, slots) := collectSlots slots temporality
      (runSum slots ops).map fun (last, more) => (last, records :: more)

/-! ### What selection means -/

/-- All given fields match; a name that ends in `*` stands for every name that begins
with the rest of it. -/
structure Selected (sel : InstrumentSelector) (desc : InstrumentDescriptor) : Prop where
  name : ∀ p, sel.name = some p →
    (∃ stem, p = stem ++ [wildcard] ∧ stem <+: desc.name) ∨
      (∀ stem, p ≠ stem ++ [wildcard]) ∧ p = desc.name
  kind : ∀ kind, sel.kind = some kind → kind = desc.kind
  meterName : ∀ meterName, sel.meterName = some meterName → meterName = desc.meterName

theorem matchesName_iff (pattern : Option Bytes) (name : Bytes) :
    matchesName pattern name = true ↔ ∀ p, pattern = some p →
      (∃ stem, p = stem ++ [wildcard] ∧ stem <+: name) ∨
        (∀ stem, p ≠ stem ++ [wildcard]) ∧ p = name := by
  cases pattern with
  | none => simp [matchesName]
  | some p =>
      have hlast : p.getLast? = some wildcard ↔ ∃ stem, p = stem ++ [wildcard] := by
        rw [List.getLast?_eq_some_iff]
      simp only [Option.some.injEq, forall_eq', matchesName]
      split
      · next hp =>
        obtain ⟨stem, rfl⟩ := hlast.mp hp
        rw [List.dropLast_concat, List.isPrefixOf_iff_prefix]
        constructor
        · exact fun h => .inl ⟨stem, rfl, h⟩
        · rintro (⟨stem', heq, h⟩ | ⟨hnone, -⟩)
          · rwa [List.append_cancel_right heq]
          · exact absurd rfl (hnone stem)
      · next hp =>
        have hnone : ∀ stem, p ≠ stem ++ [wildcard] := fun stem heq => hp (hlast.mpr ⟨stem, heq⟩)
        rw [beq_iff_eq]
        constructor
        · exact fun h => .inr ⟨hnone, h.symm⟩
        · rintro (⟨stem, heq, -⟩ | ⟨-, h⟩)
          · exact absurd heq (hnone stem)
          · exact h.symm

theorem selects_iff (sel : InstrumentSelector) (desc : InstrumentDescriptor) :
    selects sel desc = true ↔ Selected sel desc := by
  have hkind : (match sel.kind with
      | none => true
      | some kind => kind == desc.kind) = true ↔ ∀ kind, sel.kind = some kind →
          kind = desc.kind := by
    cases sel.kind <;> simp
  have hmeter : (match sel.meterName with
      | none => true
      | some meterName => meterName == desc.meterName) = true ↔
      ∀ meterName, sel.meterName = some meterName → meterName = desc.meterName := by
    cases sel.meterName <;> simp
  unfold selects
  rw [Bool.and_eq_true, Bool.and_eq_true, matchesName_iff, hkind, hmeter]
  constructor
  · rintro ⟨⟨hname, hk⟩, hm⟩
    exact ⟨hname, hk, hm⟩
  · intro S
    exact ⟨⟨S.name, S.kind⟩, S.meterName⟩

/-- The streams an instrument should feed: a name and the keys to keep. -/
def wantedStreams (name : Bytes) (registry : Option (List ViewConfig))
    (desc : InstrumentDescriptor) : List (Bytes × Option (List Bytes)) :=
  let found := (registry.getD []).filter fun view => selects view.selector desc
  if found = [] then [(name, none)]
  else (found.filter fun view => !view.transform.drop).map fun view =>
    (view.transform.name.getD name, view.transform.attributeAllowlist)

/-- The spec of a wanted stream. -/
def specOf (want : Bytes × Option (List Bytes)) : StreamSpec :=
  { name := want.1, allowlist := want.2.map sortAllowlist }

theorem resolveMatches_eq (name : Bytes) (views : List ViewConfig) :
    resolveMatches name views =
      ((views.filter fun view => !view.transform.drop).map fun view =>
        (view.transform.name.getD name, view.transform.attributeAllowlist)).map specOf := by
  induction views with
  | nil => rfl
  | cons view views ih =>
      rw [resolveMatches]
      cases hdrop : view.transform.drop with
      | true => simp [hdrop, ih]
      | false => simp [hdrop, ih, specOf]

theorem resolveStreamSpecs_eq (name : Bytes) (registry : Option (List ViewConfig))
    (desc : InstrumentDescriptor) :
    resolveStreamSpecs name registry desc = (wantedStreams name registry desc).map specOf := by
  unfold resolveStreamSpecs wantedStreams
  cases registry with
  | none => rfl
  | some views =>
      dsimp only [Option.getD_some, matchViews]
      cases hfound : views.filter fun view => selects view.selector desc with
      | nil => rfl
      | cons view found =>
          rw [if_neg (by simp)]
          exact resolveMatches_eq name (view :: found)

/-! ### Runs of an instrument -/

section Runs

open CappedMap

/-- The sums of measurements, set by set. -/
def summed {V : Type} [Zero V] [Add V] (cap : Nat) (ms : List (AttributeSet × V)) :
    List (AttributeSet × V) :=
  (fill attributeKeys cap ms).map fun e => (e.1, e.2.sum)

/-- An `Add` call. -/
abbrev Addition := Int × List KeyValue

/-- What a stream with an allowlist gets of a history of calls. -/
def received {V : Type} (allowlist : Option Allowlist) (history : List (V × List KeyValue)) :
    List (AttributeSet × V) :=
  history.map fun m => (.ofSpan (passedAttrs allowlist m.2), m.1)

/-- A slot that has got every measurement of a history once. -/
structure Fed (monotonic : Bool) (cap : Nat) (history : List Addition) (spec : StreamSpec)
    (slot : StorageSlot) : Prop where
  name : slot.stream.name = spec.name
  monotonic : slot.stream.monotonic = monotonic
  allowlist : slot.allowlist = spec.allowlist
  holds : Holds SumStorage.aggregation cap (received spec.allowlist history) slot.stream.storage

/-- A record of a stream that has got every measurement of a history once. -/
structure Reports (monotonic : Bool) (cap : Nat) (history : List Addition) (spec : StreamSpec)
    (record : MetricRecord Int) : Prop where
  name : record.name = spec.name
  monotonic : record.data.isMonotonic = monotonic
  points : record.data.points = summed cap (received spec.allowlist history)

theorem image_sum (m : List (AttributeSet × List Int)) :
    image (SumStorage.aggregation (V := Int)).new SumStorage.aggregation.update m =
      some (m.map fun e => (e.1, e.2.sum)) := by
  induction m with
  | nil => rfl
  | cons e m ih =>
      refine image_cons.mpr ⟨_, _, ?_, ih, rfl⟩
      have hfold : e.2.foldlM SumStorage.aggregation.update
          (SumStorage.aggregation (V := Int)).new =
          some (e.2.foldl (· + ·) 0) := List.foldlM_pure
      rw [hfold, List.sum_eq_foldl]

theorem Fed.points {monotonic : Bool} {cap : Nat} {history : List Addition} {spec : StreamSpec}
    {slot : StorageSlot} (F : Fed monotonic cap history spec slot) :
    slot.stream.storage.points = summed cap (received spec.allowlist history) := by
  have hpoints := F.holds.points
  rw [image_sum] at hpoints
  exact (Option.some.inj hpoints).symm

theorem createSum_fed (kind : InstrumentKind) (monotonic : Bool) (meter : MeterConfig)
    (name description unit : Bytes) :
    List.Forall₂ (Fed monotonic meter.maxCardinality [])
      ((wantedStreams name meter.registry { name, kind, meterName := meter.meterName }).map specOf)
      (createSum kind monotonic meter name description unit) := by
  unfold createSum
  rw [resolveStreamSpecs_eq, List.forall₂_map_right_iff, List.forall₂_same]
  intro spec _
  exact ⟨rfl, rfl, rfl, Holds.empty _ _⟩

variable {monotonic : Bool} {cap : Nat} {history : List Addition} {specs : List StreamSpec}
  {slots : List StorageSlot}

/-- One `Add` reaches every slot once. -/
theorem addToSlots_fed (F : List.Forall₂ (Fed monotonic cap history) specs slots) (value : Int)
    (attrs : List KeyValue) :
    ∃ slots', addToSlots value attrs slots = some slots' ∧
      List.Forall₂ (Fed monotonic cap (history ++ [(value, attrs)])) specs slots' := by
  induction F with
  | nil => exact ⟨[], rfl, .nil⟩
  | @cons spec slot specs slots F _ ih =>
      obtain ⟨slots', hslots, hrest⟩ := ih
      obtain ⟨storage, hstorage⟩ := F.holds.record_returns (fun _ => ⟨_, List.foldlM_pure⟩) value
        (passedAttrs slot.allowlist attrs)
      refine ⟨{ slot with stream := { slot.stream with storage } } :: slots', ?_, .cons ?_ hrest⟩
      · rw [addToSlots, SumStorage.add, hstorage, hslots]
        rfl
      · refine ⟨F.name, F.monotonic, F.allowlist, ?_⟩
        have hholds := F.holds.record hstorage
        rw [F.allowlist] at hholds
        unfold received at hholds ⊢
        rw [List.map_append]
        exact hholds

theorem collectSlots_fed (F : List.Forall₂ (Fed monotonic cap history) specs slots) :
    collectSlots slots .cumulative = ((collectSlots slots .cumulative).1, slots) ∧
      List.Forall₂ (Reports monotonic cap history) specs (collectSlots slots .cumulative).1 := by
  constructor
  · unfold collectSlots
    congr 1
    exact List.map_id slots
  · unfold collectSlots
    rw [List.forall₂_map_right_iff]
    exact F.imp fun spec slot F => ⟨F.name, F.monotonic, F.points⟩

/-- The additions of a run. -/
def additions : List InstrumentOp → List Addition
  | [] => []
  | .add value attrs :: ops => (value, attrs) :: additions ops
  | .collect _ :: ops => additions ops

/-- The additions before each collection. -/
def collectedAt : List Addition → List InstrumentOp → List (List Addition)
  | _, [] => []
  | history, .add value attrs :: ops => collectedAt (history ++ [(value, attrs)]) ops
  | history, .collect _ :: ops => history :: collectedAt history ops

/-- A run with cumulative collections returns, and each collection reports every stream
with all that was added before. -/
theorem runSum_fed (F : List.Forall₂ (Fed monotonic cap history) specs slots)
    (ops : List InstrumentOp) (hcumulative : .collect .delta ∉ ops) :
    ∃ slots' out, runSum slots ops = some (slots', out) ∧
      List.Forall₂ (Fed monotonic cap (history ++ additions ops)) specs slots' ∧
      List.Forall₂ (fun history records =>
        List.Forall₂ (Reports monotonic cap history) specs records)
        (collectedAt history ops) out := by
  induction ops generalizing history slots with
  | nil => exact ⟨slots, [], rfl, by rw [additions, List.append_nil]; exact F, .nil⟩
  | cons op ops ih =>
      rw [List.mem_cons, not_or] at hcumulative
      cases op with
      | add value attrs =>
          obtain ⟨slots₁, hadd, F₁⟩ := addToSlots_fed F value attrs
          obtain ⟨slots', out, hrun, F', R⟩ := ih F₁ hcumulative.2
          refine ⟨slots', out, ?_, ?_, R⟩
          · rw [runSum, hadd]
            exact hrun
          · rw [List.append_assoc] at F'
            exact F'
      | collect temporality =>
          cases temporality with
          | delta => exact absurd rfl hcumulative.1
          | cumulative =>
              obtain ⟨hcollect, R₁⟩ := collectSlots_fed F
              obtain ⟨slots', out, hrun, F', R⟩ := ih F hcumulative.2
              refine ⟨slots', (collectSlots slots .cumulative).1 :: out, ?_, F', .cons R₁ R⟩
              rw [runSum, hcollect]
              dsimp only
              rw [hrun]
              rfl

/-! ### Sums through views -/

/-- The attributes a stream keeps. -/
def kept : Option (List Bytes) → AttributeSet → AttributeSet
  | none, set => set
  | some allowlist, set => set.restrict allowlist

/-- The measurements of a history, under the attributes a stream keeps. -/
def keptMeasurements (allowlist : Option (List Bytes)) (history : List Addition) :
    List (AttributeSet × Int) :=
  history.map fun m => (kept allowlist (.ofSpan m.2), m.1)

/-- The sum of the points of the sets with a property. -/
def sumOf {V : Type} [Zero V] [Add V] (q : AttributeSet → Bool) (points : List (AttributeSet × V)) :
    V :=
  ((points.filter fun e => q e.1).map Prod.snd).sum

theorem received_sorted {history : List Addition}
    (hnodup : ∀ m ∈ history, (m.2.map KeyValue.key).Nodup) (allowlist : Option (List Bytes)) :
    received (allowlist.map sortAllowlist) history = keptMeasurements allowlist history := by
  refine List.map_congr_left ?_
  intro m hm
  cases allowlist with
  | none => rfl
  | some allowlist =>
      have hset := ofSpan_filter (hnodup m hm) allowlist
      simp only [Option.map_some, passedAttrs, filterAttrs_sortAllowlist, hset, kept]

theorem kept_respects (allowlist : Option (List Bytes)) {q : AttributeSet → Bool}
    (hq : attributeKeys.Respects q) : attributeKeys.Respects fun k => q (kept allowlist k) := by
  intro k k' hsame
  cases allowlist with
  | none => exact hq k k' hsame
  | some allowlist => exact hq _ _ (equal_restrict allowlist hsame)

/-- The points hold every value, each under its own set unless it was folded. -/
theorem sumOf_summed {V : Type} [AddCommMonoid V] {q : AttributeSet → Bool}
    (hq : attributeKeys.Respects q) {ms : List (AttributeSet × V)}
    (h : folded attributeKeys cap ms = 0 ∨ q = fun _ => true) :
    sumOf q (summed cap ms) = ((ms.filter fun e => q e.1).map Prod.snd).sum := by
  rw [← (valuesOf_fill hq h).sum_eq]
  unfold sumOf summed valuesOf
  rw [List.filter_map, List.map_map, List.flatMap_def, List.sum_flatten, List.map_map]
  rfl

theorem total_summed {V : Type} [AddCommMonoid V] (ms : List (AttributeSet × V)) :
    ((summed cap ms).map Prod.snd).sum = (ms.map Prod.snd).sum := by
  have hall : attributeKeys.Respects fun _ => true := fun _ _ _ => rfl
  have htotal := @sumOf_summed cap V _ _ hall ms (.inr rfl)
  unfold sumOf at htotal
  rwa [List.filter_eq_self.mpr fun _ _ => rfl, List.filter_eq_self.mpr fun _ _ => rfl] at htotal

/-- The points of a stream hold every value, whatever the stream drops of the attributes. -/
theorem total_received {V : Type} [AddCommMonoid V] (allowlist : Option Allowlist)
    (history : List (V × List KeyValue)) :
    ((summed cap (received allowlist history)).map Prod.snd).sum = (history.map Prod.fst).sum := by
  rw [total_summed, received, List.map_map]
  rfl

/-- What a stream of an instrument shows of a history. -/
structure PreservesSums (cap : Nat) (history : List Addition) (want : Bytes × Option (List Bytes))
    (slot : StorageSlot) : Prop where
  name : slot.stream.name = want.1
  /-- Every measurement is added once. -/
  points : slot.stream.storage.points = summed cap (keptMeasurements want.2 history)
  one : ∀ a, (slot.stream.storage.points.filter fun e => attributeKeys.same a e.1).length ≤ 1
  total : (slot.stream.storage.points.map Prod.snd).sum = (history.map Prod.fst).sum
  /-- While nothing is folded, a point is the sum of the unfiltered points that become it. -/
  filtered : folded attributeKeys cap (keptMeasurements none history) = 0 →
    folded attributeKeys cap (keptMeasurements want.2 history) = 0 →
    ∀ a, sumOf (attributeKeys.same a) slot.stream.storage.points =
      sumOf (fun k => attributeKeys.same a (kept want.2 k))
        (summed cap (keptMeasurements none history))

theorem Fed.preservesSums {want : Bytes × Option (List Bytes)} {slot : StorageSlot}
    (hnodup : ∀ m ∈ history, (m.2.map KeyValue.key).Nodup)
    (F : Fed monotonic cap history (specOf want) slot) :
    PreservesSums cap history want slot := by
  have hpoints : slot.stream.storage.points = summed cap (keptMeasurements want.2 history) := by
    rw [F.points]
    exact congrArg (summed cap) (received_sorted hnodup want.2)
  refine ⟨F.name, hpoints, ?_, ?_, ?_⟩
  · intro a
    have hone := length_pointValues_le cap a (keptMeasurements want.2 history)
    unfold pointValues at hone
    rw [List.length_map] at hone
    rw [hpoints, summed, List.filter_map, List.length_map]
    exact hone
  · rw [F.points]
    exact total_received _ history
  · intro hunfiltered hfiltered a
    have hsame := attributeKeys.respects_same a
    rw [hpoints, sumOf_summed hsame (.inl hfiltered),
      sumOf_summed (kept_respects want.2 hsame) (.inl hunfiltered)]
    unfold keptMeasurements
    rw [List.filter_map, List.filter_map, List.map_map, List.map_map]
    rfl

theorem additions_map (history : List Addition) :
    additions (history.map fun m => .add m.1 m.2) = history := by
  induction history with
  | nil => rfl
  | cons m history ih => exact congrArg (m :: ·) ih

theorem collectedAt_map (before history : List Addition) :
    collectedAt before (history.map fun m => .add m.1 m.2) = [] := by
  induction history generalizing before with
  | nil => rfl
  | cons m history ih => exact ih _

/-- A counter feeds one stream for each matching view that does not drop it, each with
every measurement, and no sum is lost to a view. -/
theorem views_preserve_sums (kind : InstrumentKind) (monotonic : Bool) (meter : MeterConfig)
    (name description unit : Bytes) (history : List Addition)
    (hnodup : ∀ m ∈ history, (m.2.map KeyValue.key).Nodup) :
    (∀ sel desc, selects sel desc = true ↔ Selected sel desc) ∧
    ∃ slots, runSum (createSum kind monotonic meter name description unit)
        (history.map fun m => .add m.1 m.2) = some (slots, []) ∧
      List.Forall₂ (PreservesSums meter.maxCardinality history)
        (wantedStreams name meter.registry { name, kind, meterName := meter.meterName }) slots := by
  refine ⟨selects_iff, ?_⟩
  obtain ⟨slots, out, hrun, F, R⟩ :=
    runSum_fed (createSum_fed kind monotonic meter name description unit)
      (history.map fun m => .add m.1 m.2) (by simp)
  rw [collectedAt_map] at R
  cases R
  refine ⟨slots, hrun, ?_⟩
  rw [List.nil_append, additions_map, List.forall₂_map_left_iff] at F
  exact F.imp fun want slot F => F.preservesSums hnodup

/-- A view that keeps one key and a view that drops: one stream, with both values. -/
theorem views_preserve_sums_two :
    ∃ slots, runSum (createCounter
        { meterName := [109]
          registry := some [
            { selector := { name := some [114, wildcard] }
              transform := { name := some [118], attributeAllowlist := some [[1]] } },
            { transform := { drop := true } },
            { selector := { kind := some .gauge } }] } [114, 120] [] [])
        [.add 1 (flag 1 ++ flag 2), .add 2 (flag 1)] = some (slots, []) ∧
      slots.map (fun slot => (slot.stream.name, (slot.stream.storage.points.map Prod.snd).sum)) =
        [([118], 3)] := by
  have hnodup : ∀ m ∈ ([(1, flag 1 ++ flag 2), (2, flag 1)] : List Addition),
      (m.2.map KeyValue.key).Nodup := by decide
  obtain ⟨-, slots, hrun, hstreams⟩ := views_preserve_sums .counter true
    { meterName := [109]
      registry := some [
        { selector := { name := some [114, wildcard] }
          transform := { name := some [118], attributeAllowlist := some [[1]] } },
        { transform := { drop := true } },
        { selector := { kind := some .gauge } }] } [114, 120] [] [] _ hnodup
  refine ⟨slots, hrun, ?_⟩
  obtain ⟨slot, rest, S, hrest, rfl⟩ := List.forall₂_cons_left_iff.mp hstreams
  cases hrest
  rw [List.map_singleton, S.name, S.total]
  rfl

end Runs

end Microtel.Metrics
