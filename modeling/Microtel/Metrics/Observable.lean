import Microtel.Metrics.Views

/-!
Observable sums (`src/sdk/metric_observable_instruments.hpp` and the adapter in
`src/sdk/sdk_meter.cpp`). A collection runs the callback of the stream; what a callback
observes is the list of its `Observe` calls.
-/

namespace Microtel.Metrics

open CappedMap

/-- An `Observe` call. -/
abbrev Observation (V : Type) := V × List KeyValue

namespace ObservableResult

variable {V : Type} [Zero V]

/-- The last call wins. The lookup and the folding are those of a gauge, but there is no
test for finite values. -/
def observe (result : Storage V) (value : V) (attrs : List KeyValue) : Option (Storage V) :=
  result.record GaugeStorage.aggregation (.finite value) attrs

omit [Zero V] in
def clear (result : Storage V) : Storage V := { result with points := [] }

end ObservableResult

structure MetricStreamObservableSum (V : Type) where
  name : Bytes
  description : Bytes
  unit : Bytes
  monotonic : Bool
  allowlist : Option Allowlist
  result : Storage V
  deriving DecidableEq, Repr

/-- `AddObservableSums`: one stream per spec. -/
def addObservableSums (V : Type) (meter : MeterConfig) (description unit : Bytes)
    (specs : List StreamSpec) (monotonic : Bool) : List (MetricStreamObservableSum V) :=
  specs.map fun spec =>
    { name := spec.name
      description
      unit
      monotonic
      allowlist := spec.allowlist
      result := { maxCardinality := meter.maxCardinality, diag := meter.diag } }

def registerObservable (V : Type) (kind : InstrumentKind) (meter : MeterConfig)
    (name description unit : Bytes) : List (MetricStreamObservableSum V) :=
  addObservableSums V meter description unit
    (resolveStreamSpecs name meter.registry { name, kind, meterName := meter.meterName })
    (kind == .observableCounter)

namespace MetricStreamObservableSum

variable {V : Type} [Zero V]

/-- A callback through the adapter that filters the attributes. -/
def runCallback (stream : MetricStreamObservableSum V) (observations : List (Observation V)) :
    Option (Storage V) :=
  observations.foldlM (fun result o =>
    ObservableResult.observe result o.1 (passedAttrs stream.allowlist o.2))
    (ObservableResult.clear stream.result)

def collect (stream : MetricStreamObservableSum V) (temporality : AggregationTemporality)
    (observations : List (Observation V)) :
    Option (MetricRecord V × MetricStreamObservableSum V) :=
  (stream.runCallback observations).map fun result =>
    ({ name := stream.name
       description := stream.description
       unit := stream.unit
       data := { temporality, isMonotonic := stream.monotonic, points := result.points } },
      { stream with result })

/-- A sequence of collections, with what the callback observed in each. -/
def run (temporality : AggregationTemporality) :
    MetricStreamObservableSum V → List (List (Observation V)) → Option (List (MetricRecord V))
  | _, [] => some []
  | stream, observations :: callbacks =>
      (stream.collect temporality observations).bind fun (record, stream) =>
        (run temporality stream callbacks).map (record :: ·)

end MetricStreamObservableSum

/-! ### What should be reported -/

section

variable {V : Type} [AddCommGroup V]

/-- A callback that observes no set twice; of two calls for one set the last is meant to win. -/
def DistinctSets (observations : List (Observation V)) : Prop :=
  (observations.map fun o => AttributeSet.ofSpan o.2).Pairwise
    fun a b => attributeKeys.same a b = false

/-- The values observed in the series of a set, in one collection. -/
def seriesOf (cap : Nat) (allowlist : Option Allowlist) (observations : List (Observation V))
    (a : AttributeSet) : List V :=
  (find attributeKeys (fill attributeKeys cap (received allowlist observations)) a).getD []

/-- The point of a set, 0 if there is none. -/
def pointAt (a : AttributeSet) (record : MetricRecord V) : V :=
  sumOf (attributeKeys.same a) record.data.points

def Reported (a : AttributeSet) (record : MetricRecord V) : Prop :=
  attributeKeys.has (record.data.points.map Prod.fst) a = true

/-- Under cumulative temporality the points of a collection are, series by series, the sums
of the values observed in it: the values themselves, without an allowlist and with room for
all of them. Under delta temporality the points of a set that was reported from the first
collection on add up to what was last observed for it. -/
structure ReportsObserved (temporality : AggregationTemporality) (cap : Nat)
    (allowlist : Option Allowlist) (callbacks : List (List (Observation V)))
    (out : List (MetricRecord V)) : Prop where
  cumulative : temporality = .cumulative →
    List.Forall₂ (fun observations record => DistinctSets observations →
      record.data.points = summed cap (received allowlist observations) ∧
        (record.data.points.map Prod.snd).sum = (observations.map Prod.fst).sum) callbacks out
  values : temporality = .cumulative → allowlist = none →
    List.Forall₂ (fun observations record => DistinctSets observations →
      observations.length ≤ cap →
        record.data.points = observations.map fun o => (.ofSpan o.2, o.1)) callbacks out
  delta : temporality = .delta → ∀ before now after, callbacks = before ++ now :: after →
    DistinctSets now → ∀ a,
    (∀ record ∈ out.take (before.length + 1), Reported a record) →
    ((out.take (before.length + 1)).map (pointAt a)).sum = (seriesOf cap allowlist now a).sum

/-- What the observations have to be for that: under cumulative temporality the values that
are overwritten in a series add up to zero; under delta temporality the earlier values of a
set add up to what is overwritten in the last collection. -/
structure OverwritesNothing (temporality : AggregationTemporality) (cap : Nat)
    (allowlist : Option Allowlist) (callbacks : List (List (Observation V))) : Prop where
  cumulative : temporality = .cumulative → ∀ observations ∈ callbacks, DistinctSets observations →
    ∀ e ∈ fill attributeKeys cap (received allowlist observations), e.2.dropLast.sum = 0
  delta : temporality = .delta → ∀ before now after, callbacks = before ++ now :: after →
    DistinctSets now → ∀ a,
    (∀ observations ∈ before ++ [now], seriesOf cap allowlist observations a ≠ []) →
    (before.map fun observations => (seriesOf cap allowlist observations a).getLastD 0).sum =
      (seriesOf cap allowlist now a).dropLast.sum

end

/-! ### One collection -/

section

variable {V : Type} [AddCommGroup V] {cap : Nat} {allowlist : Option Allowlist}

omit [AddCommGroup V] in
theorem foldl_last (values : List V) (init : V) :
    values.foldl (fun _ value => value) init = values.getLastD init := by
  induction values generalizing init with
  | nil => rfl
  | cons v values ih =>
      rw [List.foldl_cons, ih]
      cases values <;> rfl

theorem image_last (m : List (AttributeSet × List V)) :
    image (GaugeStorage.aggregation (V := V)).new GaugeStorage.aggregation.update m =
      some (m.map fun e => (e.1, e.2.getLastD 0)) := by
  induction m with
  | nil => rfl
  | cons e m ih =>
      refine image_cons.mpr ⟨_, _, ?_, ih, rfl⟩
      have hfold : e.2.foldlM GaugeStorage.aggregation.update
          (GaugeStorage.aggregation (V := V)).new =
          some (e.2.foldl (fun _ value => value) 0) := List.foldlM_pure
      rw [hfold, foldl_last]

/-- The points after a callback: the last value of each series. -/
def lastValues (cap : Nat) (allowlist : Option Allowlist) (observations : List (Observation V)) :
    List (AttributeSet × V) :=
  (fill attributeKeys cap (received allowlist observations)).map fun e => (e.1, e.2.getLastD 0)

theorem Holds.observe {since : List (AttributeSet × V)} {result : Storage V}
    (H : Holds GaugeStorage.aggregation cap since result) (observations : List (Observation V)) :
    ∃ result', observations.foldlM (fun result o =>
        ObservableResult.observe result o.1 (passedAttrs allowlist o.2)) result = some result' ∧
      Holds GaugeStorage.aggregation cap (since ++ received allowlist observations) result' := by
  induction observations generalizing since result with
  | nil => exact ⟨result, rfl, by rw [received, List.map_nil, List.append_nil]; exact H⟩
  | cons o observations ih =>
      obtain ⟨result₁, hobserve⟩ := H.record_returns (fun _ => ⟨_, List.foldlM_pure⟩) o.1
        (passedAttrs allowlist o.2)
      obtain ⟨result', hrest, H'⟩ := ih (H.record hobserve)
      refine ⟨result', ?_, ?_⟩
      · rw [List.foldlM_cons, ObservableResult.observe, hobserve]
        exact hrest
      · rw [List.append_assoc] at H'
        exact H'

theorem collect_spec {stream : MetricStreamObservableSum V}
    (hcap : stream.result.maxCardinality = cap) (hallow : stream.allowlist = allowlist)
    (temporality : AggregationTemporality) (observations : List (Observation V)) :
    ∃ record stream', stream.collect temporality observations = some (record, stream') ∧
      record.data.points = lastValues cap allowlist observations ∧
      stream'.result.maxCardinality = cap ∧ stream'.allowlist = allowlist := by
  have hclear : Holds GaugeStorage.aggregation cap [] (ObservableResult.clear stream.result) :=
    ⟨hcap, rfl⟩
  obtain ⟨result, hresult, H⟩ := @Holds.observe V _ cap allowlist _ _ hclear observations
  have hpoints := H.points
  rw [List.nil_append, image_last] at hpoints
  have hlast : result.points = lastValues cap allowlist observations :=
    (Option.some.inj hpoints).symm
  refine ⟨{
    name := stream.name
    description := stream.description
    unit := stream.unit
    data := { temporality, isMonotonic := stream.monotonic, points := result.points } },
    { stream with result }, ?_, hlast, H.limit, hallow⟩
  unfold MetricStreamObservableSum.collect MetricStreamObservableSum.runCallback
  rw [hallow, hresult]
  rfl

theorem run_spec {stream : MetricStreamObservableSum V}
    (hcap : stream.result.maxCardinality = cap) (hallow : stream.allowlist = allowlist)
    (temporality : AggregationTemporality) (callbacks : List (List (Observation V))) :
    ∃ out, stream.run temporality callbacks = some out ∧
      out.map (fun record => record.data.points) = callbacks.map (lastValues cap allowlist) := by
  induction callbacks generalizing stream with
  | nil => exact ⟨[], rfl, rfl⟩
  | cons observations callbacks ih =>
      obtain ⟨record, stream', hcollect, hpoints, hcap', hallow'⟩ :=
        collect_spec hcap hallow temporality observations
      obtain ⟨out, hout, hrest⟩ := ih hcap' hallow'
      refine ⟨record :: out, ?_, ?_⟩
      · rw [MetricStreamObservableSum.run, hcollect]
        simp only [Option.bind_some, hout, Option.map_some]
      · rw [List.map_cons, List.map_cons, hpoints, hrest]

/-! ### The condition -/

theorem sum_eq_dropLast_add {values : List V} (hne : values ≠ []) :
    values.sum = values.dropLast.sum + values.getLastD 0 := by
  obtain ⟨before, last, rfl⟩ : ∃ before last, values = before ++ [last] :=
    ⟨values.dropLast, values.getLast hne, (List.dropLast_append_getLast hne).symm⟩
  rw [List.getLastD_concat, List.dropLast_concat, List.sum_append, List.sum_singleton]

omit [AddCommGroup V] in
theorem ne_nil_fill {ms : List (AttributeSet × V)} {e : AttributeSet × List V}
    (he : e ∈ fill attributeKeys cap ms) : e.2 ≠ [] := ne_nil_fillFrom (by simp) ms e he

theorem lastValues_eq_summed_iff (observations : List (Observation V)) :
    lastValues cap allowlist observations = summed cap (received allowlist observations) ↔
      ∀ e ∈ fill attributeKeys cap (received allowlist observations), e.2.dropLast.sum = 0 := by
  unfold lastValues summed
  rw [List.map_inj_left]
  refine forall₂_congr fun e he => ?_
  rw [Prod.mk.injEq, sum_eq_dropLast_add (ne_nil_fill he), eq_comm (b := _ + _),
    add_eq_right]
  exact and_iff_right rfl

/-- The point of a set is the last value of its series. -/
theorem sumOf_lastValues (observations : List (Observation V)) (a : AttributeSet) :
    sumOf (attributeKeys.same a) (lastValues cap allowlist observations) =
      (seriesOf cap allowlist observations a).getLastD 0 := by
  have hpairwise :
    ((fill attributeKeys cap (received allowlist observations)).map Prod.fst).Pairwise
      fun a b => attributeKeys.same a b = false := pairwise_fillFrom List.Pairwise.nil _
  have hfilter := filter_eq_find hpairwise a
  unfold sumOf lastValues seriesOf
  rw [List.filter_map, List.map_map]
  have hmap : ((fill attributeKeys cap (received allowlist observations)).filter
      fun e => attributeKeys.same a e.1).map (fun e => e.2.getLastD 0) =
      (find attributeKeys (fill attributeKeys cap (received allowlist observations)) a).toList.map
        (·.getLastD 0) := by
    rw [← hfilter, List.map_map]
    rfl
  refine (congrArg List.sum hmap).trans ?_
  cases find attributeKeys (fill attributeKeys cap (received allowlist observations)) a with
  | none => rfl
  | some values => exact add_zero _

/-- A set is reported if something was observed in its series. -/
theorem has_lastValues_iff (observations : List (Observation V)) (a : AttributeSet) :
    attributeKeys.has ((lastValues cap allowlist observations).map Prod.fst) a = true ↔
      seriesOf cap allowlist observations a ≠ [] := by
  unfold lastValues seriesOf
  rw [List.map_map, Keys.has_eq_true]
  constructor
  · rintro ⟨k, hk, hsame⟩
    obtain ⟨e, he, rfl⟩ := List.mem_map.mp hk
    cases hfind : (fill attributeKeys cap (received allowlist observations)).find?
        fun e => attributeKeys.same a e.1 with
    | none =>
        have hnone := List.find?_eq_none.mp hfind e he
        exact absurd hsame hnone
    | some e' =>
        unfold find
        rw [hfind]
        exact ne_nil_fill (List.mem_of_find?_eq_some hfind)
  · intro hne
    unfold find at hne
    cases hfind : (fill attributeKeys cap (received allowlist observations)).find?
        fun e => attributeKeys.same a e.1 with
    | none =>
        rw [hfind] at hne
        exact absurd rfl hne
    | some e =>
        have hsame := List.find?_some hfind
        exact ⟨e.1, List.mem_map.mpr ⟨e, List.mem_of_find?_eq_some hfind, rfl⟩, hsame⟩

theorem lastValues_of_distinct {observations : List (Observation V)}
    (hdistinct : DistinctSets observations) (hroom : observations.length ≤ cap) :
    lastValues cap none observations = observations.map fun o => (.ofSpan o.2, o.1) := by
  have hkeys : (received none observations).map Prod.fst =
      observations.map fun o => AttributeSet.ofSpan o.2 := by
    rw [received, List.map_map]
    rfl
  have hfill := @fillFrom_of_distinct _ _ attributeKeys cap [] (received none observations)
    (by rw [hkeys]; exact hdistinct)
    (by rw [received, List.length_map, List.length_nil, Nat.zero_add]; exact hroom)
  unfold lastValues fill
  rw [hfill, List.nil_append, received, List.map_map, List.map_map]
  rfl

section Runs

variable {callbacks before after : List (List (Observation V))} {now : List (Observation V)}
  {out : List (MetricRecord V)}

/-- The collections up to one of them. -/
theorem take_points
    (hout : out.map (fun record => record.data.points) = callbacks.map (lastValues cap allowlist))
    (hsplit : callbacks = before ++ now :: after) :
    (out.take (before.length + 1)).map (fun record => record.data.points) =
      (before ++ [now]).map (lastValues cap allowlist) := by
  rw [List.map_take, hout, hsplit, ← List.map_take]
  congr 1
  rw [List.take_append, List.take_of_length_le (by omega), Nat.add_sub_cancel_left]
  rfl

theorem take_reported
    (hout : out.map (fun record => record.data.points) = callbacks.map (lastValues cap allowlist))
    (hsplit : callbacks = before ++ now :: after) (a : AttributeSet) :
    (∀ record ∈ out.take (before.length + 1), Reported a record) ↔
      ∀ observations ∈ before ++ [now], seriesOf cap allowlist observations a ≠ [] := by
  have hreported : (∀ record ∈ out.take (before.length + 1), Reported a record) ↔
      ∀ points ∈ (out.take (before.length + 1)).map (fun record => record.data.points),
        attributeKeys.has (points.map Prod.fst) a = true := by
    rw [List.forall_mem_map]
    rfl
  rw [hreported, take_points hout hsplit, List.forall_mem_map]
  exact forall₂_congr fun observations _ => has_lastValues_iff observations a

theorem take_sum
    (hout : out.map (fun record => record.data.points) = callbacks.map (lastValues cap allowlist))
    (hsplit : callbacks = before ++ now :: after) (a : AttributeSet) :
    ((out.take (before.length + 1)).map (pointAt a)).sum =
      (before.map fun observations => (seriesOf cap allowlist observations a).getLastD 0).sum +
        (seriesOf cap allowlist now a).getLastD 0 := by
  have hpoints : (out.take (before.length + 1)).map (pointAt a) =
      ((out.take (before.length + 1)).map fun record => record.data.points).map
        (sumOf (attributeKeys.same a)) := by
    rw [List.map_map]
    rfl
  rw [hpoints, take_points hout hsplit, List.map_map, List.map_append, List.sum_append,
    List.map_singleton, List.sum_singleton]
  simp only [Function.comp_def, sumOf_lastValues]

theorem forall₂_lastValues
    (hout : out.map (fun record => record.data.points) = callbacks.map (lastValues cap allowlist)) :
    List.Forall₂ (fun observations record =>
      record.data.points = lastValues cap allowlist observations) callbacks out := by
  have hsame : List.Forall₂ (fun points points' => points' = points)
      (callbacks.map (lastValues cap allowlist)) (out.map fun record => record.data.points) := by
    rw [hout]
    exact List.forall₂_same.mpr fun _ _ => rfl
  rw [List.forall₂_map_left_iff, List.forall₂_map_right_iff] at hsame
  exact hsame

theorem reportsObserved_iff (temporality : AggregationTemporality)
    (hout : out.map (fun record => record.data.points) = callbacks.map (lastValues cap allowlist)) :
    ReportsObserved temporality cap allowlist callbacks out ↔
      OverwritesNothing temporality cap allowlist callbacks := by
  have hforall := forall₂_lastValues hout
  constructor
  · intro R
    constructor
    · intro htemporality observations hobservations hdistinct
      have hboth := List.Forall₂.mp (fun _ _ hlast hR => And.intro hlast hR) hforall
        (R.cumulative htemporality)
      obtain ⟨record, -, hlast, hreports⟩ := exists_of_forall₂_right hboth.flip hobservations
      have hpoints := (hreports hdistinct).1
      exact (lastValues_eq_summed_iff observations).mp (hlast.symm.trans hpoints)
    · intro htemporality before now after hsplit hdistinct a hseries
      have htotal := R.delta htemporality before now after hsplit hdistinct a
        ((take_reported hout hsplit a).mpr hseries)
      rw [take_sum hout hsplit, sum_eq_dropLast_add (hseries now (by simp))] at htotal
      exact add_right_cancel htotal
  · intro O
    refine ⟨?_, ?_, ?_⟩
    · intro htemporality
      refine ((List.forall₂_and_left _ _).mpr ⟨O.cumulative htemporality, hforall⟩).imp ?_
      rintro observations record ⟨hnothing, hlast⟩ hdistinct
      have hpoints := hlast.trans ((lastValues_eq_summed_iff observations).mpr (hnothing hdistinct))
      exact ⟨hpoints, by rw [hpoints, total_received]⟩
    · intro _ hnone
      rw [hnone] at hforall
      exact hforall.imp fun observations record hlast hdistinct hroom =>
        hlast.trans (lastValues_of_distinct hdistinct hroom)
    · intro htemporality before now after hsplit hdistinct a hreported
      have hseries := (take_reported hout hsplit a).mp hreported
      rw [take_sum hout hsplit, O.delta htemporality before now after hsplit hdistinct a hseries,
        sum_eq_dropLast_add (hseries now (by simp))]

end Runs

/-- An observable sum reports what was observed exactly when nothing that counts is
overwritten. -/
theorem observable_sums_iff (stream : MetricStreamObservableSum V)
    (temporality : AggregationTemporality) (callbacks : List (List (Observation V))) :
    ∃ out, stream.run temporality callbacks = some out ∧
      (ReportsObserved temporality stream.result.maxCardinality stream.allowlist callbacks out ↔
        OverwritesNothing temporality stream.result.maxCardinality stream.allowlist callbacks) := by
  obtain ⟨out, hrun, hout⟩ := @run_spec V _ _ _ stream rfl rfl temporality callbacks
  exact ⟨out, hrun, reportsObserved_iff temporality hout⟩

/-- The overflow series keeps the last of the values that are folded into it, and a delta
stream reports the cumulative value each time. -/
theorem observable_sums_wrong :
    (¬ ∀ (stream : MetricStreamObservableSum Int) (callbacks : List (List (Observation Int)))
      (out : List (MetricRecord Int)), stream.run .cumulative callbacks = some out →
      ReportsObserved .cumulative stream.result.maxCardinality stream.allowlist callbacks out) ∧
    ¬ ∀ (stream : MetricStreamObservableSum Int) (callbacks : List (List (Observation Int)))
      (out : List (MetricRecord Int)), stream.run .delta callbacks = some out →
      ReportsObserved .delta stream.result.maxCardinality stream.allowlist callbacks out := by
  let stream (maxCardinality : Nat) : MetricStreamObservableSum Int :=
    { name := [], description := [], unit := [], monotonic := true, allowlist := none
      result := { maxCardinality } }
  constructor
  · intro h
    obtain ⟨out, hrun, hout⟩ :=
      @run_spec Int _ _ _ (stream 1) rfl rfl .cumulative [[(1, []), (5, flag 1), (8, flag 2)]]
    have O := (reportsObserved_iff .cumulative hout).mp (h _ _ out hrun)
    have hzero := O.cumulative rfl _ List.mem_cons_self (by unfold DistinctSets; decide +kernel)
    revert hzero
    decide +kernel
  · intro h
    obtain ⟨out, hrun, hout⟩ :=
      @run_spec Int _ _ _ (stream 2000) rfl rfl .delta [[(5, [])], [(8, [])]]
    have O := (reportsObserved_iff .delta hout).mp (h _ _ out hrun)
    have hzero := O.delta rfl [[(5, [])]] [(8, [])] [] rfl (by unfold DistinctSets; decide +kernel)
      (.ofSpan []) (by decide +kernel)
    revert hzero
    decide +kernel

end

end Microtel.Metrics
