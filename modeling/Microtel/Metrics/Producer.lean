import Microtel.Lib.Machine
import Microtel.Metrics.Conservation

/-!
`MetricProducer` (`src/sdk/metric_producer.cpp`) under the delta cycles of
`PeriodicExportingMetricReader::DoCollectExport`. A cycle takes one step per stream, so
measurements and registrations come between its steps; the slot of the reader lets one
cycle run at a time. Of a gauge and of an observable stream only that its `Collect`
returns or throws is kept: neither holds measurements of a synchronous instrument that a
collection clears.
-/

namespace Microtel.Metrics

open CappedMap

/-- What `AddStream` compares of an `InstrumentationScope`. -/
structure InstrumentationScope where
  name : Bytes
  version : Bytes
  deriving DecidableEq, Repr

/-- `κ` is what tells the storages with a temporality apart. -/
inductive MetricStream (κ P : Type)
  | synchronous (kind : κ) (storage : Storage P)
  | gauge
  | observable
  deriving DecidableEq, Repr

/-- The records of one scope, each with the number of its stream; the data is that of a
synchronous stream. -/
structure MetricBatchHandle (P : Type) where
  scope : InstrumentationScope
  records : List (Nat × Option (Collected P))
  deriving DecidableEq, Repr

structure ScopeEntry where
  scope : InstrumentationScope
  streams : List Nat
  deriving DecidableEq, Repr

/-- A running `MetricProducer::Collect`: the handles made so far, the records of the scope
it is at, and what is left of the snapshot. -/
structure CollectState (P : Type) where
  handles : List (MetricBatchHandle P) := []
  records : List (Nat × Option (Collected P)) := []
  snapshot : List ScopeEntry
  deriving DecidableEq, Repr

structure Producer (κ P : Type) where
  streams : List (MetricStream κ P) := []
  scopes : List ScopeEntry := []
  cycle : Option (CollectState P) := none
  /-- What the exporter was handed. -/
  exported : List (MetricBatchHandle P) := []
  deriving DecidableEq, Repr

inductive ProducerAction (κ V P : Type)
  | addStream (scope : InstrumentationScope) (stream : MetricStream κ P)
  | record (stream : Nat) (value : Reading V) (attrs : List KeyValue)
  | startCycle
  /-- `Collect` of the next stream returns. -/
  | collectStream
  /-- The callback of the next stream throws, and the cycle fails. -/
  | callbackThrows
  /-- The streams of a scope are done. -/
  | endScope
  /-- The exporter takes the handles. -/
  | handOver
  deriving DecidableEq, Repr

namespace Producer

variable {κ V P : Type}

/-- The scope entry of a new stream, made if need be. -/
def addToScope (scope : InstrumentationScope) (stream : Nat) : List ScopeEntry → List ScopeEntry
  | [] => [{ scope, streams := [stream] }]
  | entry :: entries =>
      if entry.scope = scope then { entry with streams := entry.streams ++ [stream] } :: entries
      else entry :: addToScope scope stream entries

/-- A stream as its constructor leaves it. -/
def isNew : MetricStream κ P → Bool
  | .synchronous _ storage => storage.points.isEmpty
  | .gauge => true
  | .observable => true

/-- `Collect` of one stream. -/
def collectOne : MetricStream κ P → Option (Collected P) × MetricStream κ P
  | .synchronous kind storage =>
      let (data, storage) := storage.collect .delta
      (some data, .synchronous kind storage)
  | .gauge => (none, .gauge)
  | .observable => (none, .observable)

variable (agg : κ → Aggregation V P)

def step (p : Producer κ P) : ProducerAction κ V P → Option (Producer κ P)
  | .addStream scope stream =>
      if isNew stream then
        some { p with
          streams := p.streams ++ [stream]
          scopes := addToScope scope p.streams.length p.scopes }
      else none
  | .record i value attrs =>
      match p.streams[i]? with
      | some (.synchronous kind storage) =>
          (storage.record (agg kind) value attrs).map fun storage =>
            { p with streams := p.streams.set i (.synchronous kind storage) }
      | _ => none
  | .startCycle =>
      match p.cycle with
      | none => some { p with cycle := some { snapshot := p.scopes } }
      | some _ => none
  | .collectStream =>
      match p.cycle with
      | some { handles, records, snapshot := { scope, streams := i :: rest } :: later } =>
          match p.streams[i]? with
          | some stream =>
              let (data, stream) := collectOne stream
              some { p with
                streams := p.streams.set i stream
                cycle := some {
                  handles
                  records := records ++ [(i, data)]
                  snapshot := { scope, streams := rest } :: later } }
          | none => none
      | _ => none
  | .callbackThrows =>
      match p.cycle with
      | some { snapshot := { streams := i :: _, .. } :: _, .. } =>
          match p.streams[i]? with
          | some .observable => some { p with cycle := none }
          | _ => none
      | _ => none
  | .endScope =>
      match p.cycle with
      | some { handles, records, snapshot := { scope, streams := [] } :: later } =>
          some { p with cycle := some {
            handles := handles ++ [{ scope, records }]
            snapshot := later } }
      | _ => none
  | .handOver =>
      match p.cycle with
      | some { handles, records := [], snapshot := [] } =>
          some { p with cycle := none, exported := p.exported ++ handles }
      | _ => none

/-! ### What became of the measurements -/

/-- The measurements of one stream, in order. -/
def recordedBy (i : Nat) : List (ProducerAction κ V P) → List (AttributeSet × V)
  | [] => []
  | .record j (.finite v) attrs :: as =>
      if j = i then (.ofSpan attrs, v) :: recordedBy i as else recordedBy i as
  | _ :: as => recordedBy i as

/-- The records that were handed over. -/
def exportedRecords (p : Producer κ P) : List (Nat × Option (Collected P)) :=
  p.exported.flatMap MetricBatchHandle.records

/-- The records of the running cycle. -/
def pendingRecords (p : Producer κ P) : List (Nat × Option (Collected P)) :=
  match p.cycle with
  | none => []
  | some cycle => cycle.handles.flatMap MetricBatchHandle.records ++ cycle.records

/-- The data of one synchronous stream in a list of records. -/
def dataOf (i : Nat) (records : List (Nat × Option (Collected P))) : List (Collected P) :=
  records.filterMap fun r => if r.1 = i then r.2 else none

/-- Every measurement of a synchronous stream is in the data of exactly one record of a batch
that was handed over or that the running cycle is making, or it is still in the storage. -/
def Delivered (as : List (ProducerAction κ V P)) (p : Producer κ P) : Prop :=
  ∀ i kind storage, p.streams[i]? = some (.synchronous kind storage) →
    ∃ segments held, recordedBy i as = segments.flatten ++ held ∧
      List.Forall₂ (fun segment data =>
          Covers (agg kind) storage.maxCardinality (.delta, segment) data)
        segments (dataOf i p.exportedRecords ++ dataOf i p.pendingRecords) ∧
      Holds (agg kind) storage.maxCardinality held storage

/-- A callback throws only when no synchronous stream that was collected before it in the
cycle had a point. -/
def ThrowsEarly (p : Producer κ P) : ProducerAction κ V P → Prop
  | .callbackThrows => ∀ r ∈ p.pendingRecords, ∀ data ∈ r.2, data.points = []
  | _ => True

instance [DecidableEq P] (p : Producer κ P) (a : ProducerAction κ V P) :
    Decidable (ThrowsEarly p a) :=
  match a with
  | .callbackThrows =>
      inferInstanceAs (Decidable (∀ r ∈ p.pendingRecords, ∀ data ∈ r.2, data.points = []))
  | .addStream _ _ | .record _ _ _ | .startCycle | .collectStream | .endScope | .handOver =>
      isTrue trivial

/-! ### One step -/

/-- All the data of a stream that is in a record. -/
def allData (i : Nat) (p : Producer κ P) : List (Collected P) :=
  dataOf i p.exportedRecords ++ dataOf i p.pendingRecords

/-- The measurements are delivered, and none is of a stream that is not there yet. -/
structure Tracks (as : List (ProducerAction κ V P)) (p : Producer κ P) : Prop where
  delivered : Delivered agg as p
  fresh : ∀ i, p.streams.length ≤ i → recordedBy i as = [] ∧ allData i p = []

section

variable {agg} {as : List (ProducerAction κ V P)} {a : ProducerAction κ V P} {p p' : Producer κ P}

theorem recordedBy_append (i : Nat) (as bs : List (ProducerAction κ V P)) :
    recordedBy i (as ++ bs) = recordedBy i as ++ recordedBy i bs := by
  induction as with
  | nil => rfl
  | cons a as ih =>
      rw [List.cons_append]
      cases a with
      | record j value attrs =>
          cases value with
          | nonFinite => exact ih
          | finite v =>
              rw [recordedBy, recordedBy, ih]
              split <;> rfl
      | _ => exact ih

theorem recordedBy_other {i j : Nat} (h : j ≠ i) {value : Reading V} {attrs : List KeyValue} :
    recordedBy i [(.record j value attrs : ProducerAction κ V P)] = [] := by
  cases value with
  | finite v =>
      rw [recordedBy, if_neg h]
      rfl
  | nonFinite => rfl

theorem dataOf_append (i : Nat) (rs rs' : List (Nat × Option (Collected P))) :
    dataOf i (rs ++ rs') = dataOf i rs ++ dataOf i rs' := List.filterMap_append

/-- A step that only moves records. -/
theorem Tracks.moved (T : Tracks agg as p) (hstreams : p'.streams = p.streams)
    (hdata : ∀ i, allData i p' = allData i p) (hrecorded : ∀ i, recordedBy i [a] = []) :
    Tracks agg (as ++ [a]) p' := by
  constructor
  · intro i kind storage hi
    rw [hstreams] at hi
    obtain ⟨segments, held, heq, hcovers, hholds⟩ := T.delivered i kind storage hi
    refine ⟨segments, held, ?_, ?_, hholds⟩
    · rw [recordedBy_append, hrecorded, List.append_nil]
      exact heq
    · have hsame := hdata i
      unfold allData at hsame
      rw [hsame]
      exact hcovers
  · intro i hi
    rw [hstreams] at hi
    obtain ⟨hnone, hempty⟩ := T.fresh i hi
    rw [recordedBy_append, hrecorded, List.append_nil, hdata]
    exact ⟨hnone, hempty⟩

theorem Tracks.addStream (T : Tracks agg as p) {scope : InstrumentationScope}
    {stream : MetricStream κ P} (h : step agg p (.addStream scope stream) = some p') :
    Tracks agg (as ++ [.addStream scope stream]) p' := by
  simp only [step] at h
  split at h
  · next hnew =>
    obtain rfl := Option.some.inj h
    have hnone : ∀ i, recordedBy i [(.addStream scope stream : ProducerAction κ V P)] = [] :=
      fun _ => rfl
    constructor
    · intro i kind storage hi
      rw [recordedBy_append, hnone, List.append_nil]
      rcases Nat.lt_trichotomy i p.streams.length with hlt | heq | hgt
      · rw [List.getElem?_append_left hlt] at hi
        exact T.delivered i kind storage hi
      · subst heq
        rw [List.getElem?_concat_length] at hi
        obtain rfl := Option.some.inj hi
        obtain ⟨hbefore, hempty⟩ := T.fresh p.streams.length (le_refl _)
        have hpoints : storage.points = [] := List.isEmpty_iff.mp hnew
        refine ⟨[], [], hbefore, ?_, ⟨rfl, ?_⟩⟩
        · unfold allData at hempty
          exact hempty ▸ List.Forall₂.nil
        · rw [hpoints]
          rfl
      · rw [List.getElem?_eq_none (by simp; omega)] at hi
        cases hi
    · intro i hi
      rw [List.length_append, List.length_singleton] at hi
      rw [recordedBy_append, hnone, List.append_nil]
      exact T.fresh i (by omega)
  · cases h

theorem Tracks.record (T : Tracks agg as p) {j : Nat} {value : Reading V} {attrs : List KeyValue}
    (h : step agg p (.record j value attrs) = some p') :
    Tracks agg (as ++ [.record j value attrs]) p' := by
  simp only [step] at h
  split at h
  · next kind storage hj =>
    obtain ⟨storage', hrecord, rfl⟩ := Option.map_eq_some_iff.mp h
    have hlimit : storage'.maxCardinality = storage.maxCardinality :=
      Storage.record_maxCardinality hrecord
    obtain ⟨hjlt, -⟩ := List.getElem?_eq_some_iff.mp hj
    constructor
    · intro i kind' storage'' hi
      rw [recordedBy_append]
      by_cases hij : j = i
      · subst hij
        rw [List.getElem?_set_self hjlt] at hi
        obtain ⟨rfl, rfl⟩ := MetricStream.synchronous.inj (Option.some.inj hi)
        obtain ⟨segments, held, heq, hcovers, H⟩ := T.delivered j kind storage hj
        rw [hlimit]
        cases value with
        | finite v =>
            refine ⟨segments, held ++ [(.ofSpan attrs, v)], ?_, hcovers, H.record hrecord⟩
            rw [recordedBy, recordedBy, if_pos rfl, heq, List.append_assoc]
        | nonFinite =>
            obtain rfl := Option.some.inj hrecord
            refine ⟨segments, held, ?_, hcovers, H.recordNonFinite⟩
            have hnone : recordedBy j [(.record j .nonFinite attrs : ProducerAction κ V P)] = [] :=
              rfl
            rw [hnone, List.append_nil, heq]
      · rw [List.getElem?_set_ne hij] at hi
        rw [recordedBy_other hij, List.append_nil]
        exact T.delivered i kind' storage'' hi
    · intro i hi
      rw [List.length_set] at hi
      have hij : j ≠ i := by omega
      rw [recordedBy_append, recordedBy_other hij, List.append_nil]
      exact T.fresh i hi
  · cases h

theorem pendingRecords_some {cycle : CollectState P} (h : p.cycle = some cycle) :
    p.pendingRecords = cycle.handles.flatMap MetricBatchHandle.records ++ cycle.records := by
  unfold pendingRecords
  rw [h]

/-- The data a stream gives up is exactly what its storage held. -/
theorem Tracks.collected (T : Tracks agg as p) {j : Nat} {stream : MetricStream κ P}
    (hj : p.streams[j]? = some stream)
    (hstreams : p'.streams = p.streams.set j (collectOne stream).2)
    (hdata : ∀ i, allData i p' = allData i p ++ dataOf i [(j, (collectOne stream).1)])
    (hrecorded : ∀ i, recordedBy i [a] = []) : Tracks agg (as ++ [a]) p' := by
  obtain ⟨hjlt, -⟩ := List.getElem?_eq_some_iff.mp hj
  have hother : ∀ i, j ≠ i → dataOf i [(j, (collectOne stream).1)] = [] := by
    intro i hij
    simp [dataOf, hij]
  constructor
  · intro i kind storage hi
    rw [hstreams] at hi
    rw [recordedBy_append, hrecorded, List.append_nil]
    have hall := hdata i
    unfold allData at hall
    rw [hall]
    by_cases hij : j = i
    · subst hij
      rw [List.getElem?_set_self hjlt] at hi
      cases stream with
      | gauge => cases hi
      | observable => cases hi
      | synchronous kind' storage' =>
          obtain ⟨rfl, rfl⟩ := MetricStream.synchronous.inj (Option.some.inj hi)
          obtain ⟨segments, held, heq, hcovers, H⟩ := T.delivered j kind' storage' hj
          refine ⟨segments ++ [held], [], ?_, ?_, H.clear⟩
          · rw [heq, List.flatten_append, List.flatten_singleton, List.append_nil]
          · refine List.rel_append hcovers ?_
            have hone : dataOf j [(j, (collectOne (.synchronous kind' storage')).1)] =
                [(storage'.collect .delta).1] := by
              simp [dataOf, collectOne]
            rw [hone]
            exact .cons ⟨rfl, H.points⟩ .nil
    · rw [List.getElem?_set_ne hij] at hi
      rw [hother i hij, List.append_nil]
      exact T.delivered i kind storage hi
  · intro i hi
    rw [hstreams, List.length_set] at hi
    obtain ⟨hnone, hempty⟩ := T.fresh i hi
    rw [recordedBy_append, hrecorded, List.append_nil, hdata, hempty, hother i (by omega)]
    exact ⟨hnone, rfl⟩

theorem Tracks.collectStream (T : Tracks agg as p) (h : step agg p .collectStream = some p') :
    Tracks agg (as ++ [.collectStream]) p' := by
  simp only [step] at h
  split at h
  · next handles records scope j rest later hcycle =>
    split at h
    · next stream hj =>
      obtain rfl := Option.some.inj h
      refine T.collected hj rfl ?_ fun _ => rfl
      intro i
      unfold allData exportedRecords
      rw [pendingRecords_some hcycle, ← dataOf_append, ← dataOf_append, ← dataOf_append,
        List.append_assoc, List.append_assoc]
      rfl
    · cases h
  · cases h

/-- What a failed cycle takes with it was empty. -/
theorem Tracks.callbackThrows (T : Tracks agg as p)
    (hearly : ThrowsEarly p (.callbackThrows : ProducerAction κ V P))
    (h : step agg p .callbackThrows = some p') : Tracks agg (as ++ [.callbackThrows]) p' := by
  have hexported : p'.streams = p.streams ∧ p'.cycle = none ∧ p'.exported = p.exported := by
    simp only [step] at h
    split at h
    · split at h
      · obtain rfl := Option.some.inj h
        exact ⟨rfl, rfl, rfl⟩
      · cases h
    · cases h
  obtain ⟨hstreams, hcycle, hexported⟩ := hexported
  have hdata : ∀ i, allData i p' = dataOf i p.exportedRecords := by
    intro i
    unfold allData exportedRecords pendingRecords
    rw [hcycle, hexported]
    exact List.append_nil _
  have hnone : ∀ i, recordedBy i [(.callbackThrows : ProducerAction κ V P)] = [] := fun _ => rfl
  constructor
  · intro i kind storage hi
    rw [hstreams] at hi
    obtain ⟨segments, held, heq, hcovers, H⟩ := T.delivered i kind storage hi
    have hkept := List.forall₂_take_append _ _ _ hcovers
    have hlost := List.forall₂_drop_append _ _ _ hcovers
    refine ⟨segments.take (dataOf i p.exportedRecords).length, held, ?_, ?_, H⟩
    · have hempty : (segments.drop (dataOf i p.exportedRecords).length).flatten = [] := by
        refine List.flatten_eq_nil_iff.mpr ?_
        intro segment hsegment
        obtain ⟨data, hmem, C⟩ := exists_of_forall₂_right hlost.flip hsegment
        refine C.eq_nil ?_
        obtain ⟨r, hr, hsome⟩ := List.mem_filterMap.mp hmem
        refine hearly r hr data ?_
        split at hsome
        · exact hsome
        · cases hsome
      rw [recordedBy_append, hnone, List.append_nil, heq]
      conv_lhs => rw [← List.take_append_drop (dataOf i p.exportedRecords).length segments]
      rw [List.flatten_append, hempty, List.append_nil]
    · have hall := hdata i
      unfold allData at hall
      rw [hall]
      exact hkept
  · intro i hi
    rw [hstreams] at hi
    obtain ⟨hbefore, hempty⟩ := T.fresh i hi
    rw [recordedBy_append, hnone, List.append_nil, hdata]
    exact ⟨hbefore, (List.append_eq_nil_iff.mp hempty).1⟩

/-- One step. -/
theorem Tracks.step (T : Tracks agg as p) (hearly : ThrowsEarly p a)
    (h : Producer.step agg p a = some p') : Tracks agg (as ++ [a]) p' := by
  cases a with
  | addStream scope stream => exact T.addStream h
  | record j value attrs => exact T.record h
  | collectStream => exact T.collectStream h
  | callbackThrows => exact T.callbackThrows hearly h
  | startCycle =>
      simp only [Producer.step] at h
      split at h
      · next hcycle =>
        obtain rfl := Option.some.inj h
        refine T.moved rfl ?_ fun _ => rfl
        intro i
        unfold allData exportedRecords pendingRecords
        rw [hcycle]
        rfl
      · cases h
  | endScope =>
      simp only [Producer.step] at h
      split at h
      · next handles records scope later hcycle =>
        obtain rfl := Option.some.inj h
        refine T.moved rfl ?_ fun _ => rfl
        intro i
        unfold allData exportedRecords pendingRecords
        rw [hcycle]
        simp
      · cases h
  | handOver =>
      simp only [Producer.step] at h
      split at h
      · next handles hcycle =>
        obtain rfl := Option.some.inj h
        refine T.moved rfl ?_ fun _ => rfl
        intro i
        unfold allData exportedRecords pendingRecords
        rw [hcycle]
        simp [dataOf]
      · cases h

/-! ### Whole runs -/

theorem Tracks.run {as₀ : List (ProducerAction κ V P)} (T : Tracks agg as₀ p)
    (hearly : ∀ before a after s, as = before ++ a :: after →
      Machine.run (Producer.step agg) p before = some s → ThrowsEarly s a)
    (hrun : Machine.run (Producer.step agg) p as = some p') : Tracks agg (as₀ ++ as) p' := by
  induction as generalizing as₀ p with
  | nil =>
      cases hrun
      rw [List.append_nil]
      exact T
  | cons a as ih =>
      rw [Machine.run_cons, Option.bind_eq_some_iff] at hrun
      obtain ⟨s, hs, hrest⟩ := hrun
      have T' := T.step (hearly [] a as p rfl rfl) hs
      have hall := ih T' (fun before a' after s' hsplit hbefore => ?_) hrest
      · rw [List.append_assoc] at hall
        exact hall
      · refine hearly (a :: before) a' after s' ?_ ?_
        · rw [hsplit, List.cons_append]
        · rw [Machine.run_cons, hs]
          exact hbefore

theorem Tracks.init : Tracks agg [] ({} : Producer κ P) := by
  constructor
  · intro i kind storage hi
    cases hi
  · intro i _
    exact ⟨rfl, rfl⟩

end

/-- In a run in which callbacks only throw before anything was collected in their cycle,
every measurement is delivered, in every state it reaches. -/
theorem delta_survives_throws (as : List (ProducerAction κ V P)) (p : Producer κ P)
    (hrun : Machine.run (step agg) {} as = some p)
    (hearly : ∀ before a after s, as = before ++ a :: after →
      Machine.run (step agg) {} before = some s → ThrowsEarly s a) :
    Delivered agg as p ∧ (p.cycle = none → p.pendingRecords = []) := by
  constructor
  · exact (Tracks.init.run hearly hrun).delivered
  · intro hcycle
    unfold pendingRecords
    rw [hcycle]

/-- A counter and an observable whose callback returns once and throws once. -/
theorem delta_survives_throws_once :
    ∃ p, Machine.run (step fun _ : Unit => SumStorage.aggregation (V := Int)) {}
        [.addStream ⟨[109], []⟩ (.synchronous () { maxCardinality := 2000 }),
          .addStream ⟨[109], []⟩ .observable, .record 0 (.finite 5) [], .startCycle, .collectStream,
          .record 0 (.finite 2) [], .collectStream, .endScope, .handOver, .startCycle,
          .collectStream, .collectStream, .endScope, .handOver, .startCycle, .collectStream,
          .callbackThrows, .record 0 (.finite 1) []] = some p ∧
      ∃ segments held, ([5, 2, 1] : List Int) = (segments.flatten ++ held).map Prod.snd ∧
        List.Forall₂ (fun segment data =>
            Covers SumStorage.aggregation 2000 (.delta, segment) data)
          segments (dataOf 0 p.exportedRecords) := by
  let as : List (ProducerAction Unit Int Int) :=
    [.addStream ⟨[109], []⟩ (.synchronous () { maxCardinality := 2000 }),
      .addStream ⟨[109], []⟩ .observable, .record 0 (.finite 5) [], .startCycle, .collectStream,
      .record 0 (.finite 2) [], .collectStream, .endScope, .handOver, .startCycle,
      .collectStream, .collectStream, .endScope, .handOver, .startCycle, .collectStream,
      .callbackThrows, .record 0 (.finite 1) []]
  have hsome :
      (Machine.run (step fun _ : Unit => SumStorage.aggregation (V := Int)) {} as).isSome := by
    decide +kernel
  obtain ⟨p, hp⟩ := Option.isSome_iff_exists.mp hsome
  refine ⟨p, hp, ?_⟩
  have hstreams : (Machine.run (step fun _ : Unit => SumStorage.aggregation (V := Int)) {} as).map
      (fun p => (p.streams[0]?, p.cycle)) =
      some (some (.synchronous () { maxCardinality := 2000, points := [(.ofSpan [], 1)] }),
        none) := by
    decide +kernel
  rw [hp, Option.map_some, Option.some.injEq, Prod.mk.injEq] at hstreams
  obtain ⟨hdelivered, hpending⟩ := delta_survives_throws _ as p hp
    (Machine.throughout_sound (by decide +kernel))
  obtain ⟨segments, held, heq, hcovers, -⟩ := hdelivered 0 () _ hstreams.1
  rw [hpending hstreams.2] at hcovers
  refine ⟨segments, held, ?_, ?_⟩
  · rw [← heq]
    rfl
  · exact (List.append_nil (dataOf 0 p.exportedRecords)) ▸ hcovers

/-- The measurement of a counter that was collected before a callback threw is gone. -/
theorem delta_lost_by_throw :
    ¬ ∀ (as : List (ProducerAction Unit Int Int)) (p : Producer Unit Int),
      Machine.run (step fun _ => SumStorage.aggregation (V := Int)) {} as = some p →
      Delivered (fun _ => SumStorage.aggregation) as p := by
  intro h
  have hdelivered := h [.addStream ⟨[109], []⟩ (.synchronous () { maxCardinality := 2000 }),
      .addStream ⟨[109], []⟩ .observable, .record 0 (.finite 5) [], .startCycle, .collectStream,
      .callbackThrows]
    { streams := [.synchronous () { maxCardinality := 2000 }, .observable]
      scopes := [⟨⟨[109], []⟩, [0, 1]⟩] } (by decide +kernel)
  obtain ⟨segments, held, heq, hcovers, H⟩ := hdelivered 0 () { maxCardinality := 2000 } rfl
  cases hcovers
  have hheld : held = [(.ofSpan [], 5)] := heq.symm
  have hpoints := H.points
  rw [hheld] at hpoints
  revert hpoints
  decide +kernel

end Producer

end Microtel.Metrics
