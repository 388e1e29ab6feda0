import Microtel.Metrics.Storages
import Microtel.Metrics.ExpHistogramLaws

/-!
What a storage collects, over whole runs in which the map of points fills, overflows,
is cleared by a delta collection and fills again.
-/

namespace Microtel.Metrics

open CappedMap

variable {V P : Type} {agg : Aggregation V P} {cap : Nat}

/-- The points are what the measurements `since` the last clear fold to. -/
structure Holds (agg : Aggregation V P) (cap : Nat) (since : List (AttributeSet × V))
    (s : Storage P) : Prop where
  limit : s.maxCardinality = cap
  points : image agg.new agg.update (fill attributeKeys cap since) = some s.points

/-- A collection of the measurements `since` the last clear. -/
structure Covers (agg : Aggregation V P) (cap : Nat)
    (c : AggregationTemporality × List (AttributeSet × V)) (data : Collected P) : Prop where
  temporality : data.temporality = c.1
  points : image agg.new agg.update (fill attributeKeys cap c.2) = some data.points

/-- The storage with its overflow counted. -/
def Storage.counted (s : Storage P) (folds : Bool) : Storage P :=
  if folds then s.recordCardinalityOverflow else s

theorem Storage.counted_maxCardinality (s : Storage P) (folds : Bool) :
    (s.counted folds).maxCardinality = s.maxCardinality := by
  cases folds <;> rfl

/-- `Record` of a finite value, under the key it is routed to. -/
theorem Storage.record_finite (s : Storage P) (v : V) (attrs : List KeyValue) :
    s.record agg (.finite v) attrs =
      (upsert attributeKeys agg.new (agg.update · v) s.points
        (attributeKeys.route s.maxCardinality (s.points.map Prod.fst) (.ofSpan attrs))).map
        fun points =>
          { s.counted (attributeKeys.folds s.maxCardinality (s.points.map Prod.fst)
              (.ofSpan attrs)) with points } := by
  unfold Storage.record Keys.route Storage.counted
  dsimp only
  cases attributeKeys.folds s.maxCardinality (s.points.map Prod.fst) (.ofSpan attrs) <;> rfl

theorem Storage.record_maxCardinality {s s' : Storage P} {value : Reading V} {attrs : List KeyValue}
    (h : s.record agg value attrs = some s') : s'.maxCardinality = s.maxCardinality := by
  cases value with
  | nonFinite =>
      obtain rfl := Option.some.inj h
      rfl
  | finite v =>
      rw [Storage.record_finite] at h
      obtain ⟨points, -, rfl⟩ := Option.map_eq_some_iff.mp h
      exact Storage.counted_maxCardinality _ _

theorem Holds.keys {since : List (AttributeSet × V)} {s : Storage P} (H : Holds agg cap since s) :
    s.points.map Prod.fst = (fill attributeKeys cap since).map Prod.fst := image_keys H.points

theorem Holds.empty (cap : Nat) (diag : Option MetricDrops) :
    Holds agg cap [] { maxCardinality := cap, diag } := ⟨rfl, rfl⟩

/-- The points after one more measurement. -/
theorem Holds.image_concat {since : List (AttributeSet × V)} {s : Storage P}
    (H : Holds agg cap since s) (v : V) (key : AttributeSet) :
    image agg.new agg.update (fill attributeKeys cap (since ++ [(key, v)])) =
      upsert attributeKeys agg.new (agg.update · v) s.points
        (attributeKeys.route s.maxCardinality (s.points.map Prod.fst) key) := by
  rw [H.keys, H.limit, ← image_push H.points]
  unfold fill
  rw [fillFrom_append]
  rfl

/-- One measurement more. -/
theorem Holds.record {since : List (AttributeSet × V)} {s s' : Storage P} {v : V}
    {attrs : List KeyValue} (H : Holds agg cap since s)
    (h : s.record agg (.finite v) attrs = some s') :
    Holds agg cap (since ++ [(.ofSpan attrs, v)]) s' := by
  rw [Storage.record_finite] at h
  obtain ⟨points, hpoints, rfl⟩ := Option.map_eq_some_iff.mp h
  constructor
  · exact (Storage.counted_maxCardinality _ _).trans H.limit
  · rw [H.image_concat, hpoints]

theorem Holds.recordNonFinite {since : List (AttributeSet × V)} {s : Storage P}
    (H : Holds agg cap since s) : Holds agg cap since s.recordNonFinite := ⟨H.limit, H.points⟩

theorem Holds.clear {since : List (AttributeSet × V)} {s : Storage P} (H : Holds agg cap since s) :
    Holds agg cap [] { s with points := [] } := ⟨H.limit, rfl⟩

/-- Each collection of a run covers what was measured since the last clear. -/
theorem Holds.run {since : List (AttributeSet × V)} {s s' : Storage P} {ops : List (StorageOp V)}
    {out : List (Collected P)} (H : Holds agg cap since s) (h : s.run agg ops = some (s', out)) :
    List.Forall₂ (Covers agg cap) (covered since ops) out := by
  induction ops generalizing since s out with
  | nil =>
      obtain ⟨rfl, rfl⟩ := Prod.mk.inj (Option.some.inj h)
      exact .nil
  | cons op ops ih =>
      cases op with
      | record value attrs =>
          obtain ⟨s₁, h₁, hrest⟩ := Option.bind_eq_some_iff.mp h
          cases value with
          | finite v => exact ih (H.record h₁) hrest
          | nonFinite =>
              obtain rfl := Option.some.inj h₁
              exact ih H.recordNonFinite hrest
      | collect temporality =>
          obtain ⟨⟨last, more⟩, hrest, heq⟩ := Option.map_eq_some_iff.mp h
          obtain ⟨rfl, rfl⟩ := Prod.mk.inj heq
          cases temporality with
          | cumulative => exact .cons ⟨rfl, H.points⟩ (ih H hrest)
          | delta => exact .cons ⟨rfl, H.points⟩ (ih H.clear hrest)

/-- Every measurement is under exactly one delta collection, or still held. -/
theorem segments_flatten (since : List (AttributeSet × V)) (ops : List (StorageOp V)) :
    (segments since ops).flatten = since ++ measurements ops := by
  induction ops generalizing since with
  | nil => simp [segments, measurements]
  | cons op ops ih =>
      cases op with
      | record value attrs =>
          cases value with
          | finite v => rw [segments, measurements, ih, List.append_assoc, List.singleton_append]
          | nonFinite => rw [segments, measurements, ih]
      | collect temporality =>
          cases temporality with
          | cumulative => rw [segments, measurements, ih]
          | delta => rw [segments, measurements, List.flatten_cons, ih, List.nil_append]

/-- The delta collections of a run that ends with one. -/
theorem covered_deltas (since : List (AttributeSet × V)) (ops : List (StorageOp V)) :
    ((covered since (ops ++ [.collect .delta])).filter fun c => c.1 = .delta).map Prod.snd =
      segments since ops := by
  induction ops generalizing since with
  | nil => rfl
  | cons op ops ih =>
      rw [List.cons_append]
      cases op with
      | record value attrs =>
          cases value with
          | finite v => rw [covered, segments, ih]
          | nonFinite => rw [covered, segments, ih]
      | collect temporality =>
          cases temporality with
          | cumulative =>
              rw [covered, segments, ← ih]
              rfl
          | delta =>
              rw [covered, segments, ← ih]
              rfl

/-- The single cumulative collection of the measurements of a run. -/
theorem covered_recordsOnly (since : List (AttributeSet × V)) (ops : List (StorageOp V)) :
    covered since (recordsOnly ops ++ [.collect .cumulative]) =
      [(.cumulative, since ++ measurements ops)] := by
  induction ops generalizing since with
  | nil => simp [recordsOnly, covered, measurements]
  | cons op ops ih =>
      cases op with
      | record value attrs =>
          cases value with
          | finite v =>
              have h := ih (since ++ [(.ofSpan attrs, v)])
              rw [List.append_assoc, List.singleton_append] at h
              exact h
          | nonFinite => exact ih since
      | collect temporality => exact ih since

/-! ### Counting the overflow -/

/-- The measurements a storage refuses. -/
def nonFinites (ops : List (StorageOp V)) : Nat :=
  ops.countP fun
    | .record .nonFinite _ => true
    | _ => false

theorem folded_concat (since : List (AttributeSet × V)) (key : AttributeSet) (v : V) :
    folded attributeKeys cap (since ++ [(key, v)]) =
      folded attributeKeys cap since +
        if attributeKeys.folds cap ((fill attributeKeys cap since).map Prod.fst) key then 1
        else 0 :=
  foldedFrom_concat [] since key v

/-- A measurement is counted as overflow exactly if its key folds. -/
theorem Holds.record_diag {since : List (AttributeSet × V)} {s s' : Storage P} {v : V}
    {attrs : List KeyValue} {d : MetricDrops} (H : Holds agg cap since s) (hd : s.diag = some d)
    (h : s.record agg (.finite v) attrs = some s') :
    ∃ d', s'.diag = some d' ∧
      d'.cardinalityOverflow + folded attributeKeys cap since =
        d.cardinalityOverflow + folded attributeKeys cap (since ++ [(.ofSpan attrs, v)]) ∧
      d'.nonFiniteValue = d.nonFiniteValue := by
  rw [Storage.record_finite] at h
  obtain ⟨points, -, rfl⟩ := Option.map_eq_some_iff.mp h
  rw [folded_concat, ← H.keys, H.limit]
  cases attributeKeys.folds cap (s.points.map Prod.fst) (.ofSpan attrs) with
  | true =>
      refine ⟨{ d with cardinalityOverflow := d.cardinalityOverflow + 1 }, ?_, ?_, rfl⟩
      · simp only [Storage.counted, if_true, Storage.recordCardinalityOverflow, hd, Option.map_some]
      · rw [if_pos rfl]
        dsimp only
        omega
  | false => exact ⟨d, hd, rfl, rfl⟩

/-- Every folded measurement is counted once, every refused one as well. -/
theorem Holds.run_diag {since : List (AttributeSet × V)} {s s' : Storage P}
    {ops : List (StorageOp V)} {out : List (Collected P)} {d : MetricDrops}
    (H : Holds agg cap since s) (hd : s.diag = some d) (h : s.run agg ops = some (s', out)) :
    ∃ d', s'.diag = some d' ∧
      d'.cardinalityOverflow + folded attributeKeys cap since =
        d.cardinalityOverflow + ((segments since ops).map (folded attributeKeys cap)).sum ∧
      d'.nonFiniteValue = d.nonFiniteValue + nonFinites ops := by
  induction ops generalizing since s out d with
  | nil =>
      obtain ⟨rfl, rfl⟩ := Prod.mk.inj (Option.some.inj h)
      exact ⟨d, hd, by simp [segments], rfl⟩
  | cons op ops ih =>
      cases op with
      | record value attrs =>
          obtain ⟨s₁, h₁, hrest⟩ := Option.bind_eq_some_iff.mp h
          cases value with
          | finite v =>
              obtain ⟨d₁, hd₁, hcount₁, hnon₁⟩ := H.record_diag hd h₁
              obtain ⟨d', hd', hcount, hnon⟩ := ih (H.record h₁) hd₁ hrest
              refine ⟨d', hd', ?_, ?_⟩
              · rw [segments]
                omega
              · rw [hnon, hnon₁]
                simp [nonFinites]
          | nonFinite =>
              obtain rfl := Option.some.inj h₁
              obtain ⟨d', hd', hcount, hnon⟩ := ih H.recordNonFinite
                (d := { d with nonFiniteValue := d.nonFiniteValue + 1 }) (by
                  simp only [Storage.recordNonFinite, hd, Option.map_some]) hrest
              refine ⟨d', hd', hcount, ?_⟩
              rw [hnon]
              simp only [nonFinites, List.countP_cons_of_pos]
              omega
      | collect temporality =>
          obtain ⟨⟨last, more⟩, hrest, heq⟩ := Option.map_eq_some_iff.mp h
          obtain ⟨rfl, rfl⟩ := Prod.mk.inj heq
          cases temporality with
          | cumulative =>
              obtain ⟨d', hd', hcount, hnon⟩ := ih H hd hrest
              exact ⟨d', hd', hcount, by rw [hnon]; rfl⟩
          | delta =>
              obtain ⟨d', hd', hcount, hnon⟩ := ih H.clear hd hrest
              refine ⟨d', hd', ?_, by rw [hnon]; rfl⟩
              rw [segments, List.map_cons, List.sum_cons]
              have hnil : folded attributeKeys cap ([] : List (AttributeSet × V)) = 0 := rfl
              omega

/-! ### The laws of a storage -/

/-- The points of the sets with a property. -/
def pointsOf (q : AttributeSet → Bool) (data : Collected P) : List P :=
  (data.points.filter fun e => q e.1).map Prod.snd

/-- The delta collections among those of a run. -/
def deltas (out : List (Collected P)) : List (Collected P) :=
  out.filter fun data => data.temporality = .delta

/-- What one kind of point says of the values it stands for (`Totals`), when two lists
of points add up to the same (`Agree`), and what holds of each point (`Sound`). -/
structure PointLaws (agg : Aggregation V P) (Totals : List V → P → Prop)
    (Agree : List P → List P → Prop) (Sound : P → Prop) : Prop where
  totals : ∀ values p, values ≠ [] → values.foldlM agg.update agg.new = some p → Totals values p
  agree : ∀ valuess valuess' ps ps', List.Forall₂ Totals valuess ps →
    List.Forall₂ Totals valuess' ps' → valuess.flatten.Perm valuess'.flatten → Agree ps ps'
  sound : ∀ values p, Totals values p → Sound p

/-- The laws of a storage over all its runs. -/
structure Conserves (agg : Aggregation V P) (Totals : List V → P → Prop)
    (Agree : List P → List P → Prop) (Sound : P → Prop) : Prop where
  /-- The delta collections of a run add up to the cumulative collection of the same
  measurements: over the sets with any property if the run has no more sets than the
  limit, and over all sets in any case. -/
  delta_cumulative : ∀ (cap : Nat) (diag : Option MetricDrops) (ops : List (StorageOp V))
    (s s' : Storage P) (out : List (Collected P)) (c : Collected P) (q : AttributeSet → Bool),
    Storage.run agg { maxCardinality := cap, diag } (ops ++ [.collect .delta]) = some (s, out) →
    Storage.run agg { maxCardinality := cap, diag } (recordsOnly ops ++ [.collect .cumulative]) =
      some (s', [c]) →
    attributeKeys.Respects q →
    attributeKeys.classes ((measurements ops).map Prod.fst) ≤ cap ∨ q = (fun _ => true) →
    Agree ((deltas out).flatMap (pointsOf q)) (pointsOf q c)
  /-- Every collected point is sound, and there is at most one beyond the limit. -/
  collected : ∀ (cap : Nat) (diag : Option MetricDrops) (ops : List (StorageOp V)) (s : Storage P)
    (out : List (Collected P)),
    Storage.run agg { maxCardinality := cap, diag } ops = some (s, out) →
    ∀ data ∈ out, (∀ e ∈ data.points, Sound e.2) ∧ data.points.length ≤ cap + 1
  /-- With no more sets since the last clear than the limit, each has its own point, which
  stands for exactly its measurements. -/
  own : ∀ (cap : Nat) (diag : Option MetricDrops) (ops : List (StorageOp V)) (s : Storage P)
    (out : List (Collected P)),
    Storage.run agg { maxCardinality := cap, diag } ops = some (s, out) →
    List.Forall₂ (fun c data => attributeKeys.classes (c.2.map Prod.fst) ≤ cap →
        ∀ a, given attributeKeys a c.2 ≠ [] →
          ∃ p, pointsOf (attributeKeys.same a) data = [p] ∧
            Totals (given attributeKeys a c.2) p)
      (covered [] ops) out
  /-- A measurement of a new set in a full map goes to the overflow point and is counted;
  any other goes to the point of its own set. No other point changes. -/
  recorded : ∀ (s s' : Storage P) (v : V) (attrs : List KeyValue),
    s.record agg (.finite v) attrs = some s' →
    if attributeKeys.has (s.points.map Prod.fst) (.ofSpan attrs) = true ∨
        s.points.length < s.maxCardinality then
      Updated attributeKeys agg.new (agg.update · v) s.points (.ofSpan attrs) s'.points ∧
        s'.diag = s.diag
    else
      Updated attributeKeys agg.new (agg.update · v) s.points overflowAttributeSet s'.points ∧
        s'.diag = s.diag.map fun d => { d with cardinalityOverflow := d.cardinalityOverflow + 1 }
  /-- In a whole run each folded measurement is counted once. -/
  counted : ∀ (cap : Nat) (ops : List (StorageOp V)) (s : Storage P) (out : List (Collected P)),
    Storage.run agg { maxCardinality := cap, diag := some {} } ops = some (s, out) →
    s.diag = some {
      cardinalityOverflow := ((segments [] ops).map (folded attributeKeys cap)).sum
      nonFiniteValue := nonFinites ops }

/-- The values of a filled map, when none is folded or all of them are meant. -/
theorem valuesOf_fill {q : AttributeSet → Bool} (hq : attributeKeys.Respects q)
    {ms : List (AttributeSet × V)} (h : folded attributeKeys cap ms = 0 ∨ q = fun _ => true) :
    (valuesOf q (fill attributeKeys cap ms)).Perm ((ms.filter fun e => q e.1).map Prod.snd) := by
  rcases h with h | rfl
  · have hfill := @valuesOf_fillFrom _ _ _ cap _ hq [] ms
    rw [List.map_nil, routedFrom_of_folded h] at hfill
    exact hfill
  · have hfill := @values_fill _ _ attributeKeys cap ms
    have hall : (ms.filter fun _ => true) = ms := List.filter_eq_self.mpr fun _ _ => rfl
    rw [hall]
    exact hfill

/-- No set is folded where all have room. -/
theorem folded_of_sublist {ms more : List (AttributeSet × V)} (hsub : ms.Sublist more)
    (h : attributeKeys.classes (more.map Prod.fst) ≤ cap) : folded attributeKeys cap ms = 0 :=
  (routed_of_classes ((Keys.classes_sublist (hsub.map _)).trans h)).2

/-- A collection without points covers no measurement. -/
theorem Covers.eq_nil {c : AggregationTemporality × List (AttributeSet × V)} {data : Collected P}
    (C : Covers agg cap c data) (h : data.points = []) : c.2 = [] := by
  have hkeys := image_keys C.points
  rw [h, List.map_nil] at hkeys
  have hvalues := @values_fill _ _ attributeKeys cap c.2
  rw [List.map_eq_nil_iff.mp hkeys.symm] at hvalues
  exact List.map_eq_nil_iff.mp hvalues.symm.eq_nil

theorem exists_of_forall₂_right {α β : Type} {R : α → β → Prop} {xs : List α} {ys : List β}
    (h : List.Forall₂ R xs ys) {y : β} (hy : y ∈ ys) : ∃ x ∈ xs, R x y := by
  induction h with
  | nil => cases hy
  | cons hhead _ ih =>
      rcases List.mem_cons.mp hy with rfl | hy
      · exact ⟨_, List.mem_cons_self, hhead⟩
      · obtain ⟨x, hx, hR⟩ := ih hy
        exact ⟨x, List.mem_cons_of_mem _ hx, hR⟩

/-- The values that each point of the sets with a property stands for. -/
def pointValues (cap : Nat) (q : AttributeSet → Bool) (ms : List (AttributeSet × V)) :
    List (List V) :=
  ((fill attributeKeys cap ms).filter fun e => q e.1).map Prod.snd

/-- And of several collections together. -/
theorem pointValues_flatten {q : AttributeSet → Bool} (hq : attributeKeys.Respects q)
    {mss : List (List (AttributeSet × V))}
    (h : attributeKeys.classes (mss.flatten.map Prod.fst) ≤ cap ∨ q = fun _ => true) :
    (mss.flatMap (pointValues cap q)).flatten.Perm
      ((mss.flatten.filter fun e => q e.1).map Prod.snd) := by
  induction mss with
  | nil => exact .nil
  | cons ms mss ih =>
      rw [List.flatMap_cons, List.flatten_append, List.flatten_cons, List.filter_append,
        List.map_append]
      rw [List.flatten_cons] at h
      refine List.Perm.append ?_ (ih (h.imp ?_ id))
      · exact valuesOf_fill hq (h.imp (folded_of_sublist (List.sublist_append_left _ _)) id)
      · exact (Keys.classes_sublist ((List.sublist_append_right _ _).map _)).trans

section

variable {Totals : List V → P → Prop} {Agree : List P → List P → Prop} {Sound : P → Prop}

/-- The points of a collection stand for the values routed to them. -/
theorem PointLaws.totals_points (L : PointLaws agg Totals Agree Sound)
    {c : AggregationTemporality × List (AttributeSet × V)} {data : Collected P}
    (C : Covers agg cap c data) (q : AttributeSet → Bool) :
    List.Forall₂ Totals (pointValues cap q c.2) (pointsOf q data) := by
  have hfold := image_forall₂ (image_filter C.points q)
  have hne : ∀ e ∈ fill attributeKeys cap c.2, e.2 ≠ [] := ne_nil_fillFrom (by simp) c.2
  refine (List.forall₂_iff_zip.mpr ⟨hfold.length_eq, ?_⟩)
  intro values p hzip
  refine L.totals values p ?_ ((List.forall₂_iff_zip.mp hfold).2 hzip)
  obtain ⟨e, he, rfl⟩ := List.mem_map.mp (List.of_mem_zip hzip).1
  exact hne e (List.mem_of_mem_filter he)

/-- The delta points and the cumulative ones stand for the same values. -/
theorem PointLaws.delta_points (L : PointLaws agg Totals Agree Sound)
    {diag : Option MetricDrops} {ops : List (StorageOp V)} {s s' : Storage P}
    {out : List (Collected P)} {c : Collected P} {q : AttributeSet → Bool}
    (hdelta : Storage.run agg { maxCardinality := cap, diag } (ops ++ [.collect .delta]) =
      some (s, out))
    (hcumulative : Storage.run agg { maxCardinality := cap, diag }
      (recordsOnly ops ++ [.collect .cumulative]) = some (s', [c]))
    (hq : attributeKeys.Respects q)
    (h : attributeKeys.classes ((measurements ops).map Prod.fst) ≤ cap ∨ q = fun _ => true) :
    ∃ valuess, List.Forall₂ Totals valuess ((deltas out).flatMap (pointsOf q)) ∧
      List.Forall₂ Totals (pointValues cap q (measurements ops)) (pointsOf q c) ∧
      valuess.flatten.Perm (pointValues cap q (measurements ops)).flatten := by
  have hdeltas := (Holds.empty cap diag).run hdelta
  have hsingle := (Holds.empty cap diag).run hcumulative
  rw [covered_recordsOnly, List.nil_append] at hsingle
  obtain ⟨C, -⟩ := List.forall₂_cons.mp hsingle
  have hfiltered : List.Forall₂ (Covers agg cap)
      ((covered [] (ops ++ [.collect .delta])).filter fun c => c.1 = .delta) (deltas out) := by
    refine List.rel_filter ?_ hdeltas
    intro c data C
    simp only [C.temporality]
  have hpoints : List.Forall₂ Totals ((segments [] ops).flatMap (pointValues cap q))
      ((deltas out).flatMap (pointsOf q)) := by
    rw [← covered_deltas, List.flatMap_map]
    exact List.rel_flatMap hfiltered fun _ _ C => L.totals_points C q
  refine ⟨_, hpoints, L.totals_points C q, ?_⟩
  have hsegments := segments_flatten [] ops
  rw [List.nil_append] at hsegments
  refine (pointValues_flatten hq (by rw [hsegments]; exact h)).trans ?_
  rw [hsegments]
  exact (valuesOf_fill hq (h.imp (folded_of_sublist (List.Sublist.refl _)) id)).symm

/-- A set has at most one point. -/
theorem length_pointValues_le (cap : Nat) (a : AttributeSet) (ms : List (AttributeSet × V)) :
    (pointValues cap (attributeKeys.same a) ms).length ≤ 1 := by
  have hpairwise : ((fill attributeKeys cap ms).map Prod.fst).Pairwise
      fun a b => attributeKeys.same a b = false := pairwise_fillFrom List.Pairwise.nil ms
  unfold pointValues
  rw [filter_eq_find hpairwise]
  cases find attributeKeys (fill attributeKeys cap ms) a <;> simp

theorem PointLaws.conserves (L : PointLaws agg Totals Agree Sound) :
    Conserves agg Totals Agree Sound where
  delta_cumulative cap diag ops s s' out c q hdelta hcumulative hq h := by
    obtain ⟨valuess, hdeltas, hsingle, hperm⟩ := L.delta_points hdelta hcumulative hq h
    exact L.agree _ _ _ _ hdeltas hsingle hperm
  collected cap diag ops s out h data hdata := by
    have hruns := (Holds.empty cap diag).run h
    obtain ⟨c, -, C⟩ := exists_of_forall₂_right hruns hdata
    constructor
    · intro e he
      have hall := L.totals_points C fun _ => true
      have hmem : e.2 ∈ pointsOf (fun _ => true) data := by
        unfold pointsOf
        rw [List.filter_eq_self.mpr fun _ _ => rfl]
        exact List.mem_map_of_mem he
      obtain ⟨values, -, htotals⟩ := exists_of_forall₂_right hall hmem
      exact L.sound values e.2 htotals
    · have hlength : data.points.length = (fill attributeKeys cap c.2).length := by
        have hkeys := congrArg List.length (image_keys C.points)
        rwa [List.length_map, List.length_map] at hkeys
      rw [hlength]
      exact length_fill_le c.2
  own cap diag ops s out h := by
    refine ((Holds.empty cap diag).run h).imp ?_
    intro c data C hclasses a hgiven
    have hrouted : routedFrom attributeKeys cap [] c.2 = c.2 := (routed_of_classes hclasses).1
    have hfind := @find_fillFrom _ _ attributeKeys cap [] c.2 a
    rw [List.map_nil, hrouted] at hfind
    have hvalues : find attributeKeys (fill attributeKeys cap c.2) a =
        some (given attributeKeys a c.2) := by
      unfold fill
      cases hfound : find attributeKeys (fillFrom attributeKeys cap [] c.2) a with
      | none =>
          rw [hfound] at hfind
          exact absurd hfind.symm hgiven
      | some values =>
          rw [hfound] at hfind
          exact congrArg some hfind
    have hall := L.totals_points C (attributeKeys.same a)
    have hpairwise : ((fill attributeKeys cap c.2).map Prod.fst).Pairwise
        fun a b => attributeKeys.same a b = false := pairwise_fillFrom List.Pairwise.nil c.2
    unfold pointValues at hall
    rw [filter_eq_find hpairwise, hvalues] at hall
    obtain ⟨p, rest, htotals, hnil, heq⟩ := List.forall₂_cons_left_iff.mp hall
    cases hnil
    exact ⟨p, heq, htotals⟩
  recorded s s' v attrs h := by
    rw [Storage.record_finite] at h
    obtain ⟨points, hpoints, rfl⟩ := Option.map_eq_some_iff.mp h
    split
    · next hroom =>
      have hfolds : attributeKeys.folds s.maxCardinality (s.points.map Prod.fst)
          (.ofSpan attrs) = false := by
        rcases hroom with hhas | hroom
        · exact Keys.folds_of_has hhas
        · exact Keys.folds_of_room (by rwa [List.length_map])
      unfold Keys.route at hpoints
      rw [hfolds] at hpoints ⊢
      exact ⟨updated_of_upsert hpoints, rfl⟩
    · next hfull =>
      rw [not_or, not_lt, Bool.not_eq_true] at hfull
      have hfolds : attributeKeys.folds s.maxCardinality (s.points.map Prod.fst)
          (.ofSpan attrs) = true := by
        unfold Keys.folds
        rw [hfull.1, List.length_map]
        exact decide_eq_true hfull.2
      unfold Keys.route at hpoints
      rw [hfolds] at hpoints ⊢
      exact ⟨updated_of_upsert hpoints, rfl⟩
  counted cap ops s out h := by
    obtain ⟨d, hd, hcount, hnon⟩ := (Holds.empty cap (some {})).run_diag rfl h
    rw [hd]
    have hnil : folded attributeKeys cap ([] : List (AttributeSet × V)) = 0 := rfl
    rw [hnil, Nat.zero_add, Nat.add_zero] at hcount
    rw [Nat.zero_add] at hnon
    rw [← hcount, ← hnon]

end

/-! ### Runs that return -/

theorem Holds.record_returns
    (hreturns : ∀ values : List V, ∃ p, values.foldlM agg.update agg.new = some p)
    {since : List (AttributeSet × V)} {s : Storage P} (H : Holds agg cap since s) (v : V)
    (attrs : List KeyValue) : ∃ s', s.record agg (.finite v) attrs = some s' := by
  obtain ⟨points, hpoints⟩ :=
    image_returns hreturns (fill attributeKeys cap (since ++ [(.ofSpan attrs, v)]))
  rw [H.image_concat] at hpoints
  rw [Storage.record_finite, hpoints]
  exact ⟨_, rfl⟩

/-- A run returns if every update does. -/
theorem Holds.run_returns
    (hreturns : ∀ values : List V, ∃ p, values.foldlM agg.update agg.new = some p)
    {since : List (AttributeSet × V)} {s : Storage P} (H : Holds agg cap since s)
    (ops : List (StorageOp V)) : ∃ s' out, s.run agg ops = some (s', out) := by
  induction ops generalizing since s with
  | nil => exact ⟨s, [], rfl⟩
  | cons op ops ih =>
      cases op with
      | record value attrs =>
          cases value with
          | nonFinite => exact ih H.recordNonFinite
          | finite v =>
              obtain ⟨s₁, hrecord⟩ := H.record_returns hreturns v attrs
              obtain ⟨s', out, hrest⟩ := ih (H.record hrecord)
              refine ⟨s', out, ?_⟩
              rw [Storage.run, hrecord]
              exact hrest
      | collect temporality =>
          cases temporality with
          | cumulative =>
              obtain ⟨s', out, hrest⟩ := ih H
              exact ⟨s', _, Option.map_eq_some_iff.mpr ⟨_, hrest, rfl⟩⟩
          | delta =>
              obtain ⟨s', out, hrest⟩ := ih H.clear
              exact ⟨s', _, Option.map_eq_some_iff.mpr ⟨_, hrest, rfl⟩⟩

end Microtel.Metrics
