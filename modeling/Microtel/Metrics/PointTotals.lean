import Microtel.Metrics.Conservation

/-!
The points of the three storages that have a temporality: what each says of the values
it stands for, and that the delta collections of a run add up to the cumulative one.
-/

namespace Microtel.Metrics

open CappedMap IntBins

section

variable {V P M : Type}

/-- A quantity of a point that is a sum over its values. -/
theorem sum_map_of_totals [AddCommMonoid M] {Totals : List V → P → Prop} (f : P → M) (w : V → M)
    (h : ∀ values p, Totals values p → f p = (values.map w).sum) {valuess : List (List V)}
    {ps : List P} (hall : List.Forall₂ Totals valuess ps) :
    (ps.map f).sum = (valuess.flatten.map w).sum := by
  induction hall with
  | nil => rfl
  | cons hhead _ ih =>
      rw [List.map_cons, List.sum_cons, List.flatten_cons, List.map_append, List.sum_append, ih,
        h _ _ hhead]

/-- So it is the same for two lists of points of the same values. -/
theorem sum_map_agree [AddCommMonoid M] {Totals : List V → P → Prop} (f : P → M) (w : V → M)
    (h : ∀ values p, Totals values p → f p = (values.map w).sum) {valuess valuess' : List (List V)}
    {ps ps' : List P} (hall : List.Forall₂ Totals valuess ps)
    (hall' : List.Forall₂ Totals valuess' ps') (hperm : valuess.flatten.Perm valuess'.flatten) :
    (ps.map f).sum = (ps'.map f).sum := by
  rw [sum_map_of_totals f w h hall, sum_map_of_totals f w h hall', (hperm.map w).sum_eq]

theorem sum_map_range (n : Nat) (f : Nat → Nat) :
    ((List.range n).map f).sum = ∑ k ∈ Finset.range n, f k := rfl

theorem length_eq_sum_map (values : List V) : values.length = (values.map fun _ => 1).sum := by
  rw [List.map_const', List.sum_replicate, smul_eq_mul, mul_one]

theorem countP_eq_sum_map (q : V → Bool) (values : List V) :
    values.countP q = (values.map fun v => if q v then 1 else 0).sum := by
  induction values with
  | nil => rfl
  | cons v values ih =>
      rw [List.countP_cons, List.map_cons, List.sum_cons, ← ih, add_comm]

end

/-! ### Sums -/

section Sums

variable {V : Type} [AddCommMonoid V]

def SumTotals (values : List V) (p : V) : Prop := p = values.sum

def SumsAgree (ps ps' : List V) : Prop := ps.sum = ps'.sum

theorem sumLaws :
    PointLaws (SumStorage.aggregation (V := V)) SumTotals SumsAgree fun _ => True where
  totals values p _ h := by
    have hfold : values.foldlM SumStorage.aggregation.update SumStorage.aggregation.new =
        some (values.foldl (· + ·) 0) := List.foldlM_pure
    rw [hfold] at h
    rw [SumTotals, ← Option.some.inj h, List.sum_eq_foldl]
  agree valuess valuess' ps ps' hall hall' hperm := by
    have h := sum_map_agree (M := V) id id (fun values p h => by rw [List.map_id]; exact h) hall
      hall' hperm
    rwa [List.map_id, List.map_id] at h
  sound _ _ _ := trivial

end Sums

/-! ### Explicit-bucket histograms -/

section Histograms

variable {V : Type} [AddCommMonoid V] [LinearOrder V] (boundaries : List V)

/-- The count, the sum and the number of values in each bucket. -/
structure HistogramTotals (values : List V) (p : HistogramPoint V) : Prop where
  count : p.count = values.length
  sum : p.sum = values.sum
  size : p.bucketCounts.length = boundaries.length + 1
  buckets : ∀ i, p.bucketCounts[i]?.getD 0 =
    values.countP fun v => HistogramStorage.bucket boundaries v = i

structure HistogramsAgree (ps ps' : List (HistogramPoint V)) : Prop where
  count : (ps.map HistogramPoint.count).sum = (ps'.map HistogramPoint.count).sum
  sum : (ps.map HistogramPoint.sum).sum = (ps'.map HistogramPoint.sum).sum
  buckets : ∀ i : Nat, (ps.map fun p => p.bucketCounts[i]?.getD 0).sum =
    (ps'.map fun p => p.bucketCounts[i]?.getD 0).sum

variable {boundaries}

/-- One more value. -/
theorem HistogramTotals.update {values : List V} {p : HistogramPoint V} (v : V)
    (h : values ≠ [] ∧ HistogramTotals boundaries values p ∨
      values = [] ∧ p = { sum := 0, min := 0, max := 0 }) :
    HistogramTotals boundaries (values ++ [v]) (HistogramStorage.update boundaries p v) := by
  have hbucket : HistogramStorage.bucket boundaries v < boundaries.length + 1 :=
    Nat.lt_succ_of_le (BinarySearch.lowerBound_le _ _)
  rcases h with ⟨-, T⟩ | ⟨rfl, rfl⟩
  · have hne : p.bucketCounts ≠ [] := by
      intro hnil
      have hsize := T.size
      rw [hnil] at hsize
      cases hsize
    unfold HistogramStorage.update
    rw [if_neg hne]
    refine ⟨?_, ?_, ?_, ?_⟩
    · rw [List.length_append, List.length_singleton, ← T.count]
    · rw [List.sum_append, List.sum_singleton, ← T.sum]
    · rw [List.length_modify]
      exact T.size
    · intro i
      dsimp only
      rw [List.getElem?_modify, List.countP_append, ← T.buckets i]
      by_cases hi : HistogramStorage.bucket boundaries v = i
      · subst hi
        rw [List.getElem?_eq_getElem (by rw [T.size]; exact hbucket)]
        simp
      · simp [hi]
  · unfold HistogramStorage.update
    rw [if_pos rfl]
    refine ⟨rfl, ?_, ?_, ?_⟩
    · simp
    · simp
    · intro i
      dsimp only
      rw [List.getElem?_modify, List.getElem?_replicate]
      by_cases hi : HistogramStorage.bucket boundaries v = i
      · subst hi
        simp [hbucket]
      · by_cases hlt : i < boundaries.length + 1
        · simp [hi, hlt]
        · simp [hi, hlt]

theorem HistogramTotals.foldl (values : List V) (hne : values ≠ []) :
    HistogramTotals boundaries values
      (values.foldl (HistogramStorage.update boundaries) { sum := 0, min := 0, max := 0 }) := by
  induction values using List.reverseRecOn with
  | nil => exact absurd rfl hne
  | append_singleton values v ih =>
      rw [List.foldl_append]
      refine HistogramTotals.update v ?_
      by_cases hnil : values = []
      · right
        exact ⟨hnil, by rw [hnil]; rfl⟩
      · left
        exact ⟨hnil, ih hnil⟩

/-- The buckets hold every value. -/
theorem HistogramTotals.sound {values : List V} {p : HistogramPoint V}
    (T : HistogramTotals boundaries values p) : p.count = p.bucketCounts.sum := by
  have hbins := @sum_count (values.map fun v => (HistogramStorage.bucket boundaries v : Int)) 0
    (boundaries.length + 1) (by
      intro x hx
      obtain ⟨v, -, rfl⟩ := List.mem_map.mp hx
      have hle : HistogramStorage.bucket boundaries v ≤ boundaries.length :=
        BinarySearch.lowerBound_le _ _
      omega)
  have hcounts : p.bucketCounts = (List.range (boundaries.length + 1)).map fun i =>
      values.countP fun v => HistogramStorage.bucket boundaries v = i := by
    refine List.ext_getElem (by rw [List.length_map, List.length_range, T.size]) ?_
    intro i hi _
    have hget := T.buckets i
    rw [List.getElem?_eq_getElem hi, Option.getD_some] at hget
    rw [hget, List.getElem_map, List.getElem_range]
  rw [T.count, hcounts, sum_map_range, ← List.length_map, ← hbins]
  refine Finset.sum_congr rfl ?_
  intro k _
  rw [List.count_eq_countP, List.countP_map]
  refine List.countP_congr ?_
  intro v _
  simp

theorem histogramLaws (boundaries : List V) :
    PointLaws (HistogramStorage.aggregation boundaries) (HistogramTotals boundaries) HistogramsAgree
      fun p => p.count = p.bucketCounts.sum where
  totals values p hne h := by
    have hfold : values.foldlM (HistogramStorage.aggregation boundaries).update
        (HistogramStorage.aggregation boundaries).new =
        some (values.foldl (HistogramStorage.update boundaries) { sum := 0, min := 0, max := 0 }) :=
      List.foldlM_pure
    rw [hfold] at h
    rw [← Option.some.inj h]
    exact HistogramTotals.foldl values hne
  agree valuess valuess' ps ps' hall hall' hperm := by
    refine ⟨?_, ?_, ?_⟩
    · exact sum_map_agree HistogramPoint.count (fun _ => 1)
        (fun values p T => T.count.trans (length_eq_sum_map values)) hall hall' hperm
    · exact sum_map_agree HistogramPoint.sum id
        (fun values p T => by rw [List.map_id]; exact T.sum) hall hall' hperm
    · intro i
      exact sum_map_agree _ _ (fun values p T => (T.buckets i).trans (countP_eq_sum_map _ values))
        hall hall' hperm
  sound values p T := T.sound

end Histograms

/-! ### Exponential histograms -/

section ExpHistograms

variable {V : Type} [AddCommGroup V] [LinearOrder V]

/-- The count of a bucket after lowering the scale. -/
def ExpHistoPoint.bucketAt (scale : Int) (isNegative : Bool) (i : Int) (p : ExpHistoPoint V) :
    Nat :=
  (rescale (p.target isNegative) (p.scale - scale).toNat).bucket i

/-- The counters, and the buckets at the largest scale that fits. -/
structure ExpTotals (log2 : V → ℝ) (maxScale maxBuckets : Int) (values : List V)
    (p : ExpHistoPoint V) : Prop where
  count : p.count = values.length
  sum : p.sum = values.sum
  zeroCount : p.zeroCount = values.count 0
  positive : p.positive = countedBuckets (positives (mapIndex log2) p.scale values)
  negative : p.negative = countedBuckets (negatives (mapIndex log2) p.scale values)
  below : p.scale ≤ maxScale
  fits : 1 ≤ maxBuckets → width (positives (mapIndex log2) p.scale values) ≤ maxBuckets ∧
    width (negatives (mapIndex log2) p.scale values) ≤ maxBuckets
  largest : 1 ≤ maxBuckets → ∀ scale, p.scale < scale → scale ≤ maxScale →
    ¬ (width (positives (mapIndex log2) scale values) ≤ maxBuckets ∧
      width (negatives (mapIndex log2) scale values) ≤ maxBuckets)

/-- At every scale that none of the points is coarser than, the buckets add up as well. -/
structure ExpHistogramsAgree (ps ps' : List (ExpHistoPoint V)) : Prop where
  count : (ps.map ExpHistoPoint.count).sum = (ps'.map ExpHistoPoint.count).sum
  sum : (ps.map ExpHistoPoint.sum).sum = (ps'.map ExpHistoPoint.sum).sum
  zeroCount : (ps.map ExpHistoPoint.zeroCount).sum = (ps'.map ExpHistoPoint.zeroCount).sum
  buckets : ∀ scale : Int, (∀ p ∈ ps ++ ps', scale ≤ p.scale) → ∀ isNegative i,
    (ps.map (ExpHistoPoint.bucketAt scale isNegative i)).sum =
      (ps'.map (ExpHistoPoint.bucketAt scale isNegative i)).sum

def ExpSound (p : ExpHistoPoint V) : Prop :=
  p.count = p.positive.counts.sum + p.negative.counts.sum + p.zeroCount

section

variable {log2 : V → ℝ} {maxScale maxBuckets : Int} {values : List V} {p : ExpHistoPoint V}

theorem Seen.expTotals (S : Seen (mapIndex log2) maxScale maxBuckets values p) (hne : values ≠ [])
    (hsum : p.sum = values.sum) : ExpTotals log2 maxScale maxBuckets values p := by
  obtain ⟨down, C, hfewest⟩ := S.shape hne
  have hscale := C.scale
  have hpos := C.positive
  have hneg := C.negative
  have hhalves := halves_mapIndex log2 maxScale
  rw [hhalves.positives, ← hscale] at hpos
  rw [hhalves.negatives, ← hscale] at hneg
  refine ⟨S.count, hsum, S.zeroCount, hpos, hneg, by omega, ?_, ?_⟩
  · intro hmax
    have hfits := (hfewest hmax).fits
    rwa [Fits, hhalves.positives, hhalves.negatives, ← hscale] at hfits
  · intro hmax scale hlt hle hfits
    obtain ⟨d, hd⟩ : ∃ d : Nat, scale = maxScale - d := ⟨(maxScale - scale).toNat, by omega⟩
    refine (hfewest hmax).least d (by omega) ?_
    rwa [Fits, hhalves.positives, hhalves.negatives, ← hd]

theorem recordExp_sum {mapIndex : V → Int → Int} {v : V} {p' : ExpHistoPoint V}
    (h : recordExp mapIndex maxScale maxBuckets p v = some p') : p'.sum = p.sum + v := by
  rw [recordExp_eq] at h
  have hcounted : (counted maxScale p v).sum = p.sum + v := by
    unfold counted
    dsimp only
    split <;> rfl
  split at h
  · rw [← Option.some.inj h]
    exact hcounted
  · exact (insertValue_counters h).2.2.trans hcounted

theorem foldlM_recordExp_sum {mapIndex : V → Int → Int} {p' : ExpHistoPoint V} (values : List V)
    (h : values.foldlM (recordExp mapIndex maxScale maxBuckets) p = some p') :
    p'.sum = p.sum + values.sum := by
  induction values generalizing p with
  | nil =>
      obtain rfl := Option.some.inj h
      rw [List.sum_nil, add_zero]
  | cons v values ih =>
      rw [List.foldlM_cons] at h
      obtain ⟨p₁, hfirst, hrest⟩ := Option.bind_eq_some_iff.mp h
      rw [ih hrest, recordExp_sum hfirst, List.sum_cons, add_assoc]

/-- The values on one side. -/
def onSide (isNegative : Bool) (v : V) : Bool := if isNegative then v < 0 else 0 < v

theorem ExpTotals.bucketAt (T : ExpTotals log2 maxScale maxBuckets values p) {scale : Int}
    (hscale : scale ≤ p.scale) (isNegative : Bool) (i : Int) :
    p.bucketAt scale isNegative i =
      values.countP fun v => onSide isNegative v && decide (mapIndex log2 |v| scale = i) := by
  have hdown : p.scale - ((p.scale - scale).toNat : Int) = scale := by omega
  unfold ExpHistoPoint.bucketAt ExpHistoPoint.target
  cases isNegative with
  | false =>
      rw [if_neg (by simp), T.positive, rescale_countedBuckets,
        (halves_mapIndex log2 p.scale).positives, hdown, bucket_countedBuckets, positives,
        List.count_eq_countP, List.countP_map, List.countP_filter]
      refine List.countP_congr fun v _ => ?_
      simp [onSide, and_comm]
  | true =>
      rw [if_pos rfl, T.negative, rescale_countedBuckets,
        (halves_mapIndex log2 p.scale).negatives, hdown, bucket_countedBuckets, negatives,
        List.count_eq_countP, List.countP_map, List.countP_filter]
      refine List.countP_congr fun v _ => ?_
      simp [onSide, and_comm]

/-- The buckets hold as many as were counted. -/
theorem sum_countedBuckets (xs : List Int) : (countedBuckets xs).counts.sum = xs.length := by
  unfold countedBuckets
  dsimp only
  rw [sum_map_range]
  refine sum_count (lo xs) (width xs) ?_
  intro x hx
  have hne : xs ≠ [] := List.ne_nil_of_mem hx
  have hwidth := width_of_ne_nil hne
  have hlow := (lo_spec hne).2 x hx
  have hhigh := (hi_spec hne).2 x hx
  omega

theorem length_sides (values : List V) :
    values.length = (values.filter fun v => 0 < v).length + (values.filter fun v => v < 0).length +
      values.count 0 := by
  induction values with
  | nil => rfl
  | cons v values ih =>
      rw [List.length_cons, List.count_cons, ih]
      rcases lt_trichotomy v 0 with hneg | rfl | hpos
      · simp [hneg, hneg.le, hneg.ne]
        omega
      · simp
        omega
      · simp [hpos, hpos.le, hpos.ne']
        omega

theorem ExpTotals.sound (T : ExpTotals log2 maxScale maxBuckets values p) : ExpSound p := by
  unfold ExpSound
  rw [T.count, T.positive, T.negative, T.zeroCount, sum_countedBuckets, sum_countedBuckets,
    length_sides values, positives, negatives, List.length_map, List.length_map]

/-- More values, a lower scale. -/
theorem ExpTotals.scale_le {values' : List V} {p' : ExpHistoPoint V} (hmax : 1 ≤ maxBuckets)
    (T : ExpTotals log2 maxScale maxBuckets values p)
    (T' : ExpTotals log2 maxScale maxBuckets values' p') (h : values ⊆ values') :
    p'.scale ≤ p.scale := by
  by_contra hlt
  refine T.largest hmax p'.scale (by omega) T'.below ?_
  obtain ⟨hpos, hneg⟩ := T'.fits hmax
  have hfilter : ∀ q : V → Bool, values.filter q ⊆ values'.filter q := by
    intro q v hv
    rw [List.mem_filter] at hv ⊢
    exact ⟨h hv.1, hv.2⟩
  have hwidth := @width_subset (positives (mapIndex log2) p'.scale values) _
    (List.map_subset _ (hfilter _))
  have hwidth' := @width_subset (negatives (mapIndex log2) p'.scale values) _
    (List.map_subset _ (hfilter _))
  constructor
  · exact le_trans (by exact_mod_cast hwidth) hpos
  · exact le_trans (by exact_mod_cast hwidth') hneg

theorem forall₂_and_right {α β : Type} {R : α → β → Prop} {S : β → Prop} {xs : List α}
    {ys : List β} (h : List.Forall₂ R xs ys) (hS : ∀ y ∈ ys, S y) :
    List.Forall₂ (fun x y => R x y ∧ S y) xs ys := by
  induction h with
  | nil => exact .nil
  | cons hhead _ ih =>
      refine .cons ⟨hhead, hS _ List.mem_cons_self⟩ (ih ?_)
      exact fun y hy => hS y (List.mem_cons_of_mem _ hy)

end

theorem expLaws (log2 : V → ℝ) (maxScale maxBuckets : Int) :
    PointLaws (ExponentialHistogramStorage.aggregation (mapIndex log2) maxScale maxBuckets)
      (ExpTotals log2 maxScale maxBuckets) ExpHistogramsAgree ExpSound where
  totals values p hne h := by
    have S := Seen.new.foldlM (halves_mapIndex log2 maxScale) values h
    rw [List.append_nil] at S
    refine (S.perm (List.reverse_perm values)).expTotals hne ?_
    have hsum := foldlM_recordExp_sum values h
    rw [hsum]
    exact zero_add _
  agree valuess valuess' ps ps' hall hall' hperm := by
    refine ⟨?_, ?_, ?_, ?_⟩
    · exact sum_map_agree ExpHistoPoint.count (fun _ => 1)
        (fun values p T => T.count.trans (length_eq_sum_map values)) hall hall' hperm
    · exact sum_map_agree ExpHistoPoint.sum id
        (fun values p T => by rw [List.map_id]; exact T.sum) hall hall' hperm
    · exact sum_map_agree ExpHistoPoint.zeroCount _
        (fun values p T =>
          T.zeroCount.trans (List.count_eq_countP.trans (countP_eq_sum_map _ values)))
        hall hall' hperm
    · intro scale hscale isNegative i
      refine sum_map_agree _ _
        (fun values p T => (T.1.bucketAt T.2 isNegative i).trans (countP_eq_sum_map _ values))
        (forall₂_and_right hall ?_) (forall₂_and_right hall' ?_) hperm
      · exact fun p hp => hscale p (List.mem_append_left _ hp)
      · exact fun p hp => hscale p (List.mem_append_right _ hp)
  sound values p T := T.sound

/-- A delta point is never at a lower scale than the cumulative point of its set. -/
theorem exp_scale_le {log2 : V → ℝ} {maxScale maxBuckets : Int} (hmax : 1 ≤ maxBuckets)
    {cap : Nat} {diag : Option MetricDrops} {ops : List (StorageOp V)}
    {s s' : Storage (ExpHistoPoint V)} {out : List (Collected (ExpHistoPoint V))}
    {c : Collected (ExpHistoPoint V)} {a : AttributeSet} {p p' : ExpHistoPoint V}
    (hdelta : Storage.run (ExponentialHistogramStorage.aggregation (mapIndex log2) maxScale
      maxBuckets) { maxCardinality := cap, diag } (ops ++ [.collect .delta]) = some (s, out))
    (hcumulative : Storage.run (ExponentialHistogramStorage.aggregation (mapIndex log2) maxScale
      maxBuckets) { maxCardinality := cap, diag } (recordsOnly ops ++ [.collect .cumulative]) =
        some (s', [c]))
    (hclasses : attributeKeys.classes ((measurements ops).map Prod.fst) ≤ cap)
    (hp : p ∈ (deltas out).flatMap (pointsOf (attributeKeys.same a)))
    (hp' : p' ∈ pointsOf (attributeKeys.same a) c) : p'.scale ≤ p.scale := by
  obtain ⟨valuess, hdeltas, hsingle, hperm⟩ :=
    (expLaws log2 maxScale maxBuckets).delta_points hdelta hcumulative
      (attributeKeys.respects_same a) (.inl hclasses)
  obtain ⟨values, hvalues, T⟩ := exists_of_forall₂_right hdeltas hp
  obtain ⟨values', hvalues', T'⟩ := exists_of_forall₂_right hsingle hp'
  refine T.scale_le hmax T' ?_
  have hone := length_pointValues_le cap a (measurements ops)
  intro v hv
  have hmem := hperm.mem_iff.mp (List.mem_flatten.mpr ⟨values, hvalues, hv⟩)
  obtain ⟨values'', hvalues'', hv''⟩ := List.mem_flatten.mp hmem
  obtain rfl : values'' = values' := by
    match hlist : pointValues cap (attributeKeys.same a) (measurements ops), hvalues', hvalues'',
        hone with
    | [only], h', h'', _ =>
        rw [List.mem_singleton] at h' h''
        rw [h', h'']
  exact hv''

end ExpHistograms

/-! ### All three -/

/-- Every run of a storage returns. -/
def Returns {V P : Type} (agg : Aggregation V P) : Prop :=
  ∀ (cap : Nat) (diag : Option MetricDrops) (ops : List (StorageOp V)),
    ∃ s out, Storage.run agg { maxCardinality := cap, diag } ops = some (s, out)

/-- Sums of exact integers, and histograms over any exact arithmetic. -/
theorem storages_conserve {V : Type} [AddCommGroup V] [LinearOrder V] :
    (Conserves (SumStorage.aggregation (V := Int)) SumTotals SumsAgree (fun _ => True) ∧
      Returns (SumStorage.aggregation (V := Int))) ∧
    (∀ boundaries : List V,
      Conserves (HistogramStorage.aggregation boundaries) (HistogramTotals boundaries)
        HistogramsAgree (fun p => p.count = p.bucketCounts.sum) ∧
      Returns (HistogramStorage.aggregation boundaries)) ∧
    (∀ (log2 : V → ℝ) (maxScale maxBuckets : Int),
      Conserves (ExponentialHistogramStorage.aggregation (mapIndex log2) maxScale maxBuckets)
        (ExpTotals log2 maxScale maxBuckets) ExpHistogramsAgree ExpSound ∧
      (2 ≤ maxBuckets →
        Returns (ExponentialHistogramStorage.aggregation (mapIndex log2) maxScale maxBuckets)) ∧
      -- so the delta points can be brought to the scale of the cumulative one
      (1 ≤ maxBuckets → ∀ (cap : Nat) (diag : Option MetricDrops) (ops : List (StorageOp V))
        (s s' : Storage (ExpHistoPoint V)) (out : List (Collected (ExpHistoPoint V)))
        (c : Collected (ExpHistoPoint V)) (a : AttributeSet) (p p' : ExpHistoPoint V),
        Storage.run (ExponentialHistogramStorage.aggregation (mapIndex log2) maxScale maxBuckets)
          { maxCardinality := cap, diag } (ops ++ [.collect .delta]) = some (s, out) →
        Storage.run (ExponentialHistogramStorage.aggregation (mapIndex log2) maxScale maxBuckets)
          { maxCardinality := cap, diag } (recordsOnly ops ++ [.collect .cumulative]) =
            some (s', [c]) →
        attributeKeys.classes ((measurements ops).map Prod.fst) ≤ cap →
        p ∈ (deltas out).flatMap (pointsOf (attributeKeys.same a)) →
        p' ∈ pointsOf (attributeKeys.same a) c → p'.scale ≤ p.scale)) := by
  refine ⟨⟨sumLaws.conserves, ?_⟩, ?_, ?_⟩
  · intro cap diag ops
    exact (Holds.empty cap diag).run_returns (fun _ => ⟨_, List.foldlM_pure⟩) ops
  · intro boundaries
    refine ⟨(histogramLaws boundaries).conserves, ?_⟩
    intro cap diag ops
    exact (Holds.empty cap diag).run_returns (fun _ => ⟨_, List.foldlM_pure⟩) ops
  · intro log2 maxScale maxBuckets
    refine ⟨(expLaws log2 maxScale maxBuckets).conserves, ?_, ?_⟩
    · intro hmax cap diag ops
      refine (Holds.empty cap diag).run_returns ?_ ops
      exact Seen.new.foldlM_returns (halves_mapIndex log2 maxScale) hmax
    · intro hmax cap diag ops s s' out c a p p' hdelta hcumulative hclasses hp hp'
      exact exp_scale_le hmax hdelta hcumulative hclasses hp hp'

/-- A single attribute. -/
def flag (name : UInt8) : List KeyValue := [{ key := [name], value := .bool true }]

/-- With room for one set, the second set of a run is its own point after a clear, and
in the overflow point without one. -/
theorem delta_sums_differ :
    ¬ ∀ (cap : Nat) (ops : List (StorageOp Int)) (s s' : Storage Int) (out : List (Collected Int))
      (c : Collected Int) (a : AttributeSet),
      Storage.run SumStorage.aggregation { maxCardinality := cap } (ops ++ [.collect .delta]) =
        some (s, out) →
      Storage.run SumStorage.aggregation { maxCardinality := cap }
        (recordsOnly ops ++ [.collect .cumulative]) = some (s', [c]) →
      SumsAgree ((deltas out).flatMap (pointsOf (attributeKeys.same a)))
        (pointsOf (attributeKeys.same a) c) := by
  intro h
  let first : AttributeSet := .ofSpan (flag 1)
  let second : AttributeSet := .ofSpan (flag 2)
  have hbad := h 1 [.record (.finite 1) (flag 1), .collect .delta, .record (.finite 2) (flag 2)]
    { maxCardinality := 1 }
    { maxCardinality := 1, points := [(first, 1), (overflowAttributeSet, 2)] }
    [⟨.delta, [(first, 1)]⟩, ⟨.delta, [(second, 2)]⟩]
    ⟨.cumulative, [(first, 1), (overflowAttributeSet, 2)]⟩ second (by decide +kernel)
    (by decide +kernel)
  have hsums : ¬ ([2] : List Int).sum = ([] : List Int).sum := by decide
  exact hsums hbad

end Microtel.Metrics
