import Microtel.Metrics.Views

/-!
The points of a counter over its cumulative collections. `Counter::Add` says that values
below zero are dropped, and the streams of a counter are flagged monotonic; the code adds
whatever it is given.
-/

namespace Microtel.Metrics

open CappedMap

/-- No point of a monotonic stream is lower in a later collection. -/
def NeverDecreases (out : List (List (MetricRecord Int))) : Prop :=
  out.Pairwise fun records records' =>
    List.Forall₂ (fun record record' => record.data.isMonotonic = true →
      ∀ e ∈ record.data.points, ∃ value, (e.1, value) ∈ record'.data.points ∧ e.2 ≤ value)
    records records'

/-- The history without the values below zero. -/
def nonNegative (history : List Addition) : List Addition := history.filter fun m => 0 ≤ m.1

/-- Each collection reports, set by set, the sums of the non-negative values. -/
def SumsNonNegative (cap : Nat) (specs : List StreamSpec) (ops : List InstrumentOp)
    (out : List (List (MetricRecord Int))) : Prop :=
  List.Forall₂ (fun history records =>
      List.Forall₂ (Reports true cap (nonNegative history)) specs records)
    (collectedAt [] ops) out

/-! ### Growing sums -/

/-- Adding values that are not negative lowers no sum. -/
theorem summed_append {cap : Nat} {ms more : List (AttributeSet × Int)}
    (hmore : ∀ m ∈ more, 0 ≤ m.2) {e : AttributeSet × Int} (he : e ∈ summed cap ms) :
    ∃ value, (e.1, value) ∈ summed cap (ms ++ more) ∧ e.2 ≤ value := by
  obtain ⟨⟨k, values⟩, hmem, rfl⟩ := List.mem_map.mp he
  obtain ⟨added, hadded, hsub⟩ := @mem_fillFrom _ _ attributeKeys cap _ _ _ hmem more
  unfold fill at hadded
  rw [← fillFrom_append] at hadded
  refine ⟨(values ++ added).sum, List.mem_map.mpr ⟨_, hadded, rfl⟩, ?_⟩
  have hnonneg : 0 ≤ added.sum := by
    refine List.sum_nonneg ?_
    intro v hv
    obtain ⟨m, hm, rfl⟩ := List.mem_map.mp (hsub hv)
    exact hmore m hm
  rw [List.sum_append]
  exact le_add_of_nonneg_right hnonneg

/-- Later collections see longer histories. -/
theorem collectedAt_grows (history : List Addition) (ops : List InstrumentOp) :
    (∀ later ∈ collectedAt history ops, history <+: later) ∧
      (collectedAt history ops).Pairwise (· <+: ·) := by
  induction ops generalizing history with
  | nil => exact ⟨by simp [collectedAt], .nil⟩
  | cons op ops ih =>
      cases op with
      | add value attrs =>
          obtain ⟨hall, hpairwise⟩ := ih (history ++ [(value, attrs)])
          refine ⟨?_, hpairwise⟩
          intro later hlater
          exact (List.prefix_append _ _).trans (hall later hlater)
      | collect temporality =>
          obtain ⟨hall, hpairwise⟩ := ih history
          refine ⟨?_, List.pairwise_cons.mpr ⟨hall, hpairwise⟩⟩
          intro later hlater
          rcases List.mem_cons.mp hlater with rfl | hlater
          · exact List.prefix_rfl
          · exact hall later hlater

/-- What holds between the inputs holds between the results. -/
theorem pairwise_of_forall₂ {α β : Type} {R : α → β → Prop} {S : α → α → Prop} {S' : β → β → Prop}
    {xs : List α} {ys : List β} (h : List.Forall₂ R xs ys) (hS : xs.Pairwise S)
    (hstep : ∀ x ∈ xs, ∀ x' ∈ xs, ∀ y y', S x x' → R x y → R x' y' → S' y y') : ys.Pairwise S' := by
  induction h with
  | nil => exact .nil
  | @cons x y xs ys hhead htail ih =>
      rw [List.pairwise_cons] at hS
      refine List.pairwise_cons.mpr ⟨?_, ih hS.2 ?_⟩
      · intro y' hy'
        obtain ⟨x', hx', hR⟩ := exists_of_forall₂_right htail hy'
        exact hstep x List.mem_cons_self x' (List.mem_cons_of_mem _ hx') y y' (hS.1 x' hx') hhead hR
      · intro a ha b hb
        exact hstep a (List.mem_cons_of_mem _ ha) b (List.mem_cons_of_mem _ hb)

theorem reports_grow {cap : Nat} {history later : List Addition} {specs : List StreamSpec}
    {records records' : List (MetricRecord Int)} (hgrows : history <+: later)
    (hnonneg : ∀ m ∈ later, 0 ≤ m.1)
    (R : List.Forall₂ (Reports true cap history) specs records)
    (R' : List.Forall₂ (Reports true cap later) specs records') :
    List.Forall₂ (fun record record' => record.data.isMonotonic = true →
      ∀ e ∈ record.data.points, ∃ value, (e.1, value) ∈ record'.data.points ∧ e.2 ≤ value)
    records records' := by
  obtain ⟨more, rfl⟩ := hgrows
  induction R generalizing records' with
  | nil =>
      cases R'
      exact .nil
  | cons hhead _ ih =>
      obtain ⟨record', records', hhead', hrest', rfl⟩ := List.forall₂_cons_left_iff.mp R'
      refine .cons ?_ (ih hrest')
      intro _ e he
      rw [hhead.points] at he
      rw [hhead'.points, received, List.map_append]
      refine summed_append ?_ he
      intro m hm
      obtain ⟨m', hm', rfl⟩ := List.mem_map.mp hm
      exact hnonneg m' (List.mem_append_right _ hm')

/-! ### The condition -/

/-- The total of the points tells whether a negative value was added. -/
theorem nonneg_of_summed_eq {cap : Nat} {allowlist : Option Allowlist} {history : List Addition}
    (h : summed cap (received allowlist history) =
      summed cap (received allowlist (nonNegative history))) : ∀ m ∈ history, 0 ≤ m.1 := by
  have hsum := congrArg (fun points => (points.map Prod.snd).sum) h
  rw [total_received, total_received] at hsum
  clear h
  have hle : ∀ history : List Addition,
      (history.map Prod.fst).sum ≤ ((nonNegative history).map Prod.fst).sum := by
    intro history
    induction history with
    | nil => exact le_refl _
    | cons m history ih =>
        unfold nonNegative at ih ⊢
        rw [List.filter_cons]
        split
        · rw [List.map_cons, List.map_cons, List.sum_cons, List.sum_cons]
          omega
        · next hneg =>
          rw [decide_eq_true_eq] at hneg
          rw [List.map_cons, List.sum_cons]
          omega
  induction history with
  | nil => simp
  | cons m history ih =>
      have hrest := hle history
      unfold nonNegative at ih hsum hrest
      rw [List.filter_cons] at hsum
      split at hsum
      · next hnonneg =>
        rw [decide_eq_true_eq] at hnonneg
        rw [List.map_cons, List.map_cons, List.sum_cons, List.sum_cons] at hsum
        intro m' hm'
        rcases List.mem_cons.mp hm' with rfl | hm'
        · exact hnonneg
        · exact ih (by omega) m' hm'
      · next hneg =>
        rw [decide_eq_true_eq] at hneg
        rw [List.map_cons, List.sum_cons] at hsum
        omega

/-- A counter keeps the promise of its interface exactly when no negative value reaches a
collection. -/
theorem counter_monotonic_iff (meter : MeterConfig) (name description unit : Bytes)
    (ops : List InstrumentOp) (hcumulative : .collect .delta ∉ ops) :
    ∃ slots out, runSum (createCounter meter name description unit) ops = some (slots, out) ∧
      (NeverDecreases out ∧
          SumsNonNegative meter.maxCardinality
            ((wantedStreams name meter.registry
              { name, kind := .counter, meterName := meter.meterName }).map specOf) ops out ↔
        wantedStreams name meter.registry
            { name, kind := .counter, meterName := meter.meterName } = [] ∨
          ∀ history ∈ collectedAt [] ops, ∀ m ∈ history, 0 ≤ m.1) := by
  obtain ⟨slots, out, hrun, -, R⟩ :=
    runSum_fed (createSum_fed .counter true meter name description unit) ops hcumulative
  refine ⟨slots, out, hrun, ?_⟩
  generalize hwanted : wantedStreams name meter.registry
    { name, kind := .counter, meterName := meter.meterName } = wanted at R ⊢
  constructor
  · rintro ⟨-, hsums⟩
    cases wanted with
    | nil => exact .inl rfl
    | cons want wanted =>
        right
        intro history hhistory
        have hboth := List.Forall₂.mp (fun _ _ hR hsum => And.intro hR hsum) R hsums
        obtain ⟨records, -, hreports, hsum⟩ := exists_of_forall₂_right hboth.flip hhistory
        obtain ⟨record, rest, hreport, -, rfl⟩ := List.forall₂_cons_left_iff.mp hreports
        have hfirst := (List.forall₂_cons.mp hsum).1
        exact nonneg_of_summed_eq (hreport.points.symm.trans hfirst.points)
  · rintro (rfl | hnonneg)
    · refine ⟨?_, ?_⟩
      · refine pairwise_of_forall₂ R (collectedAt_grows [] ops).2 ?_
        intro history _ later _ records records' _ hrecords hrecords'
        cases hrecords
        cases hrecords'
        exact .nil
      · refine R.imp ?_
        intro history records hrecords
        cases hrecords
        exact .nil
    · refine ⟨?_, ?_⟩
      · refine pairwise_of_forall₂ R (collectedAt_grows [] ops).2 ?_
        intro history _ later hlater records records' hgrows hrecords hrecords'
        exact reports_grow hgrows (hnonneg later hlater) hrecords hrecords'
      · refine ((List.forall₂_and_left _ _).mpr ⟨hnonneg, R⟩).imp ?_
        rintro history records ⟨hall, hrecords⟩
        have hsame : nonNegative history = history :=
          List.filter_eq_self.mpr fun m hm => decide_eq_true (hall m hm)
        rw [hsame]
        exact hrecords

/-- Two additions and a collection after each. -/
theorem counter_monotonic_iff_five_two :
    ∃ slots out, runSum (createCounter { meterName := [] } [99] [] [])
        [.add 5 [], .collect .cumulative, .add 2 (flag 1), .collect .cumulative] =
          some (slots, out) ∧
      NeverDecreases out := by
  obtain ⟨slots, out, hrun, hiff⟩ := counter_monotonic_iff { meterName := [] } [99] [] []
    [.add 5 [], .collect .cumulative, .add 2 (flag 1), .collect .cumulative] (by decide)
  exact ⟨slots, out, hrun, (hiff.mpr (.inr (by decide))).1⟩

/-- A negative value lowers the point of a stream that says it is monotonic. -/
theorem counter_decreases :
    ¬ ∀ (meter : MeterConfig) (name description unit : Bytes) (ops : List InstrumentOp)
      (slots : List StorageSlot) (out : List (List (MetricRecord Int))), .collect .delta ∉ ops →
      runSum (createCounter meter name description unit) ops = some (slots, out) →
      NeverDecreases out := by
  intro h
  let record (value : Int) : MetricRecord Int :=
    { name := [99], description := [], unit := []
      data := { temporality := .cumulative, isMonotonic := true, points := [(.ofSpan [], value)] } }
  have hbad := h { meterName := [] } [99] [] []
    [.add 5 [], .collect .cumulative, .add (-3) [], .collect .cumulative]
    [{ stream := {
         name := [99], description := [], unit := [], monotonic := true
         storage := { maxCardinality := 2000, points := [(.ofSpan [], 2)] } }
       allowlist := none }] [[record 5], [record 2]] (by decide) (by decide +kernel)
  have hfirst := (List.pairwise_cons.mp hbad).1 [record 2] List.mem_cons_self
  obtain ⟨value, hvalue, hle⟩ :=
    (List.forall₂_cons.mp hfirst).1 rfl (.ofSpan [], 5) List.mem_cons_self
  have htwo : value = 2 := (Prod.mk.inj (List.mem_singleton.mp hvalue)).2
  have hnot : ¬ (5 : Int) ≤ 2 := by decide
  exact hnot (htwo ▸ hle)

end Microtel.Metrics
