import Mathlib.Tactic

/-!
Tables in which a name may be repeated. An override takes the place of the first element
with its name and drops the others; an overlay overrides once for each element of the
list on top. Overlays compose: a list can be laid over another first or the two in turn.
-/

namespace Overrides

variable {α κ : Type} [DecidableEq κ] (name : α → κ)

def override : List α → α → List α
  | [], x => [x]
  | y :: l, x =>
      if name y = name x then x :: l.filter fun z => name z ≠ name x else y :: override l x

def overlay (base top : List α) : List α := top.foldl (override name) base

variable {name} {x y : α} {l : List α}

theorem overlay_cons (base : List α) (x : α) (top : List α) :
    overlay name base (x :: top) = overlay name (override name base x) top := rfl

theorem overlay_append (base top top' : List α) :
    overlay name base (top ++ top') = overlay name (overlay name base top) top' :=
  List.foldl_append

/-! ### One override -/

theorem override_nil (x : α) : override name [] x = [x] := rfl

theorem override_cons (y : α) (l : List α) (x : α) :
    override name (y :: l) x =
      if name y = name x then x :: l.filter fun z => name z ≠ name x else y :: override name l x :=
  rfl

theorem override_of_eq (h : name y = name x) :
    override name (y :: l) x = x :: l.filter fun z => name z ≠ name x := by
  rw [override_cons, if_pos h]

theorem override_of_ne (h : name y ≠ name x) :
    override name (y :: l) x = y :: override name l x := by
  rw [override_cons, if_neg h]

/-- What does not hold of the name's elements is not affected. -/
theorem filter_override {p : α → Bool} (h : ∀ z, name z = name x → p z = false) (l : List α) :
    (override name l x).filter p = l.filter p := by
  have hx : p x = false := h x rfl
  induction l with
  | nil => simp [override_nil, hx]
  | cons y l ih =>
      by_cases hyx : name y = name x
      · have hy : p y = false := h y hyx
        rw [override_of_eq hyx, List.filter_cons_of_neg (by simp [hx]),
          List.filter_cons_of_neg (by simp [hy]), List.filter_filter]
        apply List.filter_congr
        intro z hz
        by_cases hzx : name z = name x
        · simp [h z hzx]
        · simp [hzx]
      · rw [override_of_ne hyx, List.filter_cons, List.filter_cons, ih]

theorem filter_override_self (l : List α) :
    ((override name l x).filter fun z => name z = name x) = [x] := by
  induction l with
  | nil => simp [override_nil]
  | cons y l ih =>
      by_cases hyx : name y = name x
      · rw [override_of_eq hyx]
        simp [List.filter_filter]
      · rw [override_of_ne hyx, List.filter_cons_of_neg (by simp [hyx]), ih]

theorem mem_override_self (l : List α) : x ∈ override name l x := by
  have hmem : x ∈ (override name l x).filter fun z => name z = name x := by
    simp [filter_override_self]
  exact (List.mem_filter.mp hmem).1

/-- Dropping a name before or after an override with another one. -/
theorem filter_override_comm (h : name x ≠ name y) (l : List α) :
    ((override name l x).filter fun z => name z ≠ name y) =
      override name (l.filter fun z => name z ≠ name y) x := by
  induction l with
  | nil => simp [override_nil, h]
  | cons w l ih =>
      by_cases hwx : name w = name x
      · have hwy : name w ≠ name y := by rwa [hwx]
        rw [override_of_eq hwx, List.filter_cons_of_pos (by simp [h]),
          List.filter_cons_of_pos (by simp [hwy]), override_of_eq hwx, List.filter_filter,
          List.filter_filter]
        simp only [Bool.and_comm]
      · by_cases hwy : name w = name y
        · rw [override_of_ne hwx, List.filter_cons_of_neg (by simp [hwy]),
            List.filter_cons_of_neg (by simp [hwy]), ih]
        · rw [override_of_ne hwx, List.filter_cons_of_pos (by simp [hwy]),
            List.filter_cons_of_pos (by simp [hwy]), override_of_ne hwx, ih]

/-- The later of two overrides with one name decides. -/
theorem override_override (h : name x = name y) (l : List α) :
    override name (override name l x) y = override name l y := by
  induction l with
  | nil => rw [override_nil, override_of_eq h]; rfl
  | cons w l ih =>
      by_cases hwx : name w = name x
      · rw [override_of_eq hwx, override_of_eq h, override_of_eq (hwx.trans h), List.filter_filter]
        simp [h]
      · have hwy : name w ≠ name y := by rwa [← h]
        rw [override_of_ne hwx, override_of_ne hwy, ih, override_of_ne hwy]

/-- Overrides with two names commute once one of the names is there, for then only the
other can be appended. -/
theorem override_comm (h : name x ≠ name y) (hpresent : ∃ z ∈ l, name z = name y) :
    override name (override name l x) y = override name (override name l y) x := by
  induction l with
  | nil =>
      obtain ⟨z, hz, -⟩ := hpresent
      cases hz
  | cons w l ih =>
      by_cases hwx : name w = name x
      · have hwy : name w ≠ name y := by rwa [hwx]
        rw [override_of_eq hwx, override_of_ne h, override_of_ne hwy, override_of_eq hwx,
          filter_override_comm h.symm]
      · by_cases hwy : name w = name y
        · rw [override_of_ne hwx, override_of_eq hwy, override_of_eq hwy, override_of_ne h.symm,
            filter_override_comm h]
        · have hrest : ∃ z ∈ l, name z = name y := by
            obtain ⟨z, hz, hzy⟩ := hpresent
            rcases List.mem_cons.mp hz with rfl | hz
            · exact absurd hzy hwy
            · exact ⟨z, hz, hzy⟩
          rw [override_of_ne hwx, override_of_ne hwy, override_of_ne hwy, override_of_ne hwx,
            ih hrest]

/-! ### Overlays -/

theorem filter_overlay {p : α → Bool} (base top : List α)
    (h : ∀ x ∈ top, ∀ z, name z = name x → p z = false) :
    (overlay name base top).filter p = base.filter p := by
  induction top generalizing base with
  | nil => rfl
  | cons x top ih =>
      have hrest : ∀ y ∈ top, ∀ z, name z = name y → p z = false := fun y hy => h y (by simp [hy])
      rw [overlay_cons, ih _ hrest, filter_override (h x (by simp))]

/-- A name of the list on top is there once, as its last element of that name. -/
theorem filter_overlay_last (base before : List α) {after : List α}
    (h : ∀ z ∈ after, name z ≠ name x) :
    ((overlay name base (before ++ x :: after)).filter fun z => name z = name x) = [x] := by
  rw [overlay_append, overlay_cons, filter_overlay, filter_override_self]
  intro y hy z hz
  have hne : name z ≠ name x := by
    rw [hz]
    exact h y hy
  simpa using hne

theorem exists_last_named {k : κ} {l : List α} (h : ∃ z ∈ l, name z = k) :
    ∃ before x after, l = before ++ x :: after ∧ name x = k ∧ ∀ z ∈ after, name z ≠ k := by
  induction l with
  | nil =>
      obtain ⟨z, hz, -⟩ := h
      cases hz
  | cons y l ih =>
      by_cases hrest : ∃ z ∈ l, name z = k
      · obtain ⟨before, x, after, rfl, hx, hafter⟩ := ih hrest
        exact ⟨y :: before, x, after, rfl, hx, hafter⟩
      · obtain ⟨z, hz, hzk⟩ := h
        rcases List.mem_cons.mp hz with rfl | hz
        · refine ⟨[], z, l, rfl, hzk, ?_⟩
          intro w hw hwk
          exact hrest ⟨w, hw, hwk⟩
        · exact absurd ⟨z, hz, hzk⟩ hrest

/-- Once the name is there, what an overlay says about it can be said before. -/
theorem override_overlay_filter (base top : List α) (hpresent : ∃ z ∈ base, name z = name x) :
    override name (overlay name base top) x =
      overlay name (override name base x) (top.filter fun z => name z ≠ name x) := by
  induction top generalizing base with
  | nil => rfl
  | cons y top ih =>
      by_cases hyx : name y = name x
      · have hbase : ∃ z ∈ override name base y, name z = name x :=
          ⟨y, mem_override_self base, hyx⟩
        rw [overlay_cons, ih _ hbase, override_override hyx,
          List.filter_cons_of_neg (by simp [hyx])]
      · have hbase : ∃ z ∈ override name base y, name z = name x := by
          obtain ⟨z, hz, hzx⟩ := hpresent
          have hkept : z ∈ (override name base y).filter fun z => name z = name x := by
            rw [filter_override (by intro w hw; simp [hw, hyx])]
            exact List.mem_filter.mpr ⟨hz, by simpa using hzx⟩
          exact ⟨z, (List.mem_filter.mp hkept).1, hzx⟩
        rw [overlay_cons, ih _ hbase, override_comm hyx hpresent,
          List.filter_cons_of_pos (by simp [hyx]), overlay_cons]

/-- An override of the list on top overrides the whole. -/
theorem overlay_override (base top : List α) (x : α) :
    overlay name base (override name top x) = override name (overlay name base top) x := by
  induction top generalizing base with
  | nil => rfl
  | cons y top ih =>
      by_cases hyx : name y = name x
      · have hbase : ∃ z ∈ override name base y, name z = name x :=
          ⟨y, mem_override_self base, hyx⟩
        rw [override_of_eq hyx, overlay_cons, overlay_cons, override_overlay_filter _ _ hbase,
          override_override hyx]
      · rw [override_of_ne hyx, overlay_cons, overlay_cons, ih]

theorem overlay_assoc (base middle top : List α) :
    overlay name (overlay name base middle) top = overlay name base (overlay name middle top) := by
  induction top generalizing middle with
  | nil => rfl
  | cons x top ih => rw [overlay_cons, overlay_cons, ← overlay_override, ih]

end Overrides
