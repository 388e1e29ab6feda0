import Microtel.Api.Types
import Microtel.Lib.BinarySearch
import Microtel.Lib.CappedMap
import Mathlib.Data.List.Sort

/-!
The keys of the aggregation maps (`src/sdk/metric_attribute_set.cpp`) and the
allowlist of a view (`FilterAttrs` in `src/sdk/sdk_meter.cpp`). `m_hash` is left out:
it is the same for sets whose pairs are equal, so `operator==` does not depend on it.
-/

namespace Microtel.Metrics

/-! ### Equality of values -/

/-- The sign bit cleared. -/
def magnitude (bits : UInt64) : UInt64 := bits &&& 0x7FFFFFFFFFFFFFFF

def isNaN (bits : UInt64) : Bool := 0x7FF0000000000000 < magnitude bits

/-- `==` on two `double`s: a NaN is equal to nothing, and the two zeros are equal. -/
def doubleEqual (a b : UInt64) : Bool :=
  !isNaN a && !isNaN b && (a == b || magnitude a == 0 && magnitude b == 0)

/-- `std::ranges::equal`. -/
def equalBy {α : Type} (equal : α → α → Bool) : List α → List α → Bool
  | [], [] => true
  | x :: xs, y :: ys => equal x y && equalBy equal xs ys
  | _, _ => false

def valueEqual : AttributeValue → AttributeValue → Bool
  | .double a, .double b => doubleEqual a b
  | .doubles as, .doubles bs => equalBy doubleEqual as bs
  | a, b => a == b

def pairEqual (lhs rhs : KeyValue) : Bool := lhs.key == rhs.key && valueEqual lhs.value rhs.value

/-- A test that is symmetric and transitive, as `==` with NaN is. -/
structure PartialEquality {α : Type} (equal : α → α → Bool) : Prop where
  symm : ∀ a b, equal a b = true → equal b a = true
  trans : ∀ a b c, equal a b = true → equal b c = true → equal a c = true

theorem partialEquality_double : PartialEquality doubleEqual := by
  constructor
  · intro a b
    unfold doubleEqual
    simp only [Bool.and_eq_true, Bool.or_eq_true, beq_iff_eq]
    rintro ⟨⟨ha, hb⟩, h⟩
    refine ⟨⟨hb, ha⟩, ?_⟩
    rcases h with rfl | ⟨hza, hzb⟩
    · exact .inl rfl
    · exact .inr ⟨hzb, hza⟩
  · intro a b c
    unfold doubleEqual
    simp only [Bool.and_eq_true, Bool.or_eq_true, beq_iff_eq]
    rintro ⟨⟨ha, -⟩, hab⟩ ⟨⟨-, hc⟩, hbc⟩
    refine ⟨⟨ha, hc⟩, ?_⟩
    rcases hab with rfl | ⟨hza, hzb⟩
    · exact hbc
    · rcases hbc with rfl | ⟨-, hzc⟩
      · exact .inr ⟨hza, hzb⟩
      · exact .inr ⟨hza, hzc⟩

theorem PartialEquality.equalBy {α : Type} {equal : α → α → Bool} (h : PartialEquality equal) :
    PartialEquality (Metrics.equalBy equal) := by
  constructor
  · intro xs
    induction xs with
    | nil =>
        intro ys hxy
        cases ys with
        | nil => rfl
        | cons y ys => cases hxy
    | cons x xs ih =>
        intro ys hxy
        cases ys with
        | nil => cases hxy
        | cons y ys =>
            simp only [Metrics.equalBy, Bool.and_eq_true] at hxy ⊢
            exact ⟨h.symm x y hxy.1, ih ys hxy.2⟩
  · intro xs
    induction xs with
    | nil =>
        intro ys zs hxy hyz
        cases ys with
        | nil => exact hyz
        | cons y ys => cases hxy
    | cons x xs ih =>
        intro ys zs hxy hyz
        cases ys with
        | nil => cases hxy
        | cons y ys =>
            cases zs with
            | nil => cases hyz
            | cons z zs =>
                simp only [Metrics.equalBy, Bool.and_eq_true] at hxy hyz ⊢
                exact ⟨h.trans x y z hxy.1 hyz.1, ih ys zs hxy.2 hyz.2⟩

theorem partialEquality_value : PartialEquality valueEqual := by
  have hdoubles := partialEquality_double.equalBy
  constructor
  · intro a b hab
    unfold valueEqual at hab ⊢
    split at hab
    · exact partialEquality_double.symm _ _ hab
    · exact hdoubles.symm _ _ hab
    · next hd hds =>
      obtain rfl : a = b := beq_iff_eq.mp hab
      split
      · exact absurd rfl (hd _ _ rfl)
      · exact absurd rfl (hds _ _ rfl)
      · exact beq_self_eq_true _
  · intro a b c hab hbc
    cases b with
    | double v =>
        cases a <;> cases c <;> first | (simp [valueEqual] at hab hbc; done) | skip
        exact partialEquality_double.trans _ _ _ hab hbc
    | doubles v =>
        cases a <;> cases c <;> first | (simp [valueEqual] at hab hbc; done) | skip
        exact hdoubles.trans _ _ _ hab hbc
    | _ =>
        cases a <;> simp [valueEqual] at hab
        subst hab
        exact hbc

theorem partialEquality_pair : PartialEquality pairEqual := by
  constructor
  · intro a b hab
    simp only [pairEqual, Bool.and_eq_true, beq_iff_eq] at hab ⊢
    exact ⟨hab.1.symm, partialEquality_value.symm _ _ hab.2⟩
  · intro a b c hab hbc
    simp only [pairEqual, Bool.and_eq_true, beq_iff_eq] at hab hbc ⊢
    exact ⟨hab.1.trans hbc.1, partialEquality_value.trans _ _ _ hab.2 hbc.2⟩

/-! ### Attribute sets -/

/-- Attributes sorted by key. -/
structure AttributeSet where
  pairs : List KeyValue
  sorted : pairs.Pairwise fun a b => a.key ≤ b.key
  deriving DecidableEq, Repr

def keyOrder (a b : KeyValue) : Prop := a.key ≤ b.key

instance : DecidableRel keyOrder := fun a b => inferInstanceAs (Decidable (a.key ≤ b.key))

instance : Std.Total keyOrder := ⟨fun a b => List.le_total a.key b.key⟩

instance : IsTrans KeyValue keyOrder := ⟨fun _ _ _ hab hbc => List.le_trans hab hbc⟩

namespace AttributeSet

/-- The constructor from a span: a sorted copy. -/
def ofSpan (attrs : List KeyValue) : AttributeSet :=
  ⟨attrs.insertionSort keyOrder, List.pairwise_insertionSort keyOrder attrs⟩

def equal (lhs rhs : AttributeSet) : Bool := equalBy pairEqual lhs.pairs rhs.pairs

/-- The attributes with a key in a list. -/
def restrict (allowlist : List Bytes) (set : AttributeSet) : AttributeSet :=
  ⟨set.pairs.filter fun kv => kv.key ∈ allowlist, set.sorted.filter _⟩

end AttributeSet

def overflowAttributeSet : AttributeSet :=
  .ofSpan [{ key := "otel.metric.overflow".toList.map fun c => UInt8.ofNat c.toNat
             value := .bool true }]

/-- The keys of an aggregation map. -/
def attributeKeys : CappedMap.Keys AttributeSet where
  same := AttributeSet.equal
  symm a b := partialEquality_pair.equalBy.symm a.pairs b.pairs
  trans a b c := partialEquality_pair.equalBy.trans a.pairs b.pairs c.pairs
  overflow := overflowAttributeSet
  overflow_self := by decide +kernel

/-! ### The allowlist of a view -/

abbrev Allowlist := List Bytes

def filterAttrs (attrs : List KeyValue) (allowlist : Allowlist) : List KeyValue :=
  attrs.filter fun kv => BinarySearch.binarySearch (fun a b => decide (a < b)) allowlist kv.key

/-- `std::ranges::sort`. -/
def sortAllowlist (allowlist : Allowlist) : Allowlist := allowlist.insertionSort (· ≤ ·)

/-- The search of `FilterAttrs` finds the keys of the view. -/
theorem binarySearch_sortAllowlist (allowlist : Allowlist) (key : Bytes) :
    BinarySearch.binarySearch (fun a b => decide (a < b)) (sortAllowlist allowlist) key = true ↔
      key ∈ allowlist := by
  have htotal : Std.Total fun a b : Bytes => a ≤ b := ⟨List.le_total⟩
  have htrans : IsTrans Bytes fun a b => a ≤ b := ⟨fun _ _ _ => List.le_trans⟩
  have hsorted := List.pairwise_insertionSort (fun a b : Bytes => a ≤ b) allowlist
  rw [BinarySearch.binarySearch_iff key]
  · exact List.mem_insertionSort _
  · exact hsorted.imp fun hab => decide_eq_false (List.not_lt.mpr hab)
  · intro a b c hab hbc
    rw [decide_eq_false_iff_not, List.not_lt] at hab
    rw [decide_eq_true_eq] at hbc ⊢
    exact List.lt_of_le_of_lt hab hbc
  · intro a b hab hba
    rw [decide_eq_false_iff_not, List.not_lt] at hab hba
    exact List.le_antisymm hba hab
  · intro a
    exact decide_eq_false (List.lt_irrefl a)

theorem filterAttrs_sortAllowlist (attrs : List KeyValue) (allowlist : Allowlist) :
    filterAttrs attrs (sortAllowlist allowlist) = attrs.filter fun kv => kv.key ∈ allowlist := by
  refine List.filter_congr ?_
  intro kv _
  rw [Bool.eq_iff_iff, binarySearch_sortAllowlist, decide_eq_true_eq]

/-- The set of the filtered attributes is the restricted set. -/
theorem ofSpan_filter {attrs : List KeyValue} (hnodup : (attrs.map KeyValue.key).Nodup)
    (allowlist : Allowlist) :
    AttributeSet.ofSpan (attrs.filter fun kv => kv.key ∈ allowlist) =
      (AttributeSet.ofSpan attrs).restrict allowlist := by
  unfold AttributeSet.ofSpan AttributeSet.restrict
  congr 1
  have hperm : (attrs.insertionSort keyOrder).Perm attrs := List.perm_insertionSort _ _
  refine List.Perm.eq_of_pairwise ?_ (List.pairwise_insertionSort keyOrder _)
    ((List.pairwise_insertionSort keyOrder _).filter _)
    ((List.perm_insertionSort _ _).trans (hperm.filter _).symm)
  intro a b ha hb hab hba
  have hmem : ∀ kv ∈ (attrs.filter fun kv => kv.key ∈ allowlist).insertionSort keyOrder,
      kv ∈ attrs :=
    fun kv hkv => List.mem_of_mem_filter ((List.mem_insertionSort _).mp hkv)
  have hmem' : b ∈ attrs := hperm.mem_iff.mp (List.mem_of_mem_filter hb)
  exact List.inj_on_of_nodup_map hnodup (hmem a ha) hmem' (List.le_antisymm hab hba)

/-- Equal sets have equal restrictions. -/
theorem equal_restrict {a b : AttributeSet} (allowlist : Allowlist) (h : a.equal b = true) :
    (a.restrict allowlist).equal (b.restrict allowlist) = true := by
  obtain ⟨as, hsa⟩ := a
  obtain ⟨bs, hsb⟩ := b
  unfold AttributeSet.equal AttributeSet.restrict at *
  dsimp only at h ⊢
  clear hsa hsb
  induction as generalizing bs with
  | nil =>
      cases bs with
      | nil => rfl
      | cons b bs => cases h
  | cons a as ih =>
      cases bs with
      | nil => cases h
      | cons b bs =>
          simp only [equalBy, Bool.and_eq_true] at h
          have hkey : a.key = b.key := by
            have hpair := h.1
            simp only [pairEqual, Bool.and_eq_true, beq_iff_eq] at hpair
            exact hpair.1
          have hrest := ih bs h.2
          by_cases hin : b.key ∈ allowlist
          · simp [hkey, hin, equalBy, h.1, hrest]
          · simpa [hkey, hin] using hrest

end Microtel.Metrics
