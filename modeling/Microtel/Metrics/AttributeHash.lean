import Microtel.Metrics.AttributeSet
import Microtel.Lib.KeyedList

/-!
`AttributeSet` with its hash, its constructor's sort and the borrowed-span test
(`src/sdk/metric_attribute_set.cpp`). The sort sees keys only: which of several pairs
with one key comes first is left open.
-/

namespace Microtel.Metrics

/-! ### Hashes -/

/-- `std::hash`, which gives doubles that are equal the same hash. -/
structure StdHash where
  string : Bytes → UInt64
  bool : Bool → UInt64
  int : Int64 → UInt64
  double : UInt64 → UInt64
  double_eq : ∀ a b, doubleEqual a b = true → double a = double b

def hashCombine (seed value : UInt64) : UInt64 :=
  seed ^^^ (value + (0x9e3779b97f4a7c15 : UInt64) + (seed <<< (6 : UInt64)) +
    (seed >>> (2 : UInt64)))

def hashArray {α : Type} (hash : α → UInt64) (vec : List α) : UInt64 :=
  vec.foldl (fun seed elem => hashCombine seed (hash elem)) 0

namespace StdHash

variable (H : StdHash)

def hashValue : AttributeValue → UInt64
  | .bool v => H.bool v
  | .int v => H.int v
  | .double bits => H.double bits
  | .string v => H.string v
  | .bools v => hashArray H.bool v
  | .ints v => hashArray H.int v
  | .doubles bits => hashArray H.double bits
  | .strings v => hashArray H.string v

def hashPair (pair : KeyValue) : UInt64 := hashCombine (H.string pair.key) (H.hashValue pair.value)

def hashPairs (attrs : List KeyValue) : UInt64 :=
  attrs.foldl (fun total pair => total + H.hashPair pair) 0

end StdHash

/-! ### The sort -/

/-- `std::ranges::sort` by key: the positions of the pairs in their new order, which
depends on the keys alone. -/
structure KeySort where
  order : List Bytes → List Nat
  perm : ∀ keys, (order keys).Perm (List.range keys.length)
  sorted : ∀ keys, ((order keys).map fun i => keys.getD i []).Pairwise (· ≤ ·)

/-- The sort that keeps the order of pairs with one key. -/
def KeySort.stable : KeySort where
  order keys := (List.range keys.length).insertionSort fun i j => keys.getD i [] ≤ keys.getD j []
  perm keys := List.perm_insertionSort _ _
  sorted keys := by
    have htotal : Std.Total fun i j => keys.getD i [] ≤ keys.getD j [] :=
      ⟨fun i j => List.le_total _ _⟩
    have htrans : IsTrans Nat fun i j => keys.getD i [] ≤ keys.getD j [] :=
      ⟨fun _ _ _ => List.le_trans⟩
    rw [List.pairwise_map]
    exact List.pairwise_insertionSort _ _

namespace KeySort

variable (S : KeySort)

def sort (attrs : List KeyValue) : List KeyValue :=
  (S.order (attrs.map KeyValue.key)).map fun i => attrs.getD i ⟨[], .bool false⟩

theorem map_getD_range {α : Type} (l : List α) (d : α) :
    (List.range l.length).map (fun i => l.getD i d) = l := by
  apply List.ext_getElem
  · simp
  · intro i hi hi'
    simp [hi']

theorem sort_perm (attrs : List KeyValue) : (S.sort attrs).Perm attrs := by
  have hperm := (S.perm (attrs.map KeyValue.key)).map fun i => attrs.getD i ⟨[], .bool false⟩
  rw [List.length_map, map_getD_range] at hperm
  exact hperm

theorem sort_keys (attrs : List KeyValue) :
    (S.sort attrs).map KeyValue.key =
      (S.order (attrs.map KeyValue.key)).map fun i => (attrs.map KeyValue.key).getD i [] := by
  unfold sort
  rw [List.map_map]
  refine List.map_congr_left fun i hi => ?_
  have hlt : i < attrs.length := by
    have hmem := (S.perm (attrs.map KeyValue.key)).mem_iff.mp hi
    rwa [List.mem_range, List.length_map] at hmem
  simp [List.getD_eq_getElem?_getD, hlt]

theorem sort_sorted (attrs : List KeyValue) :
    (S.sort attrs).Pairwise fun a b => a.key ≤ b.key := by
  have hsorted := S.sorted (attrs.map KeyValue.key)
  rwa [← sort_keys, List.pairwise_map] at hsorted

end KeySort

/-! ### Sets with their hash -/

/-- `AttributeSet`: `m_pairs` and `m_hash`. -/
structure HashedSet where
  pairs : List KeyValue
  hash : UInt64

namespace HashedSet

def ofSpan (S : KeySort) (H : StdHash) (attrs : List KeyValue) : HashedSet where
  pairs := S.sort attrs
  hash := H.hashPairs attrs

/-- `HashOf`. -/
def hashOf (H : StdHash) (attrs : List KeyValue) : UInt64 := H.hashPairs attrs

/-- `operator==`. -/
def equal (lhs rhs : HashedSet) : Bool :=
  if lhs.hash ≠ rhs.hash ∨ lhs.pairs.length ≠ rhs.pairs.length then false
  else equalBy pairEqual lhs.pairs rhs.pairs

def matchesSpan (set : HashedSet) (attrs : List KeyValue) : Bool :=
  if set.pairs.length ≠ attrs.length then false
  else
    set.pairs.all fun mine =>
      match KeyedList.find KeyValue.key attrs mine.key with
      | none => false
      | some found => valueEqual found.value mine.value

end HashedSet

/-! ### Equality and hashes -/

theorem equalBy_iff {α : Type} (equal : α → α → Bool) (xs ys : List α) :
    equalBy equal xs ys = true ↔ List.Forall₂ (fun x y => equal x y = true) xs ys := by
  induction xs generalizing ys with
  | nil =>
      cases ys with
      | nil => simp [equalBy]
      | cons y ys => simp [equalBy]
  | cons x xs ih =>
      cases ys with
      | nil => simp [equalBy]
      | cons y ys => simp [equalBy, ih]

/-- No NaN in a value. -/
def noNaN : AttributeValue → Bool
  | .double bits => !isNaN bits
  | .doubles bits => bits.all fun b => !isNaN b
  | _ => true

def NoNaN (attrs : List KeyValue) : Prop := ∀ kv ∈ attrs, noNaN kv.value = true

instance (attrs : List KeyValue) : Decidable (NoNaN attrs) :=
  inferInstanceAs (Decidable (∀ _ ∈ _, _))

theorem valueEqual_self {value : AttributeValue} (h : noNaN value = true) :
    valueEqual value value = true := by
  have hdouble : ∀ b, (!isNaN b) = true → doubleEqual b b = true := by
    intro b hb
    simp [doubleEqual, hb]
  cases value with
  | double bits => exact hdouble bits h
  | doubles bits =>
      refine (equalBy_iff _ _ _).mpr (List.forall₂_same.mpr fun b hb => hdouble b ?_)
      exact List.all_eq_true.mp h b hb
  | bool | int | string | bools | ints | strings => simp [valueEqual]

theorem equalBy_pair_self {attrs : List KeyValue} (h : NoNaN attrs) :
    equalBy pairEqual attrs attrs = true := by
  refine (equalBy_iff _ _ _).mpr (List.forall₂_same.mpr fun kv hkv => ?_)
  simp [pairEqual, valueEqual_self (h kv hkv)]

namespace StdHash

variable (H : StdHash)

theorem hashArray_congr {α : Type} {hash : α → UInt64} {same : α → α → Bool}
    (hhash : ∀ a b, same a b = true → hash a = hash b) {xs ys : List α}
    (h : equalBy same xs ys = true) : hashArray hash xs = hashArray hash ys := by
  have hmap : xs.map hash = ys.map hash := by
    rw [← List.forall₂_eq_eq_eq, List.forall₂_map_left_iff, List.forall₂_map_right_iff]
    exact ((equalBy_iff _ _ _).mp h).imp fun a b hab => hhash a b hab
  have hfold : ∀ zs : List α,
      hashArray hash zs = (zs.map hash).foldl hashCombine 0 := fun zs => by
    rw [hashArray, List.foldl_map]
  rw [hfold, hfold, hmap]

theorem hashValue_congr {a b : AttributeValue} (h : valueEqual a b = true) :
    H.hashValue a = H.hashValue b := by
  unfold valueEqual at h
  split at h
  · exact H.double_eq _ _ h
  · exact hashArray_congr H.double_eq h
  · rw [beq_iff_eq.mp h]

theorem hashPair_congr {a b : KeyValue} (h : pairEqual a b = true) :
    H.hashPair a = H.hashPair b := by
  simp only [pairEqual, Bool.and_eq_true, beq_iff_eq] at h
  rw [hashPair, hashPair, h.1, H.hashValue_congr h.2]

theorem hashPairs_congr {as bs : List KeyValue} (h : equalBy pairEqual as bs = true) :
    H.hashPairs as = H.hashPairs bs := by
  have hmap : as.map H.hashPair = bs.map H.hashPair := by
    rw [← List.forall₂_eq_eq_eq, List.forall₂_map_left_iff, List.forall₂_map_right_iff]
    exact ((equalBy_iff _ _ _).mp h).imp fun a b hab => H.hashPair_congr hab
  have hfold : ∀ cs : List KeyValue,
      H.hashPairs cs = (cs.map H.hashPair).foldl (· + ·) 0 := fun cs => by
    rw [hashPairs, List.foldl_map]
  rw [hfold, hfold, hmap]

/-- The sum does not see the order. -/
theorem hashPairs_perm {as bs : List KeyValue} (h : as.Perm bs) :
    H.hashPairs as = H.hashPairs bs := by
  refine h.foldl_eq' ?_ 0
  intro a _ b _ total
  rw [UInt64.add_assoc, UInt64.add_comm (H.hashPair a), ← UInt64.add_assoc]

end StdHash

section Sets

variable (S : KeySort) (H : StdHash) {a b : List KeyValue}

/-- Sets whose pairs are equal have equal hashes. -/
theorem equal_ofSpan_iff : (HashedSet.ofSpan S H a).equal (HashedSet.ofSpan S H b) = true ↔
    equalBy pairEqual (S.sort a) (S.sort b) = true := by
  unfold HashedSet.equal HashedSet.ofSpan
  dsimp only
  constructor
  · intro h
    split at h
    · cases h
    · exact h
  · intro h
    have hhash : H.hashPairs a = H.hashPairs b := by
      rw [← H.hashPairs_perm (S.sort_perm a), ← H.hashPairs_perm (S.sort_perm b),
        H.hashPairs_congr h]
    have hlength : (S.sort a).length = (S.sort b).length := ((equalBy_iff _ _ _).mp h).length_eq
    rw [if_neg (by simp [hhash, hlength])]
    exact h

theorem HashedSet.equal_iff (x y : HashedSet) : x.equal y = true ↔
    x.hash = y.hash ∧ equalBy pairEqual x.pairs y.pairs = true := by
  unfold HashedSet.equal
  by_cases hhash : x.hash = y.hash
  · by_cases hlength : x.pairs.length = y.pairs.length
    · simp [hhash, hlength]
    · have hpairs : equalBy pairEqual x.pairs y.pairs ≠ true :=
        fun h => hlength ((equalBy_iff _ _ _).mp h).length_eq
      simp [hlength, hpairs]
  · simp [hhash]

/-- Equal sets are equal to the same sets. -/
theorem HashedSet.equal_congr {x y : HashedSet} (h : x.equal y = true) (z : HashedSet) :
    x.equal z = y.equal z := by
  have P := partialEquality_pair.equalBy
  rw [HashedSet.equal_iff] at h
  rw [Bool.eq_iff_iff, HashedSet.equal_iff, HashedSet.equal_iff]
  constructor
  · rintro ⟨hhash, hpairs⟩
    exact ⟨h.1.symm.trans hhash, P.trans _ _ _ (P.symm _ _ h.2) hpairs⟩
  · rintro ⟨hhash, hpairs⟩
    exact ⟨h.1.trans hhash, P.trans _ _ _ h.2 hpairs⟩

/-! ### Lists that repeat no key -/

section Distinct

variable (hdistinct : (a.map KeyValue.key).Nodup)

include hdistinct

/-- The sort leaves no choice. -/
theorem sort_eq_of_perm (hperm : b.Perm a) : S.sort a = S.sort b := by
  refine List.Perm.eq_of_pairwise ?_ (S.sort_sorted a) (S.sort_sorted b)
    ((S.sort_perm a).trans (hperm.symm.trans (S.sort_perm b).symm))
  intro x y hx hy hxy hyx
  have hx' : x ∈ a := (S.sort_perm a).mem_iff.mp hx
  have hy' : y ∈ a := hperm.mem_iff.mp ((S.sort_perm b).mem_iff.mp hy)
  exact List.inj_on_of_nodup_map hdistinct hx' hy' (List.le_antisymm hxy hyx)

end Distinct

/-- The first of the pairs with a key, in `b`, is equal to the pair with that key. -/
def FindsEach (a b : List KeyValue) : Prop :=
  ∀ mine ∈ a, ∃ found, KeyedList.find KeyValue.key b mine.key = some found ∧
    valueEqual found.value mine.value = true

theorem matchesSpan_iff : (HashedSet.ofSpan S H a).matchesSpan b = true ↔
    a.length = b.length ∧ FindsEach a b := by
  have hlength : (S.sort a).length = a.length := (S.sort_perm a).length_eq
  unfold HashedSet.matchesSpan HashedSet.ofSpan
  dsimp only
  rw [hlength]
  by_cases hab : a.length = b.length
  · rw [if_neg (not_not_intro hab), List.all_eq_true]
    constructor
    · intro hall
      refine ⟨hab, fun mine hmine => ?_⟩
      have hfound := hall mine ((S.sort_perm a).mem_iff.mpr hmine)
      cases hfind : KeyedList.find KeyValue.key b mine.key with
      | none => simp [hfind] at hfound
      | some found =>
          rw [hfind] at hfound
          exact ⟨found, rfl, hfound⟩
    · rintro ⟨-, hfinds⟩ mine hmine
      obtain ⟨found, hfind, hvalue⟩ := hfinds mine ((S.sort_perm a).mem_iff.mp hmine)
      rw [hfind]
      exact hvalue
  · rw [if_pos hab]
    simp [hab]

/-- Lists of pairs with the same keys in the same order, and equal values under a key. -/
theorem equalBy_pair_of_keys {as bs : List KeyValue}
    (hkeys : as.map KeyValue.key = bs.map KeyValue.key)
    (hvalues : ∀ x ∈ as, ∀ y ∈ bs, x.key = y.key → valueEqual x.value y.value = true) :
    equalBy pairEqual as bs = true := by
  induction as generalizing bs with
  | nil =>
      cases bs with
      | nil => rfl
      | cons y bs => cases hkeys
  | cons x as ih =>
      cases bs with
      | nil => cases hkeys
      | cons y bs =>
          rw [List.map_cons, List.map_cons, List.cons.injEq] at hkeys
          have hfirst := hvalues x List.mem_cons_self y List.mem_cons_self hkeys.1
          have hrest := ih hkeys.2 fun x' hx' y' hy' =>
            hvalues x' (List.mem_cons_of_mem x hx') y' (List.mem_cons_of_mem y hy')
          simp [equalBy, pairEqual, hkeys.1, hfirst, hrest]

theorem keys_of_equalBy {as bs : List KeyValue} (h : equalBy pairEqual as bs = true) :
    as.map KeyValue.key = bs.map KeyValue.key := by
  rw [← List.forall₂_eq_eq_eq, List.forall₂_map_left_iff, List.forall₂_map_right_iff]
  refine ((equalBy_iff _ _ _).mp h).imp fun x y hxy => ?_
  simp only [pairEqual, Bool.and_eq_true, beq_iff_eq] at hxy
  exact hxy.1

/-- Equal sets come from lists with the same keys. -/
theorem keys_perm_of_equal (h : equalBy pairEqual (S.sort a) (S.sort b) = true) :
    (a.map KeyValue.key).Perm (b.map KeyValue.key) := by
  have hsorted := keys_of_equalBy h
  have ha := (S.sort_perm a).map KeyValue.key
  have hb := (S.sort_perm b).map KeyValue.key
  rw [hsorted] at ha
  exact ha.symm.trans hb

/-- Where no key repeats, a list that has them all has them in some order. -/
theorem keys_perm_of_findsEach (hdistinct : (a.map KeyValue.key).Nodup)
    (hlength : a.length = b.length)
    (hfinds : FindsEach a b) : (a.map KeyValue.key).Perm (b.map KeyValue.key) := by
  have hsubset : a.map KeyValue.key ⊆ b.map KeyValue.key := by
    intro key hkey
    obtain ⟨mine, hmine, rfl⟩ := List.mem_map.mp hkey
    obtain ⟨found, hfind, -⟩ := hfinds mine hmine
    rw [← KeyedList.find_key hfind]
    exact List.mem_map_of_mem (KeyedList.find_mem hfind)
  have hsubperm := List.subperm_of_subset hdistinct hsubset
  refine hsubperm.perm_of_length_le ?_
  rw [List.length_map, List.length_map, hlength]

theorem sort_keys_eq_of_perm (hperm : (a.map KeyValue.key).Perm (b.map KeyValue.key)) :
    (S.sort a).map KeyValue.key = (S.sort b).map KeyValue.key := by
  have hantisymm : ∀ x y : Bytes, x ∈ (S.sort a).map KeyValue.key →
      y ∈ (S.sort b).map KeyValue.key → x ≤ y → y ≤ x → x = y :=
    fun _ _ _ _ hxy hyx => List.le_antisymm hxy hyx
  refine List.Perm.eq_of_pairwise hantisymm ?_ ?_ ?_
  · rw [List.pairwise_map]
    exact S.sort_sorted a
  · rw [List.pairwise_map]
    exact S.sort_sorted b
  · exact ((S.sort_perm a).map _).trans (hperm.trans ((S.sort_perm b).map _).symm)

theorem exists_of_equalBy {as bs : List KeyValue} (h : equalBy pairEqual as bs = true)
    {x : KeyValue} (hx : x ∈ as) : ∃ y ∈ bs, pairEqual x y = true := by
  have hpairs := (equalBy_iff _ _ _).mp h
  induction hpairs with
  | nil => cases hx
  | cons hfirst hrest ih =>
      rcases List.mem_cons.mp hx with rfl | hx
      · exact ⟨_, List.mem_cons_self, hfirst⟩
      · obtain ⟨y, hy, hxy⟩ := ih ((equalBy_iff _ _ _).mpr hrest) hx
        exact ⟨y, List.mem_cons_of_mem _ hy, hxy⟩

/-- Where no key repeats, the borrowed-span test is equality. -/
theorem matchesSpan_iff_equal (hdistinct : (a.map KeyValue.key).Nodup) :
    (HashedSet.ofSpan S H a).matchesSpan b = true ↔
      (HashedSet.ofSpan S H a).equal (HashedSet.ofSpan S H b) = true := by
  rw [matchesSpan_iff, equal_ofSpan_iff]
  constructor
  · rintro ⟨hlength, hfinds⟩
    have hperm := keys_perm_of_findsEach hdistinct hlength hfinds
    have hdistinct' : (b.map KeyValue.key).Nodup := hperm.nodup_iff.mp hdistinct
    refine equalBy_pair_of_keys (sort_keys_eq_of_perm S hperm) fun x hx y hy hkey => ?_
    obtain ⟨found, hfind, hvalue⟩ := hfinds x ((S.sort_perm a).mem_iff.mp hx)
    have hy' : KeyedList.find KeyValue.key b y.key = some y :=
      KeyedList.find_of_mem hdistinct' ((S.sort_perm b).mem_iff.mp hy)
    rw [hkey, hy', Option.some.injEq] at hfind
    rw [hfind]
    exact partialEquality_value.symm _ _ hvalue
  · intro h
    have hperm := keys_perm_of_equal S h
    have hdistinct' : (b.map KeyValue.key).Nodup := hperm.nodup_iff.mp hdistinct
    have hlength := hperm.length_eq
    rw [List.length_map, List.length_map] at hlength
    refine ⟨hlength, fun mine hmine => ?_⟩
    obtain ⟨found, hfound, hpair⟩ := exists_of_equalBy h ((S.sort_perm a).mem_iff.mpr hmine)
    simp only [pairEqual, Bool.and_eq_true, beq_iff_eq] at hpair
    refine ⟨found, ?_, partialEquality_value.symm _ _ hpair.2⟩
    rw [hpair.1]
    exact KeyedList.find_of_mem hdistinct' ((S.sort_perm b).mem_iff.mp hfound)

end Sets

/-! ### Order -/

/-- What "order-insensitive" says of two lists: that their order does not matter to the set,
to its hashes and to the series it is found under, and that the borrowed-span test is
equality. -/
structure OrderInsensitive (S : KeySort) (H : StdHash) (a b : List KeyValue) : Prop where
  set : b.Perm a → (HashedSet.ofSpan S H a).equal (HashedSet.ofSpan S H b) = true
  hash : b.Perm a → (HashedSet.ofSpan S H a).hash = (HashedSet.ofSpan S H b).hash
  hashOf : b.Perm a → HashedSet.hashOf H a = HashedSet.hashOf H b
  series : b.Perm a → ∀ index : List HashedSet,
    index.find? (HashedSet.ofSpan S H a).equal = index.find? (HashedSet.ofSpan S H b).equal
  borrowed : (HashedSet.ofSpan S H a).matchesSpan b = true ↔
    (HashedSet.ofSpan S H a).equal (HashedSet.ofSpan S H b) = true

section Order

variable (S : KeySort) (H : StdHash) {a b : List KeyValue}

theorem orderInsensitive_of_nodup (ha : NoNaN a) (hdistinct : (a.map KeyValue.key).Nodup) :
    OrderInsensitive S H a b := by
  have hset : b.Perm a → (HashedSet.ofSpan S H a).equal (HashedSet.ofSpan S H b) = true := by
    intro hperm
    rw [equal_ofSpan_iff, ← sort_eq_of_perm S hdistinct hperm]
    exact equalBy_pair_self fun kv hkv => ha kv ((S.sort_perm a).mem_iff.mp hkv)
  constructor
  · exact hset
  · exact fun hperm => (H.hashPairs_perm hperm).symm
  · exact fun hperm => (H.hashPairs_perm hperm).symm
  · intro hperm index
    have hsame : (HashedSet.ofSpan S H a).equal = (HashedSet.ofSpan S H b).equal :=
      funext (HashedSet.equal_congr (hset hperm))
    rw [hsame]
  · exact matchesSpan_iff_equal S H hdistinct

/-- A pair that comes after another one with its key is never looked at. -/
theorem find_shadowed {before after : List KeyValue} {shadowed other : KeyValue} {key : Bytes}
    (hshadowed : shadowed.key ∈ before.map KeyValue.key) (hother : other.key ≠ key) :
    KeyedList.find KeyValue.key (before ++ other :: after) key =
      KeyedList.find KeyValue.key (before ++ shadowed :: after) key := by
  unfold KeyedList.find
  rw [List.find?_append, List.find?_append]
  by_cases hkey : shadowed.key = key
  · have hfirst : (before.find? fun x => decide (x.key = key)).isSome := by
      obtain ⟨first, hmem, hfirst⟩ := List.mem_map.mp hshadowed
      rw [List.find?_isSome]
      exact ⟨first, hmem, by simp [hfirst, hkey]⟩
    rw [Option.or_of_isSome hfirst, Option.or_of_isSome hfirst]
  · simp [hother, hkey]

/-- With a key that repeats: the span with a new key in place of the shadowed one passes the
borrowed-span test, as each pair of the set is still found. -/
theorem findsEach_shadowed {before after : List KeyValue} {shadowed other : KeyValue}
    (hshadowed : shadowed.key ∈ before.map KeyValue.key)
    (hother : other.key ∉ (before ++ shadowed :: after).map KeyValue.key)
    (hfinds : FindsEach (before ++ shadowed :: after) (before ++ shadowed :: after)) :
    FindsEach (before ++ shadowed :: after) (before ++ other :: after) := by
  intro mine hmine
  obtain ⟨found, hfind, hvalue⟩ := hfinds mine hmine
  have hne : other.key ≠ mine.key := fun heq => hother (heq ▸ List.mem_map_of_mem hmine)
  rw [find_shadowed hshadowed hne]
  exact ⟨found, hfind, hvalue⟩

theorem exists_shadowed (hrepeats : ¬ (a.map KeyValue.key).Nodup) :
    ∃ before shadowed after, a = before ++ shadowed :: after ∧
      shadowed.key ∈ before.map KeyValue.key := by
  induction a using List.reverseRecOn with
  | nil => exact absurd List.nodup_nil hrepeats
  | append_singleton l last ih =>
      by_cases hlast : last.key ∈ l.map KeyValue.key
      · exact ⟨l, last, [], rfl, hlast⟩
      · have hrepeats' : ¬ (l.map KeyValue.key).Nodup := by
          intro hl
          refine hrepeats ?_
          rw [List.map_append, List.map_singleton, List.nodup_append_comm]
          exact List.nodup_cons.mpr ⟨hlast, hl⟩
        obtain ⟨before, shadowed, after, rfl, hshadowed⟩ := ih hrepeats'
        exact ⟨before, shadowed, after ++ [last], by simp, hshadowed⟩

/-- A set is insensitive to order where its list repeats no key, and only there. -/
theorem orderInsensitive_iff (a : List KeyValue) (ha : NoNaN a) :
    (∀ b, NoNaN b → OrderInsensitive S H a b) ↔ (a.map KeyValue.key).Nodup := by
  constructor
  · intro hinsensitive
    by_contra hrepeats
    obtain ⟨before, shadowed, after, rfl, hshadowed⟩ := exists_shadowed hrepeats
    -- every list covers itself, or the test already fails at the list itself
    have hself : FindsEach (before ++ shadowed :: after) (before ++ shadowed :: after) := by
      have hself := hinsensitive _ ha
      exact ((matchesSpan_iff S H).mp (hself.borrowed.mpr (hself.set (List.Perm.refl _)))).2
    obtain ⟨fresh, hfresh⟩ := Infinite.exists_notMem_finset
      ((before ++ shadowed :: after).map KeyValue.key).toFinset
    rw [List.mem_toFinset] at hfresh
    let other : KeyValue := ⟨fresh, shadowed.value⟩
    have hother : NoNaN (before ++ other :: after) := by
      intro kv hkv
      rcases List.mem_append.mp hkv with hkv | hkv
      · exact ha kv (List.mem_append_left _ hkv)
      · rcases List.mem_cons.mp hkv with rfl | hkv
        · exact ha shadowed (by simp)
        · exact ha kv (by simp [hkv])
    have hfinds : FindsEach (before ++ shadowed :: after) (before ++ other :: after) :=
      findsEach_shadowed hshadowed hfresh hself
    have hmatches := (matchesSpan_iff S H).mpr ⟨by simp, hfinds⟩
    have hequal := (hinsensitive _ hother).borrowed.mp hmatches
    have hkeys := keys_perm_of_equal S ((equal_ofSpan_iff S H).mp hequal)
    exact hfresh (hkeys.mem_iff.mpr (by simp [other]))
  · intro hdistinct b _
    exact orderInsensitive_of_nodup S H ha hdistinct

end Order

/-- A hash for tests. -/
def StdHash.byLength : StdHash where
  string s := s.length.toUInt64
  bool b := b.toUInt64
  int i := i.toUInt64
  double _ := 0
  double_eq _ _ _ := rfl

theorem orderInsensitive_two :
    OrderInsensitive KeySort.stable StdHash.byLength [⟨[98], .int 1⟩, ⟨[97], .int 2⟩]
      [⟨[97], .int 2⟩, ⟨[98], .int 1⟩] :=
  (orderInsensitive_iff KeySort.stable StdHash.byLength [⟨[98], .int 1⟩, ⟨[97], .int 2⟩]
    (by decide)).mpr (by decide) [⟨[97], .int 2⟩, ⟨[98], .int 1⟩] (by decide)

/-- One key twice, in both orders: the sort keeps the order, and the sets differ. -/
theorem repeatedKey_orderSensitive :
    ¬ ∀ (S : KeySort) (H : StdHash) (a b : List KeyValue), NoNaN a → NoNaN b →
      OrderInsensitive S H a b := by
  intro h
  have hset := (h KeySort.stable StdHash.byLength [⟨[107], .int 1⟩, ⟨[107], .int 2⟩]
    [⟨[107], .int 2⟩, ⟨[107], .int 1⟩] (by decide) (by decide)).set (List.Perm.swap _ _ _)
  rw [equal_ofSpan_iff] at hset
  revert hset
  decide

end Microtel.Metrics
