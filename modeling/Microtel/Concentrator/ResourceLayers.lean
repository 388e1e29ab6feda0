import Microtel.Concentrator.ResourceBudget

/-!
The two ways a Resource is put together under a budget, each against a rule that
knows only the layers: what a leaf declares between the operator's layers, and what
a resolver answers over the configured Resource.
-/

namespace Microtel.Concentrator

open KeyedList

/-! ### Lookups through the layers -/

/-- The id of the leaf, when there is a key for it. -/
def idLayer (idKey leafId : Bytes) : Resource := if !idKey.isEmpty then layer idKey leafId else []

def placeholder : Resource := layer serviceNameKey unknownService

/-- The value that the first of these layers to name the key gives it. -/
def highest (layers : List Resource) (k : Bytes) : Option KeyValue :=
  layers.findSome? fun l => find KeyValue.key l k

theorem idLayer_nodup (idKey leafId : Bytes) : ((idLayer idKey leafId).map KeyValue.key).Nodup := by
  unfold idLayer
  split
  · exact List.nodup_singleton _
  · exact List.nodup_nil

theorem names_iff (r : Resource) (k : Bytes) : names r k = true ↔ k ∈ r.map KeyValue.key :=
  find_isSome

theorem names_merge_nil (l : List KeyValue) (k : Bytes) :
    names (Resource.merge [] l) k = names l k := by
  rw [Bool.eq_iff_iff, names_iff, names_iff, ← find_isSome, Resource.merge, find_merge_nil,
    find_isSome, List.map_reverse, List.mem_reverse]

theorem find_upperLayers {configured : List KeyValue} (h : (configured.map KeyValue.key).Nodup)
    (base : Resource) (idKey leafId k : Bytes) :
    find KeyValue.key (Resource.merge base (upperLayers configured idKey leafId)) k =
      (find KeyValue.key (idLayer idKey leafId) k).or
        ((find KeyValue.key configured k).or (find KeyValue.key base k)) := by
  unfold upperLayers Resource.merge
  rw [merge_append, find_merge, find_merge base]
  rw [merge_nil_of_nodup h]
  exact congrArg (fun l => (find KeyValue.key l k).or _)
    (merge_nil_of_nodup (idLayer_nodup idKey leafId))

theorem find_layered (layers : LeafResourceLayers)
    (h : (layers.configured.map KeyValue.key).Nodup) (admitted : List KeyValue) (k : Bytes) :
    find KeyValue.key (layered layers admitted) k =
      highest [idLayer layers.idKey layers.leafId, layers.configured, admitted.reverse,
        layers.defaults, placeholder] k := by
  unfold layered
  rw [find_nameService, find_upperLayers h]
  unfold Resource.merge
  rw [find_merge, find_merge_nil]
  unfold highest placeholder
  simp only [List.findSome?_cons, List.findSome?_nil]
  cases find KeyValue.key (idLayer layers.idKey layers.leafId) k <;>
    cases find KeyValue.key layers.configured k <;>
      cases find KeyValue.key admitted.reverse k <;>
        cases find KeyValue.key layers.defaults k <;>
          cases find KeyValue.key (layer serviceNameKey unknownService) k <;> rfl

theorem find_fixedLayers {configured : List KeyValue} (h : (configured.map KeyValue.key).Nodup)
    (defaults : List KeyValue) (idKey leafId k : Bytes) :
    find KeyValue.key (fixedLayers defaults configured idKey leafId) k =
      highest [idLayer idKey leafId, configured, defaults.reverse, placeholder] k := by
  have heq : fixedLayers defaults configured idKey leafId =
      nameService
        (Resource.merge (Resource.merge [] defaults) (upperLayers configured idKey leafId)) := by
    unfold fixedLayers nameService upperLayers
    by_cases hid : idKey.isEmpty
    · simp [hid]
    · simp only [hid, Bool.not_false, if_true, Resource.merge, merge_append]
  rw [heq, find_nameService, find_upperLayers h, Resource.merge, find_merge_nil]
  unfold highest placeholder
  simp only [List.findSome?_cons, List.findSome?_nil]
  cases find KeyValue.key (idLayer idKey leafId) k <;>
    cases find KeyValue.key configured k <;>
      cases find KeyValue.key defaults.reverse k <;>
        cases find KeyValue.key (layer serviceNameKey unknownService) k <;> rfl

/-! ### The declared attributes -/

/-- Reserved, or named by a layer above the leaf's own. -/
def setAside (layers : LeafResourceLayers) (kv : KeyValue) : Bool :=
  isReserved kv.key || names layers.configured kv.key ||
    names (idLayer layers.idKey layers.leafId) kv.key

/-- The Resource stays within the budget with one more attribute of the leaf's own. -/
def fitsBudget (layers : LeafResourceLayers) (admitted : List KeyValue) (kv : KeyValue) : Bool :=
  resourceBytes (layered layers (admitted ++ [kv])) ≤ layers.budget

def candidates (layers : LeafResourceLayers) : List KeyValue :=
  layers.declared.filter fun kv => !setAside layers kv

/-- What the leaf gets in: in payload order, whatever fits on top of what got in before. -/
def admittedBy (layers : LeafResourceLayers) : List KeyValue :=
  Greedy.taken (fitsBudget layers) (candidates layers)

/-- The admission loop, from the budget that holds the fixed layers. -/
def runAdmission (layers : LeafResourceLayers) : Admission :=
  admitDeclared layers (chargeFixedLayers layers {}).2 (chargeFixedLayers layers {}).1

theorem passedOver_eq (layers : LeafResourceLayers) (kv : KeyValue) :
    passedOver (chargeFixedLayers layers {}).2 kv = setAside layers kv := by
  have hpinned : (chargeFixedLayers layers {}).2.contains kv.key =
      (names layers.configured kv.key || names (idLayer layers.idKey layers.leafId) kv.key) := by
    rw [Bool.eq_iff_iff, List.contains_iff_mem, pinned_eq_upperLayers, Bool.or_eq_true, names_iff,
      names_iff, upperLayers, List.map_append, List.mem_append, idLayer]
  rw [passedOver, hpinned, setAside, Bool.or_assoc]

theorem not_pinned (layers : LeafResourceLayers) {kv : KeyValue} (h : setAside layers kv = false) :
    kv.key ∉ (chargeFixedLayers layers {}).2 := by
  rw [← passedOver_eq] at h
  have hcontains := (Bool.or_eq_false_iff.mp h).2
  simpa using hcontains

/-- What the loop has done when it has admitted `t` and refused `n`. -/
structure Admits (layers : LeafResourceLayers) (t : List KeyValue) (n : Nat) (a : Admission) :
    Prop where
  admitted : a.admitted = t
  dropped : a.dropped = UInt64.ofNat n
  charges : Charges a.budget (Resource.merge
    (fixedLayers layers.defaults layers.configured layers.idKey layers.leafId) t)
  free : ∀ kv ∈ t, setAside layers kv = false

namespace Admits

variable {layers : LeafResourceLayers} {t : List KeyValue} {n : Nat} {a : Admission} {kv : KeyValue}

theorem bytes_eq (A : Admits layers t n a) (h : (layers.defaults.map KeyValue.key).Nodup) :
    a.budget.total = resourceBytes (layered layers t) := by
  rw [A.charges.total]
  have hperm := layered_perm layers h fun kv hkv => not_pinned layers (A.free kv hkv)
  exact (resourceBytes_perm hperm).symm

/-- The loop compares the size the rule compares. -/
theorem totalWith_eq (A : Admits layers t n a) (h : (layers.defaults.map KeyValue.key).Nodup)
    (hfree : setAside layers kv = false) :
    a.budget.totalWith kv.key (valueBytes kv.value) =
      resourceBytes (layered layers (t ++ [kv])) := by
  have hall : ∀ kv' ∈ t ++ [kv], setAside layers kv' = false :=
    List.forall_mem_append.mpr ⟨A.free, List.forall_mem_singleton.mpr hfree⟩
  have hperm := layered_perm layers h fun kv' hkv' => not_pinned layers (hall kv' hkv')
  rw [A.charges.totalWith, resourceBytes_perm hperm]
  unfold Resource.merge
  rw [merge_append]
  rfl

theorem skip (A : Admits layers t n a) (hskip : setAside layers kv = true) :
    Admits layers t n (Admission.take layers.budget (chargeFixedLayers layers {}).2 a kv) := by
  have hpassed := passedOver_eq layers kv
  rw [hskip, passedOver] at hpassed
  rw [Admission.take, if_pos hpassed]
  exact A

theorem take (A : Admits layers t n a) (h : (layers.defaults.map KeyValue.key).Nodup)
    (hfree : setAside layers kv = false) (hfits : fitsBudget layers t kv = true) :
    Admits layers (t ++ [kv]) n
      (Admission.take layers.budget (chargeFixedLayers layers {}).2 a kv) := by
  have hpassed := passedOver_eq layers kv
  rw [hfree, passedOver] at hpassed
  rw [fitsBudget, decide_eq_true_eq, ← A.totalWith_eq h hfree] at hfits
  rw [Admission.take, hpassed, if_neg Bool.false_ne_true, if_neg (Nat.not_lt.mpr hfits)]
  refine ⟨by rw [A.admitted], A.dropped, ?_,
    List.forall_mem_append.mpr ⟨A.free, List.forall_mem_singleton.mpr hfree⟩⟩
  unfold Resource.merge
  rw [merge_append]
  exact A.charges.set kv

theorem refuse (A : Admits layers t n a) (h : (layers.defaults.map KeyValue.key).Nodup)
    (hfree : setAside layers kv = false) (hover : fitsBudget layers t kv = false) :
    Admits layers t (n + 1)
      (Admission.take layers.budget (chargeFixedLayers layers {}).2 a kv) := by
  have hpassed := passedOver_eq layers kv
  rw [hfree, passedOver] at hpassed
  rw [fitsBudget, decide_eq_false_iff_not, ← A.totalWith_eq h hfree, Nat.not_le] at hover
  rw [Admission.take, hpassed, if_neg Bool.false_ne_true, if_pos hover]
  exact ⟨A.admitted, by rw [A.dropped, UInt64.ofNat_add]; rfl, A.charges, A.free⟩

end Admits

/-- The loop admits what the rule takes. -/
theorem runAdmission_admits (layers : LeafResourceLayers)
    (h : (layers.defaults.map KeyValue.key).Nodup) :
    Admits layers (admittedBy layers) (Greedy.refused (fitsBudget layers) (candidates layers))
      (runAdmission layers) :=
  Greedy.foldl_invariant
    (fun _ _ _ _ hskip A => A.skip hskip)
    (fun _ _ _ _ hfree hfits A => A.take h hfree hfits)
    (fun _ _ _ _ hfree hover A => A.refuse h hfree hover)
    ⟨rfl, rfl, chargeFixedLayers_spec layers, by simp⟩ layers.declared

/-! ### The running total -/

def charge (b : Budget) (kv : KeyValue) : Budget := b.set kv.key (valueBytes kv.value)

/-- What the fixed layers are charged for, in order. -/
def fixedCharges (layers : LeafResourceLayers) : List KeyValue :=
  let named := layers.defaults ++ upperLayers layers.configured layers.idKey layers.leafId
  named ++ if names named serviceNameKey then [] else placeholder

theorem charges_foldl (l : List KeyValue) : Charges (l.foldl charge {}) (Resource.merge [] l) :=
  Charges.empty.layer l

theorem chargeFixedLayers_eq (layers : LeafResourceLayers) :
    (chargeFixedLayers layers {}).1 = (fixedCharges layers).foldl charge {} := by
  let named := layers.defaults ++ upperLayers layers.configured layers.idKey layers.leafId
  have hnamed : (chargeFixedLayers layers {}).1 =
      if !(named.foldl charge {}).has serviceNameKey then
        (named.foldl charge {}).set serviceNameKey unknownService.length
      else named.foldl charge {} := by
    unfold chargeFixedLayers
    simp only [named, upperLayers, List.foldl_append]
    by_cases hid : layers.idKey.isEmpty
    · simp only [hid, Bool.not_true, Bool.false_eq_true, if_false, List.foldl_nil]
      rfl
    · simp only [hid, Bool.not_false, if_true]
      rfl
  have hhas : (named.foldl charge {}).has serviceNameKey = names named serviceNameKey := by
    rw [(charges_foldl named).has, names_merge_nil]
  have hcharges : fixedCharges layers =
      named ++ if names named serviceNameKey then [] else placeholder := rfl
  clear_value named
  rw [hnamed, hhas, hcharges, List.foldl_append]
  cases names named serviceNameKey <;> rfl

/-- The layers with only the first declared attributes. -/
def LeafResourceLayers.upTo (layers : LeafResourceLayers) (n : Nat) : LeafResourceLayers :=
  { layers with declared := layers.declared.take n }

/-! ### The Resource of a leaf -/

theorem resolveLeafResource_layered (layers : LeafResourceLayers)
    (h : (layers.defaults.map KeyValue.key).Nodup) :
    (resolveLeafResource layers).resource = layered layers (admittedBy layers) := by
  have hadmitted := (runAdmission_admits layers h).admitted
  unfold runAdmission at hadmitted
  rw [resolveLeafResource_eq, hadmitted]

theorem total_eq (layers : LeafResourceLayers) (h : (layers.defaults.map KeyValue.key).Nodup) :
    (runAdmission layers).budget.total = resourceBytes (resolveLeafResource layers).resource := by
  rw [(runAdmission_admits layers h).bytes_eq h, resolveLeafResource_layered layers h]

theorem admit_le_max (limit : Nat) (skip : KeyValue → Bool) (r : Resource) (l : List KeyValue) :
    resourceBytes (l.foldl (admitOne limit skip) r) ≤ max limit (resourceBytes r) := by
  induction l generalizing r with
  | nil => exact Nat.le_max_right ..
  | cons kv l ih =>
      rw [List.foldl_cons]
      rcases admit_cases limit skip r kv with ⟨hsame, -⟩ | ⟨hput, -, hle⟩
      · rw [hsame]
        exact ih r
      · rw [hput]
        exact (ih _).trans (max_le (Nat.le_max_left ..) (hle.trans (Nat.le_max_left ..)))

/-- What the Resource of a leaf is, as a matter of its layers alone. -/
structure ResolvedFrom (layers : LeafResourceLayers) (out : ResolvedLeafResource) : Prop where
  keys : (out.resource.map KeyValue.key).Nodup
  /-- A reserved key is never the leaf's own. -/
  reserved : ∀ kv ∈ out.resource, isReserved kv.key = true →
    highest [idLayer layers.idKey layers.leafId, layers.configured, layers.defaults] kv.key =
      some kv
  /-- Of what the leaf declares more than once, the last that got in. -/
  values : ∀ k, find KeyValue.key out.resource k =
    highest [idLayer layers.idKey layers.leafId, layers.configured, (admittedBy layers).reverse,
      layers.defaults, placeholder] k
  dropped : out.attributesDropped =
    UInt64.ofNat (Greedy.refused (fitsBudget layers) (candidates layers))
  bytes : resourceBytes out.resource ≤ max layers.budget
    (resourceBytes (fixedLayers layers.defaults layers.configured layers.idKey layers.leafId))

/-- The Resource of a leaf is resolved from its layers, the loop admits what the
greedy rule takes, and the running total is the size of the Resource so far, for
every charge of a fixed layer and after every declared attribute. -/
theorem resolveLeafResource_resolvedFrom (layers : LeafResourceLayers)
    (hdefaults : (layers.defaults.map KeyValue.key).Nodup)
    (hconfigured : (layers.configured.map KeyValue.key).Nodup) :
    ResolvedFrom layers (resolveLeafResource layers) ∧
      (runAdmission layers).admitted = admittedBy layers ∧
      (chargeFixedLayers layers {}).1 = (fixedCharges layers).foldl charge {} ∧
      (∀ n, (((fixedCharges layers).take n).foldl charge {}).total =
        resourceBytes (Resource.merge [] ((fixedCharges layers).take n))) ∧
      ∀ n, (runAdmission (layers.upTo n)).budget.total =
        resourceBytes (resolveLeafResource (layers.upTo n)).resource := by
  have A := runAdmission_admits layers hdefaults
  have hlayered := resolveLeafResource_layered layers hdefaults
  have hkeys : ((resolveLeafResource layers).resource.map KeyValue.key).Nodup := by
    rw [hlayered]
    exact layered_nodup layers hdefaults _
  have hvalues : ∀ k, find KeyValue.key (resolveLeafResource layers).resource k =
      highest [idLayer layers.idKey layers.leafId, layers.configured, (admittedBy layers).reverse,
        layers.defaults, placeholder] k := by
    intro k
    rw [hlayered, find_layered layers hconfigured]
  have hbytes : resourceBytes (resolveLeafResource layers).resource ≤ max layers.budget
      (resourceBytes
        (fixedLayers layers.defaults layers.configured layers.idKey layers.leafId)) := by
    rw [resolveLeafResource_bytes layers hdefaults]
    exact admit_le_max ..
  have hreserved : ∀ kv ∈ (resolveLeafResource layers).resource, isReserved kv.key = true →
      highest [idLayer layers.idKey layers.leafId, layers.configured, layers.defaults] kv.key =
        some kv := by
    intro kv hmem hres
    have hfind := find_of_mem hkeys hmem
    have hown : find KeyValue.key (admittedBy layers).reverse kv.key = none := by
      rw [← Option.not_isSome_iff_eq_none, find_isSome, List.map_reverse, List.mem_reverse]
      intro hkey
      obtain ⟨kv', hmem', hsame⟩ := List.mem_map.mp hkey
      have hfree := A.free kv' hmem'
      rw [setAside, hsame, hres] at hfree
      exact absurd hfree (by simp)
    have hservice : find KeyValue.key placeholder kv.key = none := by
      rw [placeholder, layer, find_cons]
      refine if_neg fun hsame => ?_
      rw [← hsame] at hres
      exact absurd hres (by decide)
    rw [hvalues] at hfind
    unfold highest at hfind ⊢
    simp only [List.findSome?_cons, List.findSome?_nil, hown, hservice] at hfind ⊢
    exact hfind
  exact ⟨⟨hkeys, hreserved, hvalues, A.dropped, hbytes⟩, A.admitted, chargeFixedLayers_eq layers,
    fun n => (charges_foldl _).total, fun n => total_eq (layers.upTo n) hdefaults⟩

/-- Every layer names the service, the leaf twice, and the budget has room for one
more short attribute. -/
def crowded : LeafResourceLayers where
  defaults := [⟨serviceNameKey, .string (ascii "default")⟩]
  declared := [⟨ascii "rack", .string (ascii "a")⟩, ⟨serviceNameKey, .string (ascii "first")⟩,
    ⟨serviceNameKey, .string (ascii "a name too long")⟩, ⟨protoKey, .int 1⟩]
  configured := [⟨ascii "site", .string (ascii "north")⟩]
  idKey := ascii "id"
  leafId := ascii "7"
  budget := 40

theorem resolveLeafResource_crowded :
    ResolvedFrom crowded (resolveLeafResource crowded) ∧
      (runAdmission crowded).admitted = admittedBy crowded ∧
      (chargeFixedLayers crowded {}).1 = (fixedCharges crowded).foldl charge {} ∧
      (∀ n, (((fixedCharges crowded).take n).foldl charge {}).total =
        resourceBytes (Resource.merge [] ((fixedCharges crowded).take n))) ∧
      ∀ n, (runAdmission (crowded.upTo n)).budget.total =
        resourceBytes (resolveLeafResource (crowded.upTo n)).resource :=
  resolveLeafResource_resolvedFrom crowded (by decide) (by decide)

/-! ### The answer of a resolver -/

/-- The fixed layers stay within the budget with one more attribute of the answer. -/
def fitsFixed (configured : List KeyValue) (fixed : LeafResourceLayers) (accepted : List KeyValue)
    (kv : KeyValue) : Bool :=
  resourceBytes
    (fixedLayers fixed.defaults (Resource.merge configured (accepted ++ [kv])) fixed.idKey
    fixed.leafId) ≤ fixed.budget

/-- What gets in of an answer. -/
def acceptedBy (configured answer : List KeyValue) (fixed : LeafResourceLayers) : List KeyValue :=
  Greedy.taken (fitsFixed configured fixed) (offered answer fixed)

/-- Attributes but for the id can as well be merged over the fixed layers. -/
theorem fixedLayers_perm {configured t : List KeyValue} (h : (configured.map KeyValue.key).Nodup)
    (fixed : LeafResourceLayers) (hfree : ∀ kv ∈ t, ignored fixed kv = false) :
    (fixedLayers fixed.defaults (Resource.merge configured t) fixed.idKey fixed.leafId).Perm
      (Resource.merge (fixedLayers fixed.defaults configured fixed.idKey fixed.leafId) t) := by
  have hkeys : ∀ configured, ((fixedLayers fixed.defaults configured fixed.idKey
      fixed.leafId).map KeyValue.key).Nodup :=
    fun configured => (chargeFixedLayers_spec { fixed with configured }).keys
  have hmerged : ((Resource.merge configured t).map KeyValue.key).Nodup := merge_nodup t h
  have hid : ∀ k, find KeyValue.key (idLayer fixed.idKey fixed.leafId) k ≠ none →
      find KeyValue.key t.reverse k = none := by
    intro k hk
    rw [← Option.not_isSome_iff_eq_none, find_isSome, List.map_reverse, List.mem_reverse]
    intro hmem
    obtain ⟨kv, hkv, rfl⟩ := List.mem_map.mp hmem
    have hnot := hfree kv hkv
    rw [ignored, Bool.or_eq_false_iff] at hnot
    apply hk
    unfold idLayer
    cases hempty : fixed.idKey.isEmpty with
    | true => rfl
    | false =>
        rw [hempty] at hnot
        have hne : fixed.idKey ≠ kv.key := fun heq => by simp [heq] at hnot
        rw [Bool.not_false, if_pos rfl, layer, find_cons]
        exact if_neg hne
  refine perm_of_find (hkeys _) (merge_nodup t (hkeys configured)) ?_
  intro k
  have hrest : find KeyValue.key (Resource.merge
      (fixedLayers fixed.defaults configured fixed.idKey fixed.leafId) t) k =
      (find KeyValue.key t.reverse k).or
        (find KeyValue.key (fixedLayers fixed.defaults configured fixed.idKey fixed.leafId) k) := by
    rw [Resource.merge, find_merge, find_merge_nil]
  have hconf : find KeyValue.key (Resource.merge configured t) k =
      (find KeyValue.key t.reverse k).or (find KeyValue.key configured k) := by
    rw [Resource.merge, find_merge, find_merge_nil]
  rw [hrest, find_fixedLayers hmerged, find_fixedLayers h]
  have hk := hid k
  unfold highest
  simp only [List.findSome?_cons, hconf]
  cases hidk : find KeyValue.key (idLayer fixed.idKey fixed.leafId) k with
  | some kv =>
      have hnone : find KeyValue.key t.reverse k = none := hk (by simp [hidk])
      rw [hnone]
      rfl
  | none =>
      cases find KeyValue.key t.reverse k with
      | none => rfl
      | some kv => rfl

/-- The charges of the loop are the sizes of the merged layers. -/
theorem fitsFixed_eq {configured t : List KeyValue} (h : (configured.map KeyValue.key).Nodup)
    {fixed : LeafResourceLayers} {kv : KeyValue}
    (hfree : ∀ kv' ∈ t ++ [kv], ignored fixed kv' = false) :
    chargesFit configured fixed t kv = fitsFixed configured fixed t kv := by
  unfold chargesFit fitsFixed
  rw [resourceBytes_perm (fixedLayers_perm h fixed hfree)]

/-- The loop accepts what the rule takes. -/
theorem runMerge_merges {configured : List KeyValue} (h : (configured.map KeyValue.key).Nodup)
    (answer : List KeyValue) (fixed : LeafResourceLayers) :
    Merges configured fixed (acceptedBy configured answer fixed)
      (Greedy.refused (fitsFixed configured fixed) (offered answer fixed))
      (runMerge configured answer fixed) := by
  have hsame : Greedy.taken (chargesFit configured fixed) (offered answer fixed) =
      Greedy.taken (fitsFixed configured fixed) (offered answer fixed) := by
    apply Greedy.taken_congr
    intro t kv hmem
    apply fitsFixed_eq h
    intro kv' hkv'
    have hoffered := (List.mem_filter.mp (hmem kv' hkv')).2
    simpa using hoffered
  have M := runMerge_charged configured answer fixed
  unfold Greedy.refused at M ⊢
  rw [hsame] at M
  exact M

/-- The rule never takes the fixed layers over the budget. -/
theorem accepted_within_budget (configured : List KeyValue) (fixed : LeafResourceLayers)
    (xs : List KeyValue)
    (h : resourceBytes (fixedLayers fixed.defaults configured fixed.idKey fixed.leafId) ≤
      fixed.budget) :
    resourceBytes (fixedLayers fixed.defaults
      (Resource.merge configured (Greedy.taken (fitsFixed configured fixed) xs)) fixed.idKey
      fixed.leafId) ≤ fixed.budget := by
  induction xs using List.reverseRecOn with
  | nil => exact h
  | append_singleton xs kv ih =>
      cases hfits : fitsFixed configured fixed
        (Greedy.taken (fitsFixed configured fixed) xs) kv with
      | true =>
          rw [Greedy.taken_of_fits hfits]
          rw [fitsFixed, decide_eq_true_eq] at hfits
          exact hfits
      | false =>
          rw [Greedy.taken_of_not_fits hfits]
          exact ih

/-- What the configured Resource becomes under an answer, as a matter of both and
the fixed layers alone. -/
structure MergedFrom (configured answer : List KeyValue) (fixed : LeafResourceLayers)
    (out : List KeyValue × UInt64) : Prop where
  nodup : (out.1.map KeyValue.key).Nodup
  /-- A reserved key, or the one of the id, was there before, with its value. -/
  untouched : ∀ kv ∈ out.1, ignored fixed kv = true → kv ∈ configured
  values : ∀ k, find KeyValue.key out.1 k =
    (find KeyValue.key (acceptedBy configured answer fixed).reverse k).or
      (find KeyValue.key configured k)
  places : out.1.map KeyValue.key = configured.map KeyValue.key ++
    FirstSeen.keys KeyValue.key
      ((acceptedBy configured answer fixed).filter fun kv => !names configured kv.key)
  dropped : out.2 =
    UInt64.ofNat (Greedy.refused (fitsFixed configured fixed) (offered answer fixed))
  budget :
    resourceBytes (fixedLayers fixed.defaults configured fixed.idKey fixed.leafId) ≤ fixed.budget →
      resourceBytes (fixedLayers fixed.defaults out.1 fixed.idKey fixed.leafId) ≤ fixed.budget

theorem mergeResolverResource_mergedFrom (configured answer : List KeyValue)
    (fixed : LeafResourceLayers) (h : (configured.map KeyValue.key).Nodup) :
    MergedFrom configured answer fixed (mergeResolverResource configured answer fixed) := by
  have M := runMerge_merges h answer fixed
  rw [mergeResolverResource_eq, M.configured, M.dropped]
  have hvalues : ∀ k,
      find KeyValue.key (Resource.merge configured (acceptedBy configured answer fixed)) k =
        (find KeyValue.key (acceptedBy configured answer fixed).reverse k).or
          (find KeyValue.key configured k) := by
    intro k
    rw [Resource.merge, find_merge, find_merge_nil]
  have hnodup : ((Resource.merge configured
      (acceptedBy configured answer fixed)).map KeyValue.key).Nodup := merge_nodup _ h
  refine ⟨hnodup, ?_, hvalues, merge_keys configured _, rfl,
    accepted_within_budget configured fixed _⟩
  intro kv hmem hignored
  have hfind := find_of_mem hnodup hmem
  have hnone : find KeyValue.key (acceptedBy configured answer fixed).reverse kv.key = none := by
    rw [← Option.not_isSome_iff_eq_none, find_isSome, List.map_reverse, List.mem_reverse]
    intro hkey
    obtain ⟨kv', hmem', hsame⟩ := List.mem_map.mp hkey
    have hfree := M.free kv' hmem'
    unfold ignored at hfree hignored
    rw [hsame, hignored] at hfree
    cases hfree
  rw [hvalues, hnone, Option.none_or] at hfind
  exact find_mem hfind

/-- An answer that overrides, adds, repeats a key and is partly refused. -/
def staticSite : List KeyValue := [⟨ascii "site", .string (ascii "north")⟩]

def longAnswer : List KeyValue :=
  [⟨ascii "site", .string (ascii "south")⟩, ⟨ascii "rack", .string (ascii "a very long name")⟩,
    ⟨ascii "rack", .string (ascii "a")⟩, ⟨protoKey, .int 1⟩, ⟨ascii "id", .string (ascii "8")⟩]

theorem mergeResolverResource_longAnswer :
    MergedFrom staticSite longAnswer crowded
      (mergeResolverResource staticSite longAnswer crowded) :=
  mergeResolverResource_mergedFrom staticSite longAnswer crowded (by decide)

end Microtel.Concentrator
