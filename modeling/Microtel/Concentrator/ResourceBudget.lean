import Microtel.Concentrator.Options
import Microtel.Lib.Greedy

/-!
The byte budget of a leaf's Resource: what `Budget` counts, what the two
admission loops let in under it, and when the Resource a leaf ends up with is
within the budget of its time mode.
-/

namespace Microtel.Concentrator

open KeyedList

/-! ### The running budget -/

/-- The budget holds the cost of a Resource with distinct keys. -/
structure Charges (b : Budget) (r : Resource) : Prop where
  total : b.total = resourceBytes r
  keys : (r.map KeyValue.key).Nodup
  values : ∀ k, (find Prod.fst b.values k).map Prod.snd =
    (find KeyValue.key r k).map fun kv => valueBytes kv.value

namespace Charges

variable {b : Budget} {r : Resource}

theorem empty : Charges {} [] := ⟨rfl, List.nodup_nil, fun _ => rfl⟩

theorem has (C : Charges b r) (k : Bytes) : b.has k = names r k := by
  have h := congrArg Option.isSome (C.values k)
  rw [Option.isSome_map, Option.isSome_map] at h
  exact h

theorem totalWith (C : Charges b r) (kv : KeyValue) :
    b.totalWith kv.key (valueBytes kv.value) = resourceBytes (put KeyValue.key r kv) := by
  have hsum := @sum_put _ _ _ KeyValue.key attributeBytes r kv
  have hvalue := C.values kv.key
  have htotal := C.total
  unfold Budget.totalWith
  unfold resourceBytes at htotal ⊢
  cases hold : find KeyValue.key r kv.key with
  | none =>
      rw [hold, Option.map_none, Option.map_eq_none_iff] at hvalue
      rw [hold, Option.map_none, Option.getD_none] at hsum
      rw [hvalue]
      dsimp only
      unfold attributeBytes at hsum htotal ⊢
      omega
  | some old =>
      rw [hold, Option.map_some, Option.map_eq_some_iff] at hvalue
      obtain ⟨⟨k, size⟩, hfind, rfl⟩ := hvalue
      rw [hold, Option.map_some, Option.getD_some] at hsum
      rw [hfind]
      have hkey : old.key = kv.key := find_key hold
      have hle : attributeBytes old ≤ (r.map attributeBytes).sum :=
        List.single_le_sum (by simp) _ (List.mem_map_of_mem (List.mem_of_find?_eq_some hold))
      dsimp only
      unfold attributeBytes at hsum hle htotal ⊢
      rw [hkey] at hsum hle
      omega

theorem set (C : Charges b r) (kv : KeyValue) :
    Charges (b.set kv.key (valueBytes kv.value)) (put KeyValue.key r kv) where
  total := C.totalWith kv
  keys := put_nodup kv C.keys
  values := by
    intro k
    unfold Budget.set
    rw [find_put, find_put]
    split
    · rfl
    · exact C.values k

/-- A layer of one string attribute. -/
theorem setString (C : Charges b r) (k v : Bytes) :
    Charges (b.set k v.length) (Resource.merge r (Concentrator.layer k v)) :=
  C.set ⟨k, .string v⟩

theorem layer (C : Charges b r) (l : List KeyValue) :
    Charges (l.foldl (fun b kv => b.set kv.key (valueBytes kv.value)) b) (Resource.merge r l) := by
  induction l generalizing b r with
  | nil => exact C
  | cons kv l ih => exact ih (C.set kv)

end Charges

/-! ### The fixed layers -/

/-- The operator's layers as one Resource: the defaults, the configured
Resource, the id, and the placeholder when none of them names the service. -/
def fixedLayers (defaults configured : List KeyValue) (idKey leafId : Bytes) : Resource :=
  let merged := Resource.merge (Resource.merge [] defaults) configured
  let merged := if !idKey.isEmpty then Resource.merge merged (layer idKey leafId) else merged
  if !names merged serviceNameKey then Resource.merge merged (layer serviceNameKey unknownService)
  else merged

theorem chargeFixedLayers_spec (layers : LeafResourceLayers) :
    Charges (chargeFixedLayers layers {}).1
      (fixedLayers layers.defaults layers.configured layers.idKey layers.leafId) := by
  have C := (Charges.empty.layer layers.defaults).layer layers.configured
  unfold chargeFixedLayers fixedLayers
  dsimp only
  by_cases hid : layers.idKey.isEmpty
  · simp only [hid, Bool.not_true, Bool.false_eq_true, if_false]
    rw [C.has]
    split
    · exact C.setString serviceNameKey unknownService
    · exact C
  · have D := C.setString layers.idKey layers.leafId
    simp only [hid, Bool.not_false, if_true]
    rw [D.has]
    split
    · exact D.setString serviceNameKey unknownService
    · exact D

/-- The keys a layer above the leaf's pins. -/
theorem mem_pinned (layers : LeafResourceLayers) (k : Bytes) :
    k ∈ (chargeFixedLayers layers {}).2 ↔
      k ∈ layers.configured.map KeyValue.key ∨ layers.idKey ≠ [] ∧ k = layers.idKey := by
  unfold chargeFixedLayers
  dsimp only
  by_cases hid : layers.idKey.isEmpty
  · have hnil := List.isEmpty_iff.mp hid
    simp [hnil]
  · have hne : layers.idKey ≠ [] := fun h => hid (List.isEmpty_iff.mpr h)
    simp only [hid, Bool.not_false, if_true, List.mem_cons]
    tauto

/-! ### Admission under a limit -/

/-- One round of an admission loop, on the Resource it has charged. -/
def admitOne (limit : Nat) (skip : KeyValue → Bool) (r : Resource) (kv : KeyValue) : Resource :=
  if skip kv || limit < resourceBytes (put KeyValue.key r kv) then r else put KeyValue.key r kv

theorem admit_cases (limit : Nat) (skip : KeyValue → Bool) (r : Resource) (kv : KeyValue) :
    (admitOne limit skip r kv = r ∧
      (skip kv = false → limit < resourceBytes (put KeyValue.key r kv))) ∨
      (admitOne limit skip r kv = put KeyValue.key r kv ∧ skip kv = false ∧
        resourceBytes (put KeyValue.key r kv) ≤ limit) := by
  unfold admitOne
  cases hskip : skip kv with
  | true => simp
  | false =>
      by_cases hover : limit < resourceBytes (put KeyValue.key r kv)
      · simp [hover]
      · simp [hover]
        omega

/-- A loop ends within its limit exactly when it starts there or some attribute
brings it there. -/
theorem admit_le_iff (limit : Nat) (skip : KeyValue → Bool) (r : Resource) (l : List KeyValue) :
    resourceBytes (l.foldl (admitOne limit skip) r) ≤ limit ↔
      resourceBytes r ≤ limit ∨
        ∃ kv ∈ l, skip kv = false ∧ resourceBytes (put KeyValue.key r kv) ≤ limit := by
  induction l generalizing r with
  | nil => simp
  | cons kv l ih =>
      rw [List.foldl_cons, ih]
      rcases admit_cases limit skip r kv with ⟨hsame, hover⟩ | ⟨hput, hskip, hle⟩
      · rw [hsame]
        constructor
        · rintro (h | ⟨kv', hmem, h⟩)
          · exact Or.inl h
          · exact Or.inr ⟨kv', List.mem_cons_of_mem _ hmem, h⟩
        · rintro (h | ⟨kv', hmem, hskip, h⟩)
          · exact Or.inl h
          · rcases List.mem_cons.mp hmem with rfl | hmem
            · exact absurd h (Nat.not_le.mpr (hover hskip))
            · exact Or.inr ⟨kv', hmem, hskip, h⟩
      · rw [hput]
        constructor
        · intro _
          exact Or.inr ⟨kv, by simp, hskip, hle⟩
        · intro _
          exact Or.inl hle

/-! ### The declared attributes -/

/-- What `AdmitDeclared` passes over without charging it. -/
def passedOver (pinned : List Bytes) (kv : KeyValue) : Bool :=
  isReserved kv.key || pinned.contains kv.key

/-- The loop invariant of `AdmitDeclared`: the budget charges the fixed layers
with the admitted attributes over them, and these are not pinned. -/
structure Admitting (fixed : Resource) (pinned : List Bytes) (a : Admission) (r : Resource) :
    Prop where
  charges : Charges a.budget r
  merged : r = Resource.merge fixed a.admitted
  unpinned : ∀ kv ∈ a.admitted, kv.key ∉ pinned

theorem Admitting.take {fixed r : Resource} {pinned : List Bytes} {a : Admission}
    (A : Admitting fixed pinned a r) (limit : Nat) (kv : KeyValue) :
    Admitting fixed pinned (Admission.take limit pinned a kv)
      (admitOne limit (passedOver pinned) r kv) := by
  unfold Admission.take admitOne passedOver
  rw [A.charges.totalWith]
  cases hskip : isReserved kv.key || pinned.contains kv.key with
  | true => exact A
  | false =>
      have hnot : kv.key ∉ pinned := by
        have h := (Bool.or_eq_false_iff.mp hskip).2
        simpa using h
      by_cases hover : limit < resourceBytes (put KeyValue.key r kv)
      · simp only [Bool.false_eq_true, if_false, Bool.false_or, hover, if_true, decide_true]
        exact ⟨A.charges, A.merged, A.unpinned⟩
      · simp only [Bool.false_eq_true, if_false, Bool.false_or, hover, decide_false]
        refine ⟨A.charges.set kv, ?_, ?_⟩
        · dsimp only
          unfold Resource.merge
          rw [merge_append, A.merged]
          rfl
        · intro kv' hmem
          rcases List.mem_append.mp hmem with hmem | hmem
          · exact A.unpinned kv' hmem
          · rw [List.mem_singleton.mp hmem]
            exact hnot

theorem Admitting.fold {fixed r : Resource} {pinned : List Bytes} {a : Admission}
    (A : Admitting fixed pinned a r) (limit : Nat) (declared : List KeyValue) :
    Admitting fixed pinned (declared.foldl (Admission.take limit pinned) a)
      (declared.foldl (admitOne limit (passedOver pinned)) r) := by
  induction declared generalizing a r with
  | nil => exact A
  | cons kv declared ih => exact ih (A.take limit kv)

/-! ### The merged Resource -/

/-- The layers above the leaf's own, as one list. -/
def upperLayers (configured : List KeyValue) (idKey leafId : Bytes) : List KeyValue :=
  configured ++ if !idKey.isEmpty then layer idKey leafId else []

/-- The placeholder, when nothing else names the service. -/
def nameService (r : Resource) : Resource :=
  if !names r serviceNameKey then Resource.merge r (layer serviceNameKey unknownService) else r

theorem find_nameService (r : Resource) (k : Bytes) :
    find KeyValue.key (nameService r) k =
      (find KeyValue.key r k).or (find KeyValue.key (layer serviceNameKey unknownService) k) := by
  unfold nameService names
  cases hname : find KeyValue.key r serviceNameKey with
  | none =>
      simp only [Option.isSome_none, Bool.not_false, if_true]
      change find KeyValue.key (put KeyValue.key r _) k = _
      rw [find_put]
      by_cases hk : serviceNameKey = k
      · rw [if_pos hk, ← hk, hname]
        rfl
      · rw [if_neg hk]
        have hnone : find KeyValue.key (layer serviceNameKey unknownService) k = none := by
          rw [layer, find_cons, if_neg hk]
          rfl
        rw [hnone, Option.or_none]
  | some kv =>
      simp only [Option.isSome_some, Bool.not_true, Bool.false_eq_true, if_false]
      by_cases hk : serviceNameKey = k
      · rw [← hk, hname]
        rfl
      · have hnone : find KeyValue.key (layer serviceNameKey unknownService) k = none := by
          rw [layer, find_cons, if_neg hk]
          rfl
        rw [hnone, Option.or_none]

theorem nameService_nodup {r : Resource} (h : (r.map KeyValue.key).Nodup) :
    ((nameService r).map KeyValue.key).Nodup := by
  unfold nameService
  split
  · exact merge_nodup _ h
  · exact h

theorem fixedLayers_eq (defaults configured : List KeyValue) (idKey leafId : Bytes)
    (h : (defaults.map KeyValue.key).Nodup) :
    fixedLayers defaults configured idKey leafId =
      nameService (Resource.merge defaults (upperLayers configured idKey leafId)) := by
  unfold fixedLayers nameService upperLayers
  unfold Resource.merge
  rw [merge_nil_of_nodup h]
  by_cases hid : idKey.isEmpty
  · simp [hid]
  · simp only [hid, Bool.not_false, if_true, merge_append]

/-- The Resource that results from admitting these attributes of the leaf's own. -/
def layered (layers : LeafResourceLayers) (admitted : List KeyValue) : Resource :=
  nameService (Resource.merge (Resource.merge layers.defaults admitted)
    (upperLayers layers.configured layers.idKey layers.leafId))

theorem resolveLeafResource_eq (layers : LeafResourceLayers) :
    (resolveLeafResource layers).resource = layered layers
      (admitDeclared layers (chargeFixedLayers layers {}).2
        (chargeFixedLayers layers {}).1).admitted := by
  unfold resolveLeafResource layered nameService upperLayers
  dsimp only
  by_cases hid : layers.idKey.isEmpty
  · simp [hid]
  · simp only [hid, Bool.not_false, if_true, Resource.merge, merge_append]

theorem pinned_eq_upperLayers (layers : LeafResourceLayers) (k : Bytes) :
    k ∈ (chargeFixedLayers layers {}).2 ↔
      k ∈ (upperLayers layers.configured layers.idKey layers.leafId).map KeyValue.key := by
  rw [mem_pinned, upperLayers, List.map_append, List.mem_append]
  by_cases hid : layers.idKey.isEmpty
  · have hnil := List.isEmpty_iff.mp hid
    simp [hnil]
  · have hne : layers.idKey ≠ [] := fun h => hid (List.isEmpty_iff.mpr h)
    simp [hid, hne, layer]

theorem layered_nodup (layers : LeafResourceLayers) (h : (layers.defaults.map KeyValue.key).Nodup)
    (admitted : List KeyValue) : ((layered layers admitted).map KeyValue.key).Nodup :=
  nameService_nodup (merge_nodup _ (merge_nodup _ h))

/-- Attributes that nothing pins can as well be merged over the fixed layers. -/
theorem layered_perm (layers : LeafResourceLayers) (h : (layers.defaults.map KeyValue.key).Nodup)
    {admitted : List KeyValue}
    (hunpinned : ∀ kv ∈ admitted, kv.key ∉ (chargeFixedLayers layers {}).2) :
    (layered layers admitted).Perm (Resource.merge
      (fixedLayers layers.defaults layers.configured layers.idKey layers.leafId) admitted) := by
  have hdisjoint : ∀ k, k ∈ admitted.map KeyValue.key →
      k ∉ (upperLayers layers.configured layers.idKey layers.leafId).map KeyValue.key := by
    intro k hk hupper
    obtain ⟨kv, hmem, rfl⟩ := List.mem_map.mp hk
    exact hunpinned kv hmem ((pinned_eq_upperLayers layers kv.key).mpr hupper)
  have hlookup : ∀ k, find KeyValue.key (layered layers admitted) k =
      find KeyValue.key (Resource.merge
        (fixedLayers layers.defaults layers.configured layers.idKey layers.leafId) admitted) k := by
    intro k
    rw [fixedLayers_eq _ _ _ _ h, layered, find_nameService]
    unfold Resource.merge
    rw [find_merge_comm _ _ _ _ hdisjoint, find_merge _ admitted,
      find_merge (nameService _) admitted, find_nameService, Option.or_assoc]
  have hfixed : ((fixedLayers layers.defaults layers.configured layers.idKey
      layers.leafId).map KeyValue.key).Nodup := (chargeFixedLayers_spec layers).keys
  exact perm_of_find (layered_nodup layers h admitted) (merge_nodup _ hfixed) hlookup

theorem resourceBytes_perm {r r' : Resource} (h : r.Perm r') : resourceBytes r = resourceBytes r' :=
  (h.map attributeBytes).sum_eq

/-- The Resource has the size the admission loop ended with. -/
theorem resolveLeafResource_bytes (layers : LeafResourceLayers)
    (h : (layers.defaults.map KeyValue.key).Nodup) :
    resourceBytes (resolveLeafResource layers).resource =
      resourceBytes (layers.declared.foldl
        (admitOne layers.budget (passedOver (chargeFixedLayers layers {}).2))
        (fixedLayers layers.defaults layers.configured layers.idKey layers.leafId)) := by
  have start : Admitting (fixedLayers layers.defaults layers.configured layers.idKey layers.leafId)
      (chargeFixedLayers layers {}).2 { budget := (chargeFixedLayers layers {}).1 }
      (fixedLayers layers.defaults layers.configured layers.idKey layers.leafId) :=
    ⟨chargeFixedLayers_spec layers, rfl, by simp⟩
  obtain ⟨-, merged, unpinned⟩ := start.fold layers.budget layers.declared
  rw [resolveLeafResource_eq, merged]
  exact resourceBytes_perm (layered_perm layers h unpinned)

/-! ### The answer of a resolver -/

/-- Reserved, or the key of the id. -/
def ignored (fixed : LeafResourceLayers) (kv : KeyValue) : Bool :=
  isReserved kv.key || (!fixed.idKey.isEmpty && kv.key = fixed.idKey)

def offered (answer : List KeyValue) (fixed : LeafResourceLayers) : List KeyValue :=
  answer.filter fun kv => !ignored fixed kv

/-- The budget has room for one more attribute of the answer over the fixed layers. -/
def chargesFit (configured : List KeyValue) (fixed : LeafResourceLayers)
    (accepted : List KeyValue) (kv : KeyValue) : Bool :=
  resourceBytes (Resource.merge
    (fixedLayers fixed.defaults configured fixed.idKey fixed.leafId) (accepted ++ [kv])) ≤
      fixed.budget

/-- What the loop has done when it has accepted `t` and refused `n`. -/
structure Merges (base : List KeyValue) (fixed : LeafResourceLayers) (t : List KeyValue)
    (n : Nat) (m : ResolverMerge) : Prop where
  configured : m.configured = Resource.merge base t
  dropped : m.dropped = UInt64.ofNat n
  charges : Charges m.budget
    (Resource.merge (fixedLayers fixed.defaults base fixed.idKey fixed.leafId) t)
  free : ∀ kv ∈ t, ignored fixed kv = false

namespace Merges

variable {configured t : List KeyValue} {fixed : LeafResourceLayers} {n : Nat} {m : ResolverMerge}
  {kv : KeyValue}

theorem totalWith_eq (M : Merges configured fixed t n m) :
    m.budget.totalWith kv.key (valueBytes kv.value) = resourceBytes (Resource.merge
      (fixedLayers fixed.defaults configured fixed.idKey fixed.leafId) (t ++ [kv])) := by
  rw [M.charges.totalWith]
  unfold Resource.merge
  rw [merge_append]
  rfl

theorem skip (M : Merges configured fixed t n m) (hskip : ignored fixed kv = true) :
    Merges configured fixed t n (ResolverMerge.take fixed m kv) := by
  unfold ignored at hskip
  rw [ResolverMerge.take, if_pos hskip]
  exact M

theorem take (M : Merges configured fixed t n m) (hfree : ignored fixed kv = false)
    (hfits : chargesFit configured fixed t kv = true) :
    Merges configured fixed (t ++ [kv]) n (ResolverMerge.take fixed m kv) := by
  rw [chargesFit, decide_eq_true_eq, ← M.totalWith_eq] at hfits
  have hnot := hfree
  unfold ignored at hnot
  rw [ResolverMerge.take, hnot, if_neg Bool.false_ne_true, if_neg (Nat.not_lt.mpr hfits)]
  refine ⟨?_, M.dropped, ?_,
    List.forall_mem_append.mpr ⟨M.free, List.forall_mem_singleton.mpr hfree⟩⟩
  · unfold Resource.merge
    rw [merge_append, M.configured]
    rfl
  · unfold Resource.merge
    rw [merge_append]
    exact M.charges.set kv

theorem refuse (M : Merges configured fixed t n m) (hfree : ignored fixed kv = false)
    (hover : chargesFit configured fixed t kv = false) :
    Merges configured fixed t (n + 1) (ResolverMerge.take fixed m kv) := by
  rw [chargesFit, decide_eq_false_iff_not, ← M.totalWith_eq, Nat.not_le] at hover
  unfold ignored at hfree
  rw [ResolverMerge.take, hfree, if_neg Bool.false_ne_true, if_pos hover]
  exact ⟨M.configured, by rw [M.dropped, UInt64.ofNat_add]; rfl, M.charges, M.free⟩

end Merges

/-- The loop, from the budget that holds the fixed layers. -/
def runMerge (configured answer : List KeyValue) (fixed : LeafResourceLayers) : ResolverMerge :=
  answer.foldl (ResolverMerge.take fixed)
    { budget := (chargeFixedLayers { fixed with declared := [], configured } {}).1, configured }

theorem mergeResolverResource_eq (configured answer : List KeyValue) (fixed : LeafResourceLayers) :
    mergeResolverResource configured answer fixed =
      ((runMerge configured answer fixed).configured, (runMerge configured answer fixed).dropped) :=
  rfl

/-- The loop accepts what is offered in order while the budget has room. -/
theorem runMerge_charged (configured answer : List KeyValue) (fixed : LeafResourceLayers) :
    Merges configured fixed
      (Greedy.taken (chargesFit configured fixed) (offered answer fixed))
      (Greedy.refused (chargesFit configured fixed) (offered answer fixed))
      (runMerge configured answer fixed) :=
  Greedy.foldl_invariant
    (fun _ _ _ _ hskip M => M.skip hskip)
    (fun _ _ _ _ hfree hfits M => M.take hfree hfits)
    (fun _ _ _ _ hfree hover M => M.refuse hfree hover)
    ⟨rfl, rfl, chargeFixedLayers_spec { fixed with declared := [], configured }, by simp⟩ answer

/-! ### End to end -/

/-- The time mode of a leaf: the resolver's, else that of its static entry, else the
default. -/
def entryMode (o : LeafReceiverOptions) (leafId : Bytes) (answer : Option LeafConfig) :
    Option LeafTimeMode :=
  ((answer.bind LeafConfig.timeMode).or ((staticLeaf o leafId).bind LeafConfig.timeMode)).or
    o.defaultTimeMode

def entryBudget (o : LeafReceiverOptions) (leafId : Bytes) (answer : Option LeafConfig) : Nat :=
  (budgetOf o (entryMode o leafId answer)).1

/-- What a leaf is configured with: the Resource of its static entry, and over it what the
resolver offers, in order, while the budget has room. -/
def entryResource (o : LeafReceiverOptions) (leafId : Bytes) (answer : Option LeafConfig) :
    List KeyValue :=
  let static := ((staticLeaf o leafId).map LeafConfig.resource).getD []
  match answer with
  | none => static
  | some c =>
      let fixed : LeafResourceLayers :=
        { defaults := o.leafDefaultsResource, declared := [], configured := []
          idKey := o.leafIdAttribute, leafId, budget := entryBudget o leafId answer }
      Resource.merge static (Greedy.taken (chargesFit static fixed) (offered c.resource fixed))

/-- The layers the operator sets fit in the entry's budget with the id and the
placeholder, or some attribute of the leaf's own takes the place of a longer
default or of the placeholder and brings them there. -/
def FitsBudget (o : LeafReceiverOptions) (leafId : Bytes) (answer : Option LeafConfig)
    (declared : List KeyValue) : Prop :=
  let configured := entryResource o leafId answer
  let fixed := fixedLayers o.leafDefaultsResource configured o.leafIdAttribute leafId
  resourceBytes fixed ≤ entryBudget o leafId answer ∨
    ∃ kv ∈ declared, isReserved kv.key = false ∧ kv.key ∉ configured.map KeyValue.key ∧
      ¬ (o.leafIdAttribute ≠ [] ∧ kv.key = o.leafIdAttribute) ∧
      resourceBytes (put KeyValue.key fixed kv) ≤ entryBudget o leafId answer

instance (o : LeafReceiverOptions) (leafId : Bytes) (answer : Option LeafConfig)
    (declared : List KeyValue) : Decidable (FitsBudget o leafId answer declared) := by
  unfold FitsBudget
  infer_instance

/-- The entry that is made of the static settings and the resolver's answer. -/
theorem resolveSettings_entry (o : LeafReceiverOptions) (leafId : Bytes)
    (answer : Option LeafConfig) :
    (resolveSettings o leafId answer).1.resource = entryResource o leafId answer ∧
      (budgetFor o (resolveSettings o leafId answer).1).1 = entryBudget o leafId answer := by
  have hstatic : (staticSettings o leafId).resource =
      ((staticLeaf o leafId).map LeafConfig.resource).getD [] := by
    unfold staticSettings
    cases staticLeaf o leafId <;> rfl
  have hmode : (staticSettings o leafId).timeMode =
      (staticLeaf o leafId).bind LeafConfig.timeMode := by
    unfold staticSettings
    cases staticLeaf o leafId <;> rfl
  cases answer with
  | none =>
      refine ⟨hstatic, ?_⟩
      unfold budgetFor effectiveMode entryBudget entryMode resolveSettings
      rw [← hmode]
      rfl
  | some c =>
      have hbudget : (budgetFor o (resolveSettings o leafId (some c)).1).1 =
          entryBudget o leafId (some c) := by
        unfold budgetFor effectiveMode entryBudget entryMode resolveSettings
        rw [← hmode]
        rfl
      refine ⟨?_, hbudget⟩
      unfold entryResource
      rw [← hstatic, ← hbudget]
      exact (runMerge_charged _ _ _).configured

/-- When the Resource of a leaf is within the budget of its entry's effective
time mode. Every `leaf_defaults` table the builder passes on has distinct keys,
since it is merged by `Resource::Merge`. -/
theorem resource_within_budget (o : LeafReceiverOptions)
    (hkeys : (o.leafDefaultsResource.map KeyValue.key).Nodup) (answer : Option LeafConfig)
    (leafId : Bytes) (declared : List KeyValue) :
    let s := (resolveSettings o leafId answer).1
    resourceBytes (resolveResource o s leafId declared).resource ≤ (budgetFor o s).1 ↔
      FitsBudget o leafId answer declared := by
  intro s
  obtain ⟨hresource, hbudget⟩ := resolveSettings_entry o leafId answer
  unfold resolveResource FitsBudget
  rw [← hresource, ← hbudget, resolveLeafResource_bytes _ hkeys, admit_le_iff]
  apply or_congr Iff.rfl
  apply exists_congr
  intro kv
  apply and_congr Iff.rfl
  unfold passedOver
  rw [Bool.or_eq_false_iff, and_assoc]
  apply and_congr Iff.rfl
  rw [← Bool.not_eq_true, List.contains_iff_mem, mem_pinned, not_or, and_assoc]

/-- Options whose defaults leave no room for the id and the placeholder. -/
def tightOptions : LeafReceiverOptions where
  maxLeafResourceBytes := 16
  leafDefaultsResource := [⟨ascii "site", .string (ascii "north-yard-7")⟩]

/-- A resolver moves the leaf to a budget of 44 bytes, which has no room for the rack it
adds; a short name of the leaf's own takes the place of the placeholder and fits. -/
theorem resource_within_budget_tight :
    let o := { tightOptions with maxNodeResourceBytes := 44 }
    let answer : Option LeafConfig :=
      some { timeMode := some .unix, resource := [⟨ascii "rack", .string (ascii "a")⟩] }
    let s := (resolveSettings o (ascii "a") answer).1
    ¬ FitsBudget o (ascii "a") answer [] ∧
      resourceBytes (resolveResource o s (ascii "a")
        [⟨serviceNameKey, .string (ascii "b")⟩]).resource ≤ (budgetFor o s).1 := by
  intro o answer s
  refine ⟨by decide +kernel, ?_⟩
  exact (resource_within_budget o (by decide) answer (ascii "a") _).mpr (by decide +kernel)

/-- Accepted options, and a leaf whose Resource is over the budget. -/
theorem over_budget_accepted :
    ¬ ∀ (o : LeafReceiverOptions) (answer : Option LeafConfig) (leafId : Bytes)
      (declared : List KeyValue), o.enabled = true → validateLeafReceiverOptions o = .ok () →
      1 ≤ leafId.length → leafId.length ≤ 128 →
      resourceBytes
        (resolveResource o (resolveSettings o leafId answer).1 leafId declared).resource ≤
        (budgetFor o (resolveSettings o leafId answer).1).1 := by
  intro h
  have hbytes := h tightOptions none (ascii "a") [] rfl (by decide +kernel) (by decide) (by decide)
  exact absurd hbytes (by decide +kernel)

end Microtel.Concentrator
