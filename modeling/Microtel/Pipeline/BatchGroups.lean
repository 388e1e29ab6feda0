import Microtel.Lib.FirstSeen
import Microtel.Pipeline.ProcessorRuns

/-!
`BatchSpanProcessor::ExportBatch` with its moves: the first pass moves the scope of
a group's first record out of the batch, the second moves the records. Whatever
is left in their place, the batches are the classes of a stable partition.
-/

namespace Microtel.Pipeline.Processor

open FirstSeen

variable {ρ : Type}

/-- The first pass, with the batch as it leaves it: `moved` stands where a scope was. -/
def findGroupsMoving [DecidableEq ρ] (own : ρ) (moved : InstrumentationScope) :
    List (QueuedSpan ρ) → List (Group ρ) → List Nat →
      List (QueuedSpan ρ) × List (Group ρ) × List Nat
  | [], groups, groupOf => ([], groups, groupOf)
  | item :: batch, groups, groupOf =>
      match groups.findIdx? (sameGroup own item) with
      | some g =>
          let (batch, found) := findGroupsMoving own moved batch groups (groupOf ++ [g])
          (item :: batch, found)
      | none =>
          let group : Group ρ :=
            { resource := owner own item.record, scope := item.scope, records := [] }
          let (batch, found) :=
            findGroupsMoving own moved batch (groups ++ [group]) (groupOf ++ [groups.length])
          ({ item with scope := moved } :: batch, found)

/-- The calls into the exporter: one `ExportGroup`, or an `Export` for each handle. -/
def exportBatch [DecidableEq ρ] (own : ρ) (grouped : Bool) (moved : InstrumentationScope)
    (batch : List (QueuedSpan ρ)) : List (List (BatchHandle ρ)) :=
  let (batch, groups, groupOf) := findGroupsMoving own moved batch [] []
  let handles : List (BatchHandle ρ) := (fillGroups batch groupOf groups).map fun group =>
    { records := group.records, resource := group.resource, scope := group.scope }
  if grouped then [handles] else handles.map ([·])

/-- The Resource and the scope a handle goes out under. -/
def handleKey (handle : BatchHandle ρ) : ρ × InstrumentationScope := (handle.resource, handle.scope)

/-- Only the records of the batch are read by the second pass. -/
theorem fillGroups_congr {batch batch' : List (QueuedSpan ρ)}
    (h : batch'.map QueuedSpan.record = batch.map QueuedSpan.record) (groupOf : List Nat)
    (groups : List (Group ρ)) :
    fillGroups batch' groupOf groups = fillGroups batch groupOf groups := by
  induction batch generalizing batch' groupOf groups with
  | nil =>
      rw [List.map_nil, List.map_eq_nil_iff] at h
      rw [h]
  | cons item batch ih =>
      cases batch' with
      | nil => cases h
      | cons item' batch' =>
          rw [List.map_cons, List.map_cons, List.cons.injEq] at h
          cases groupOf with
          | nil => rfl
          | cons g groupOf =>
              unfold fillGroups
              rw [h.1]
              exact ih h.2 groupOf _

/-- A group of one key takes the records of the key, in the order of the batch. -/
theorem fillGroups_eq {own : ρ} [DecidableEq ρ] (batch : List (QueuedSpan ρ)) (groupOf : List Nat)
    (groups : List (Group ρ)) (hdistinct : (groups.map Group.key).Nodup)
    (hassigned : Assigned own (groups.map Group.key) batch groupOf) :
    fillGroups batch groupOf groups = groups.map fun group =>
      { group with records :=
          group.records ++ (classOf (itemKey own) batch group.key).map QueuedSpan.record } := by
  induction batch generalizing groupOf groups with
  | nil =>
      cases hassigned
      simp [fillGroups, classOf]
  | cons item batch ih =>
      cases hassigned with
      | @cons _ g _ groupOf hkey hrest =>
          unfold fillGroups
          rw [← modify_key groups g item.record] at hrest
          have hdistinct' := hdistinct
          rw [← modify_key groups g item.record] at hdistinct'
          rw [ih groupOf _ hdistinct' hrest]
          apply List.ext_getElem?
          intro i
          rw [List.getElem?_map, List.getElem?_map, List.getElem?_modify]
          cases hi : groups[i]? with
          | none => rfl
          | some group =>
              have hkeys : (groups.map Group.key)[i]? = some group.key := by
                rw [List.getElem?_map, hi, Option.map_some]
              -- the keys are distinct, so the record's group is the only one of its key
              have hsame : g = i ↔ itemKey own item = group.key := by
                constructor
                · rintro rfl
                  rw [hkeys] at hkey
                  exact (Option.some.inj hkey).symm
                · intro heq
                  rw [heq] at hkey
                  obtain ⟨hlt, -⟩ := List.getElem?_eq_some_iff.mp hkey
                  exact (List.getElem?_inj hlt hdistinct).mp (hkey.trans hkeys.symm)
              simp only [Option.map_eq_map, Option.map_some, Option.some.injEq]
              rw [classOf_cons]
              by_cases hg : g = i
              · rw [if_pos hg, if_pos (hsame.mp hg)]
                simp [Group.key]
              · rw [if_neg hg, if_neg (fun heq => hg (hsame.mpr heq))]

section

variable [DecidableEq ρ]

theorem findIdx?_sameGroup_none {own : ρ} {item : QueuedSpan ρ} {groups : List (Group ρ)} :
    groups.findIdx? (sameGroup own item) = none ↔ itemKey own item ∉ groups.map Group.key := by
  rw [List.findIdx?_eq_none_iff, List.mem_map]
  constructor
  · rintro h ⟨group, hgroup, hkey⟩
    have hnot := h group hgroup
    rw [sameGroup_iff.mpr hkey] at hnot
    cases hnot
  · intro h group hgroup
    rw [Bool.eq_false_iff]
    intro hsame
    exact h ⟨group, hgroup, sameGroup_iff.mp hsame⟩

/-- The groups of the first pass, in the order their keys are first seen. -/
theorem findGroups_keys {own : ρ} (batch done : List (QueuedSpan ρ)) (groups : List (Group ρ))
    (groupOf : List Nat) (hkeys : groups.map Group.key = keys (itemKey own) done) :
    (findGroups own batch groups groupOf).1.map Group.key = keys (itemKey own) (done ++ batch) := by
  induction batch generalizing done groups groupOf with
  | nil => rw [List.append_nil]; exact hkeys
  | cons item batch ih =>
      rw [List.append_cons]
      unfold findGroups
      cases hfind : groups.findIdx? (sameGroup own item) with
      | some g =>
          apply ih (done ++ [item])
          have hold : itemKey own item ∈ groups.map Group.key := by
            by_contra hnew
            rw [findIdx?_sameGroup_none.mpr hnew] at hfind
            cases hfind
          rw [hkeys] at hold
          rw [keys_concat, if_pos hold, hkeys]
      | none =>
          apply ih (done ++ [item])
          have hnew := findIdx?_sameGroup_none.mp hfind
          rw [hkeys] at hnew
          rw [keys_concat, if_neg hnew, List.map_append, hkeys]
          rfl

/-- The handles of a batch: its classes. -/
theorem batchHandles_eq (own : ρ) (batch : List (QueuedSpan ρ)) :
    batchHandles own batch = (keys (itemKey own) batch).map fun key =>
      { records := (classOf (itemKey own) batch key).map QueuedSpan.record
        resource := key.1, scope := key.2 } := by
  have hkeys : (findGroups own batch [] []).1.map Group.key = keys (itemKey own) batch :=
    findGroups_keys batch [] [] [] rfl
  obtain ⟨hassigned, hempty⟩ := findGroups_spec batch [] [] []
    (List.Forall₂.nil : Assigned own [] [] []) (by simp)
  have hdistinct : ((findGroups own batch [] []).1.map Group.key).Nodup := by
    rw [hkeys]
    exact nodup_keys batch
  unfold batchHandles
  dsimp only
  rw [fillGroups_eq batch _ _ hdistinct hassigned, ← hkeys, List.map_map, List.map_map]
  apply List.map_congr_left
  intro group hgroup
  simp [Group.key, hempty group hgroup]

/-- What the moves leave behind is not looked at. -/
theorem findGroupsMoving_eq (own : ρ) (moved : InstrumentationScope) (batch : List (QueuedSpan ρ))
    (groups : List (Group ρ)) (groupOf : List Nat) :
    (findGroupsMoving own moved batch groups groupOf).1.map QueuedSpan.record =
        batch.map QueuedSpan.record ∧
      (findGroupsMoving own moved batch groups groupOf).2 =
        findGroups own batch groups groupOf := by
  induction batch generalizing groups groupOf with
  | nil => exact ⟨rfl, rfl⟩
  | cons item batch ih =>
      unfold findGroupsMoving findGroups
      cases groups.findIdx? (sameGroup own item) with
      | some g =>
          obtain ⟨hrecords, hfound⟩ := ih groups (groupOf ++ [g])
          exact ⟨by simp [hrecords], hfound⟩
      | none =>
          obtain ⟨hrecords, hfound⟩ := ih
            (groups ++ [{ resource := owner own item.record, scope := item.scope, records := [] }])
            (groupOf ++ [groups.length])
          exact ⟨by simp [hrecords], hfound⟩

theorem exportBatch_eq (own : ρ) (grouped : Bool) (moved : InstrumentationScope)
    (batch : List (QueuedSpan ρ)) : exportBatch own grouped moved batch =
      if grouped then [batchHandles own batch] else (batchHandles own batch).map ([·]) := by
  obtain ⟨hrecords, hfound⟩ := findGroupsMoving_eq own moved batch [] []
  unfold exportBatch batchHandles
  dsimp only
  rw [fillGroups_congr hrecords, ← hfound]

end

/-- The batches `ExportBatch` hands over are the classes of the queued spans by
Resource and scope, a null Resource being the processor's own: one for each key, in
the order the keys are first seen, each with the records of its key in the order of
the queue, and together with every record once. -/
theorem exportBatch_partition [DecidableEq ρ] (own : ρ) (grouped : Bool)
    (moved : InstrumentationScope) (batch : List (QueuedSpan ρ)) :
    let handles := (exportBatch own grouped moved batch).flatten
    exportBatch own grouped moved batch = (if grouped then [handles] else handles.map ([·])) ∧
      handles.map handleKey = keys (itemKey own) batch ∧
      (handles.map handleKey).Nodup ∧
      (∀ handle ∈ handles, handle.records =
        (classOf (itemKey own) batch (handleKey handle)).map QueuedSpan.record) ∧
      (handles.flatMap BatchHandle.scoped).Perm (batch.map QueuedSpan.scoped) := by
  intro handles
  have hhandles : handles = batchHandles own batch := by
    unfold handles
    rw [exportBatch_eq]
    cases grouped with
    | true => simp
    | false =>
        rw [if_neg (by simp), ← List.flatMap_def]
        exact List.flatMap_singleton' _
  have hkeys : handles.map handleKey = keys (itemKey own) batch := by
    rw [hhandles, batchHandles_eq, List.map_map]
    exact List.map_id _
  refine ⟨?_, hkeys, ?_, ?_, ?_⟩
  · rw [hhandles, exportBatch_eq]
  · rw [hkeys]
    exact nodup_keys batch
  · intro handle hmem
    rw [hhandles, batchHandles_eq] at hmem
    obtain ⟨key, -, rfl⟩ := List.mem_map.mp hmem
    rfl
  · rw [hhandles]
    exact batchHandles_perm own batch

end Microtel.Pipeline.Processor
