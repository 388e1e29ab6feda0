import Microtel.Concentrator.Resource

/-!
What `ReadWireInfo` and `CheckWireInfo` take from a Resource, attribute by
attribute: the last integer under each known reserved key, whether a known key
has another type, and whether any key is reserved at all.
-/

namespace Microtel.Concentrator

def LeafWireInfo.get (info : LeafWireInfo) : Slot → Option Int64
  | .proto => info.proto
  | .timeMode => info.timeMode
  | .encodeTime => info.encodeTime
  | .syncAge => info.syncAge
  | .bootId => info.bootId
  | .droppedSpans => info.droppedSpans
  | .droppedItems => info.droppedItems

/-- The integer an attribute gives a slot. -/
def intFor (slot : Slot) (kv : KeyValue) : Option Int64 :=
  match slotFor kv.key, kv.value with
  | some slot', .int v => if slot' = slot then some v else none
  | _, _ => none

/-- The last integer under the key of a slot. -/
def headerValue (resource : List KeyValue) (slot : Slot) : Option Int64 :=
  (resource.filterMap (intFor slot)).getLast?

/-- No key is reserved. -/
def Undeclared (resource : List KeyValue) : Prop := ∀ kv ∈ resource, isReserved kv.key = false

/-- The known reserved keys have integer values. -/
def WellTyped (resource : List KeyValue) : Prop :=
  ∀ kv ∈ resource, (slotFor kv.key).isSome = true → ∃ v, kv.value = .int v

/-! ### Reading -/

theorem fill_get (info : LeafWireInfo) (v : Int64) (slot slot' : Slot) :
    (info.fill v slot).get slot' = if slot = slot' then some v else info.get slot' := by
  cases slot <;> cases slot' <;> rfl

theorem fill_flags (info : LeafWireInfo) (v : Int64) (slot : Slot) :
    (info.fill v slot).wrongType = info.wrongType ∧
      (info.fill v slot).declared = info.declared := by
  cases slot <;> exact ⟨rfl, rfl⟩

/-- The known keys are reserved. -/
theorem isReserved_of_slotFor {key : Bytes} (h : (slotFor key).isSome = true) :
    isReserved key = true := by
  by_contra hnot
  have hnone : slotFor key = none := by
    unfold slotFor
    rw [List.lookup_eq_none_iff]
    intro p hp
    have hkey : isReserved p.1 = true := by
      revert p
      decide
    rw [bne_iff_ne]
    rintro rfl
    exact hnot hkey
  rw [hnone] at h
  cases h

theorem read_get (info : LeafWireInfo) (kv : KeyValue) (slot : Slot) :
    (info.read kv).get slot = (intFor slot kv).or (info.get slot) := by
  unfold LeafWireInfo.read intFor
  cases hslot : slotFor kv.key with
  | none =>
      split
      · rfl
      · cases slot <;> rfl
  | some slot' =>
      have hreserved := isReserved_of_slotFor (Option.isSome_iff_exists.mpr ⟨slot', hslot⟩)
      rw [hreserved]
      simp only [Bool.not_true, Bool.false_eq_true, if_false]
      cases kv.value with
      | int v =>
          dsimp only
          rw [fill_get]
          split
          · rfl
          · cases slot <;> rfl
      | _ => cases slot <;> rfl

theorem readWireInfo_get (resource : List KeyValue) (slot : Slot) :
    (readWireInfo resource).get slot = headerValue resource slot := by
  induction resource using List.reverseRecOn with
  | nil => cases slot <;> rfl
  | append_singleton resource kv ih =>
      unfold readWireInfo headerValue at ih ⊢
      rw [List.foldl_append, List.foldl_cons, List.foldl_nil, read_get, ih, List.filterMap_append]
      cases h : intFor slot kv with
      | none => simp [h]
      | some v => simp [h]

/-- A declared header that passes for a mode: the version, the mode and what the
mode needs. -/
inductive Declares (resource : List KeyValue) : LeafTimeMode → Prop
  | concentratorStamped : headerValue resource .timeMode = some 0 →
      Declares resource .concentratorStamped
  | syncRelative : headerValue resource .timeMode = some 1 →
      (headerValue resource .encodeTime).isSome = true →
      (headerValue resource .syncAge).isSome = true → Declares resource .syncRelative
  | bootRelative : headerValue resource .timeMode = some 2 →
      (headerValue resource .encodeTime).isSome = true →
      (headerValue resource .bootId).isSome = true → Declares resource .bootRelative

end Microtel.Concentrator
