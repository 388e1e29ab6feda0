import Microtel.Leaf.Starting

/-!
Releasing the ended spans after a successful encode: the walk over the ended
list, the trim of the table and the compaction that drops the released chunks.
-/

namespace Microtel.Leaf

open ByteMemory Loop LinkedList

/-! ### The walk over the ended list -/

/-- The state in which the slots of `done` have been set free. -/
structure Released (st st' : LeafState) (cs : List UInt32) (done : List UInt16) : Prop
    extends HeapFrame st st' cs where
  arena : Arena st' cs
  headers : ∀ o ∈ cs, getChunk st' o = getChunk st o
  slots : ∀ t, getSlot st' t =
    if t ∈ done then { getSlot st t with state := .free } else getSlot st t

section

variable {st st' : LeafState} {S : Store} {cs : List UInt32} {ch : UInt16 → List UInt32}
  {w ω : Word32} {done : List UInt16} {s : UInt16}

theorem Released.refl (A : Arena st cs) : Released st st cs [] where
  scalars := rfl
  core _ _ := rfl
  persist _ := Mem.AgreeOn.refl _ _ _
  arena := A
  headers _ _ := rfl
  slots t := by simp

/-- One round of the walk. -/
theorem Released.step (I : Released st st' cs done) (hs : s < st.slotCount) (hnot : s ∉ done) :
    Released st (releaseStep (st', s)).1 cs (done ++ [s]) ∧
      (releaseStep (st', s)).2 = (getSlot st s).nextEnded := by
  have hslot : getSlot st' s = getSlot st s := by
    rw [I.slots, if_neg hnot]
  have hs' : s < st'.slotCount := by
    rw [I.scalars]
    exact hs
  have F := I.arena.heapFrame_putSlot hs' { getSlot st' s with state := .free }
  unfold releaseStep
  dsimp only
  refine ⟨⟨I.toHeapFrame.trans F, I.arena.putSlot hs' _, ?_, ?_⟩, by rw [hslot]⟩
  · intro o ho
    rw [I.arena.getChunk_putSlot hs' ho, I.headers o ho]
  · intro t
    rw [getSlot_putSlot]
    by_cases hts : t = s
    · subst hts
      rw [if_pos rfl, if_pos (by simp), hslot]
    · rw [if_neg hts, I.slots]
      simp [hts]

/-- The walk frees exactly the ended slots. -/
theorem Rep.released (R : Rep st S cs ch) (V : S.Valid) :
    Released st (whileLoop (fun s => decide (s.2 ≠ none16)) releaseStep st.slotCount.toNat
      (st, st.endedHead)).1 cs S.ended := by
  have hlt := R.ended_lt V
  have hlen : S.ended.length ≤ st.slotCount.toNat := by
    have hsub : S.ended ⊆ slots st := fun t ht => mem_slots.mpr (hlt t ht)
    have hle := (List.subperm_of_subset V.ended_nodup hsub).length_le
    simpa [slots] using hle
  have hrun := whileLoop_visits (fun s : LeafState × UInt16 => decide (s.2 ≠ none16))
    releaseStep
    (fun (xs : List UInt16) (p : LeafState × UInt16) => ∃ done, S.ended = done ++ xs ∧
      Released st p.1 cs done ∧ IsList (fun s => (getSlot st s).nextEnded) none16 p.2 xs)
    (by
      rintro p ⟨done, -, -, hlist⟩
      have hend : p.2 = none16 := hlist
      simp [hend])
    (by
      rintro t xs ⟨st', p⟩ ⟨done, hsplit, I, hlist⟩
      have hin : t ∈ S.ended := by rw [hsplit]; simp
      have hnodup := V.ended_nodup
      rw [hsplit] at hnodup
      have hnot : t ∉ done := fun h => (List.disjoint_of_nodup_append hnodup) h (by simp)
      obtain ⟨rfl, hne, hrest⟩ := hlist
      obtain ⟨I', hnext⟩ := I.step (hlt _ hin) hnot
      refine ⟨by simpa using hne, done ++ [_], by rw [hsplit]; simp, I', ?_⟩
      rw [hnext]
      exact hrest)
    S.ended (st, st.endedHead) st.slotCount.toNat hlen
    ⟨[], rfl, Released.refl R.heap.arena, R.endedList⟩
  obtain ⟨done, hdone, I, -⟩ := hrun
  rw [List.append_nil] at hdone
  rw [hdone]
  exact I

/-! ### The released table -/

/-- Lists survive when slots are only set free or dropped. -/
theorem Heap.restrict {loose : List UInt32} (H : Heap st cs ch loose) (A : Arena st' cs)
    (hslots : ∀ t, Used st' t → Used st t ∧ (getSlot st' t).head = (getSlot st t).head ∧
      (getSlot st' t).tail = (getSlot st t).tail)
    (hhdr : ∀ o ∈ cs, getChunk st' o = getChunk st o) : Heap st' cs ch loose := by
  refine ⟨A, ?_, ?_, ?_⟩
  · intro t ht
    obtain ⟨hused, hhead, -⟩ := hslots t ht
    rw [hhead]
    refine (H.list t hused).congr fun o ho => ?_
    unfold nextOf
    rw [hhdr o (H.mem_cs ho)]
  · intro t ht
    obtain ⟨hused, -, htail⟩ := hslots t ht
    rw [htail]
    exact H.tail t hused
  · intro t o
    rw [H.mem]
    unfold Owns
    constructor
    · rintro ⟨⟨ho, hkind, howner⟩, hnot⟩
      rw [hhdr o ho]
      exact ⟨⟨ho, hkind, howner⟩, hnot⟩
    · rintro ⟨⟨ho, hkind, howner⟩, hnot⟩
      rw [hhdr o ho] at hkind howner
      exact ⟨⟨ho, hkind, howner⟩, hnot⟩

namespace Store

/-- The entries that are left after a release. -/
def kept (S : Store) : UInt16 → Option Entry := fun s => if s ∈ S.ended then none else S.entry s

theorem kept_eq_some {e : Entry} : S.kept s = some e ↔ s ∉ S.ended ∧ S.entry s = some e := by
  unfold kept
  split <;> simp_all

end Store

/-- The state with an empty ended list. -/
def LeafState.noneEnded (st : LeafState) : LeafState :=
  { st with endedHead := none16, endedTail := none16, endedCount := 0 }

/-- The state before the compaction of `release_ended`. -/
def releasedTable (st : LeafState) : LeafState :=
  trimSlots (whileLoop (fun s => decide (s.2 ≠ none16)) releaseStep st.slotCount.toNat
    (st, st.endedHead)).1.noneEnded

theorem releaseEnded_eq (w : Word32) (st : LeafState) :
    releaseEnded w st = { compact w (releasedTable st) with counters := .zero } := by
  unfold releaseEnded releasedTable LeafState.noneEnded
  dsimp only

/-- What is left in the buffer before the compaction of `release_ended`. -/
structure Remains (st st₁ : LeafState) (S : Store) (cs : List UInt32)
    (ch : UInt16 → List UInt32) : Prop where
  heap : Heap st₁ cs ch []
  scalars : st₁ = { st with
    mem := st₁.mem
    high := st₁.high
    slotCount := Store.trimCount S.kept S.count.toNat
    endedHead := none16
    endedTail := none16
    endedCount := 0 }
  persist : ∀ b, Mem.AgreeOn st₁.mem st.mem st.persistOff.toNat b
  core : ∀ o ∈ cs, coreAt st₁ o = coreAt st o
  free : ∀ t < st.slotCount, S.kept t = none → (getSlot st₁ t).state = .free
  kept : ∀ t e, S.kept t = some e → Used st t ∧ Used st₁ t ∧ getSlot st₁ t = getSlot st t

theorem Rep.remains (R : Rep st S cs ch) (V : S.Valid) :
    Remains st (releasedTable st) S cs ch := by
  have I := R.released V
  unfold releasedTable
  generalize (whileLoop (fun s => decide (s.2 ≠ none16)) releaseStep st.slotCount.toNat
    (st, st.endedHead)).1 = st₀ at I
  have hcount : st₀.slotCount = st.slotCount := by rw [I.scalars]
  have hfree : ∀ t < st.slotCount, (getSlot st₀ t).state = .free ↔ S.kept t = none := by
    intro t ht
    rw [I.slots, Store.kept]
    by_cases hmem : t ∈ S.ended
    · simp [hmem]
    · simp only [if_neg hmem]
      exact R.free_iff ht
  have htrim : Leaf.trimSlots st₀.noneEnded =
      { st₀.noneEnded with slotCount := Store.trimCount S.kept S.count.toNat } := by
    have h := trimSlots_eq S.kept st₀.slotCount.toNat st₀.noneEnded rfl
      (fun t ht => hfree t (by rw [← hcount]; exact ht))
    have hn : S.count.toNat = st₀.slotCount.toNat := by rw [hcount, R.count]
    rw [hn]
    exact h
  rw [htrim]
  obtain ⟨hle, hkeep, -⟩ := Store.trimCount_spec S.kept S.count.toNat S.count.toNat_lt
  have hused : ∀ t, t < Store.trimCount S.kept S.count.toNat →
      (getSlot st₀ t).state ≠ .free → Used st t ∧ getSlot st₀ t = getSlot st t := by
    intro t ht hstate
    have hlt : t < st.slotCount := by
      rw [R.count, UInt16.lt_iff_toNat_lt]
      have h := UInt16.lt_iff_toNat_lt.mp ht
      omega
    have hnot : t ∉ S.ended := by
      intro hmem
      rw [I.slots, if_pos hmem] at hstate
      simp at hstate
    have hslot : getSlot st₀ t = getSlot st t := by rw [I.slots, if_neg hnot]
    rw [hslot] at hstate
    exact ⟨⟨hlt, hstate⟩, hslot⟩
  have A : Arena { st₀.noneEnded with
      slotCount := Store.trimCount S.kept S.count.toNat } cs := by
    refine ⟨I.arena.bufSize_le, I.arena.persist_le, ?_, I.arena.tiles.congr fun _ _ => rfl,
      I.arena.high_le⟩
    have htable := I.arena.table_le
    refine Nat.le_trans ?_ htable
    unfold tableEnd slotOff
    apply Nat.mul_le_mul_right
    dsimp only
    rw [hcount, R.count]
    exact hle
  refine ⟨R.heap.restrict A ?_ I.headers, ?_, I.persist, I.core, ?_, ?_⟩
  · rintro t ⟨ht, hstate⟩
    obtain ⟨hu, hslot⟩ := hused t ht hstate
    have hhead := congrArg SpanRec.head hslot
    have htail := congrArg SpanRec.tail hslot
    exact ⟨hu, hhead, htail⟩
  · rw [I.scalars]
    rfl
  · intro t ht hnone
    exact (hfree t ht).mpr hnone
  · intro t e he
    obtain ⟨hnot, he'⟩ := Store.kept_eq_some.mp he
    have hb := V.bound t e he'
    have hsome : (S.kept (UInt16.ofNat t.toNat)).isSome := by
      rw [UInt16.ofNat_toNat, he]
      rfl
    have hin : t < Store.trimCount S.kept S.count.toNat :=
      UInt16.lt_iff_toNat_lt.mpr (hkeep t.toNat (UInt16.lt_iff_toNat_lt.mp hb) hsome)
    have hu := R.used (by rw [R.count]; exact hb) he'
    have hslot : getSlot st₀ t = getSlot st t := by rw [I.slots, if_neg hnot]
    refine ⟨hu, ⟨hin, ?_⟩, hslot⟩
    change (getSlot st₀ t).state ≠ .free
    rw [hslot]
    exact hu.2

/-- `release_ended`. -/
theorem Rep.releaseEnded (R : Rep st S cs ch) (V : S.Valid) :
    (∃ cs' ch', Rep (releaseEnded w st) S.releaseEnded cs' ch') ∧
      Leaf.releaseEnded w st = Leaf.releaseEnded ω st := by
  obtain ⟨H, hscalars, hpersist, hcore, hfree, hkept⟩ := R.remains V
  rw [releaseEnded_eq, releaseEnded_eq]
  generalize releasedTable st = st₁ at *
  refine ⟨?_, by rw [H.compact_word (w := w) (ω := ω)]⟩
  obtain ⟨cs', ch', H', C', M, -⟩ := H.compact (w := w)
  have hcount : st₁.slotCount = Store.trimCount S.kept S.count.toNat := by rw [hscalars]
  have hpo : st₁.persistOff = st.persistOff := by rw [hscalars]
  have hle : ∀ t < st₁.slotCount, t < st.slotCount := by
    intro t ht
    obtain ⟨hle, -⟩ := Store.trimCount_spec S.kept S.count.toNat S.count.toNat_lt
    rw [hcount] at ht
    rw [R.count, UInt16.lt_iff_toNat_lt]
    have h := UInt16.lt_iff_toNat_lt.mp ht
    omega
  refine ⟨cs', ch', ?_⟩
  have R₁ : Rep (compact w st₁) { S with
      entry := S.kept, ended := [], count := Store.trimCount S.kept S.count.toNat } cs' ch' := by
    constructor
    · exact H'
    · exact C'
    · intro t ht e he
      rw [M.slotCount] at ht
      obtain ⟨hu, hu₁, hslot⟩ := hkept t e he
      obtain ⟨-, he'⟩ := Store.kept_eq_some.mp he
      have hheld := R.held t hu.1 e he'
      have hbody := M.body t ht
      refine ⟨?_, ?_⟩
      · rw [hbody, SpanRec.nextEnded_of_body hbody, hslot]
        exact hheld.body
      · have hsame : (ch t).map (coreAt st₁) = (ch t).map (coreAt st) := by
          apply List.map_congr_left
          intro x hx
          exact hcore x (R.heap.mem_cs hx)
        rw [M.contents t hu₁, hsame]
        exact hheld.cells
    · intro t ht hnone
      rw [M.slotCount] at ht
      rw [M.state ht]
      exact hfree t (hle t ht) hnone
    · have hhead : (compact w st₁).endedHead = none16 := by rw [M.scalars, hscalars]
      exact hhead
    · rw [M.scalars, hscalars]
      rfl
    · rw [M.scalars, hscalars]
      rfl
    · refine M.toKeeps.persistent (R.persistent.congr ?_ hpersist)
      rw [hscalars]
      exact ⟨rfl, rfl, rfl, rfl, rfl, rfl, rfl, rfl⟩
    · rw [M.scalars, hscalars]
      exact R.magic
    · have h : (compact w st₁).toLeafParams = st.toLeafParams := by rw [M.scalars, hscalars]
      rw [h]
      exact R.params
    · have h : (compact w st₁).toLeafVars = st.toLeafVars := by rw [M.scalars, hscalars]
      rw [h]
      exact R.vars
    · rw [M.scalars, hscalars]
      exact R.nextGen
    · rw [M.slotCount, hcount]
    · rw [M.persistOff, hpo]
      exact R.capacity
  exact R₁.mapCounters fun _ => .zero

end

end Microtel.Leaf
