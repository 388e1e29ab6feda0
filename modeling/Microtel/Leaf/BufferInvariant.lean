import Microtel.Leaf.AbstractRuns

/-!
The representation invariant of the record buffer, in the terms of the source's
own records: the span table below the chunks, the chunks tiling the space up to
the Resource, a chunk list for every used slot, and the list of ended slots.
-/

namespace Microtel.Leaf

open ByteMemory LinkedList

/-- The key of an attribute chunk. -/
def chunkKey (st : LeafState) (o : UInt32) : Bytes :=
  (unpackKv .wrap st.mem (chunkPayload o)).1.key

def ofKind (st : LeafState) (kind : ChunkKind) (o : UInt32) : Bool := (getChunk st o).kind = kind

/-- The list from `head` of slot `s` is `l`: it ends at `tail`, visits exactly the
chunks of `cs` in use that the slot owns, and has what the record counts. -/
structure ChunkList (st : LeafState) (cs : List UInt32) (s : UInt16) (l : List UInt32) : Prop where
  links : IsList (fun o => (getChunk st o).next) none32 (getSlot st s).head l
  visitsOnce : l.Nodup
  tail : (getSlot st s).tail = last none32 l
  inside : ∀ o ∈ l, st.dataLow ≤ o ∧ o < st.persistOff
  owned : ∀ o, o ∈ l ↔ o ∈ cs ∧ (getChunk st o).kind ≠ .dead ∧ (getChunk st o).owner = s
  headNone : (getSlot st s).head = none32 ↔ l = []
  tailNone : (getSlot st s).tail = none32 ↔ l = []
  attrCount : (getSlot st s).attrCount.toNat = l.countP (ofKind st .attr)
  eventCount : (getSlot st s).eventCount.toNat = l.countP (ofKind st .event)
  oneName : l.countP (ofKind st .name) ≤ 1
  oneStatus : l.countP (ofKind st .status) ≤ 1
  keys : ((l.filter (ofKind st .attr)).map (chunkKey st)).Nodup

/-- The list of ended slots. -/
structure EndedList (st : LeafState) (l : List UInt16) : Prop where
  links : IsList (fun s => (getSlot st s).nextEnded) none16 st.endedHead l
  visitsOnce : l.Nodup
  ended : ∀ s, s ∈ l ↔ s < st.slotCount ∧ (getSlot st s).state = .ended
  tail : st.endedTail = last none16 l
  count : st.endedCount.toNat = l.length

structure BufferInv (st : LeafState) : Prop where
  table : st.slotCount.toNat * sizeofSpanRec ≤ st.dataLow.toNat
  low : st.dataLow ≤ st.persistOff
  persist : st.persistOff ≤ st.bufSize
  chunks : ∃ cs, Tiles st st.dataLow.toNat cs st.persistOff.toNat ∧
    ∀ s < st.slotCount, (getSlot st s).state ≠ .free → ∃ l, ChunkList st cs s l
  lastUsed : st.slotCount ≠ 0 → (getSlot st (st.slotCount - 1)).state ≠ .free
  endedSlots : ∃ l, EndedList st l
  writes : st.high ≤ st.persistOff.toNat

section

variable {st : LeafState} {S : Store} {cs : List UInt32} {ch : UInt16 → List UInt32} {s : UInt16}
  {e : Entry}

/-- Counting chunks of a kind is counting items of the kind. -/
theorem countP_ofKind {l : List UInt32} {cells : List Cell}
    (hcells : List.Forall₂ Holds (l.map (coreAt st)) cells) {α : Type} (f : Item → Option α)
    (kind : ChunkKind) (hf : ∀ i, (f i).isSome = decide (i.kind = kind)) :
    l.countP (ofKind st kind) = (pick f cells).length := by
  induction l generalizing cells with
  | nil =>
      cases hcells
      rfl
  | cons o l ih =>
      cases hcells with
      | @cons _ c _ cells hc hrest =>
          have hkind : (getChunk st o).kind = c.item.kind := hc.kind
          have hsome := hf c.item
          rw [List.countP_cons, ih hrest, pick_cons]
          unfold ofKind
          rw [hkind]
          cases hitem : f c.item with
          | none =>
              rw [hitem] at hsome
              have hne : decide (c.item.kind = kind) = false := hsome.symm
              simp [hne]
          | some a =>
              rw [hitem] at hsome
              have heq : decide (c.item.kind = kind) = true := hsome.symm
              simp [heq]

/-- The keys on a chunk list are the keys of the span's attributes. -/
theorem map_chunkKey {l : List UInt32} {cells : List Cell}
    (hcells : List.Forall₂ Holds (l.map (coreAt st)) cells) :
    (l.filter (ofKind st .attr)).map (chunkKey st) = (pick Item.attr? cells).map Attr.key := by
  induction l generalizing cells with
  | nil =>
      cases hcells
      rfl
  | cons o l ih =>
      cases hcells with
      | @cons _ c _ cells hc hrest =>
          have hkind : (getChunk st o).kind = c.item.kind := hc.kind
          have hread := hc.read
          have hlt := hc.size_lt
          obtain ⟨item, cap⟩ := c
          cases item with
          | attr a =>
              have hkey : chunkKey st o = a.key := by
                unfold chunkKey
                rw [unpackKv_eq (w := .wrap) hread hlt]
              simp [ofKind, hkind, Item.kind, pick_cons, Item.attr?, hkey, ih hrest]
          | name text => simp [ofKind, hkind, Item.kind, pick_cons, Item.attr?, ih hrest]
          | event time title attrs =>
              simp [ofKind, hkind, Item.kind, pick_cons, Item.attr?, ih hrest]
          | status text => simp [ofKind, hkind, Item.kind, pick_cons, Item.attr?, ih hrest]

theorem Rep.chunkList (R : Rep st S cs ch) (V : S.Valid) (hs : s < st.slotCount)
    (he : S.entry s = some e) : ChunkList st cs s (ch s) := by
  have hused := R.used hs he
  have hcells := (R.held s hs e he).cells
  have hentry := V.entries s e he
  have hne := (R.heap.list s hused).ne_nil
  constructor
  · exact R.heap.list s hused
  · exact (R.heap.list s hused).nodup
  · exact R.heap.tail s hused
  · intro o ho
    obtain ⟨hlow, hsize, hend⟩ := R.heap.arena.tiles.mem_bounds (R.heap.mem_cs ho)
    have h24 : sizeofChunkHdr = 24 := rfl
    rw [UInt32.le_iff_toNat_le, UInt32.lt_iff_toNat_lt]
    omega
  · intro o
    rw [R.heap.mem]
    simp [Owns]
  · exact (R.heap.list s hused).nil_iff
  · rw [R.heap.tail s hused]
    exact last_eq_nil_iff hne
  · rw [R.attrCount V hs he, countP_ofKind hcells Item.attr? .attr]
    · rfl
    · intro i
      cases i <;> simp [Item.attr?, Item.kind]
  · rw [R.eventCount V hs he, countP_ofKind hcells Item.event? .event]
    · rfl
    · intro i
      cases i <;> simp [Item.event?, Item.kind]
  · rw [countP_ofKind hcells Item.name? .name]
    · exact hentry.names_le
    · intro i
      cases i <;> simp [Item.name?, Item.kind]
  · rw [countP_ofKind hcells Item.status? .status]
    · exact hentry.statuses_le
    · intro i
      cases i <;> simp [Item.status?, Item.kind]
  · rw [map_chunkKey hcells]
    exact hentry.keys_nodup

theorem Rep.endedSlots (R : Rep st S cs ch) (V : S.Valid) : EndedList st S.ended := by
  refine ⟨R.endedList, V.ended_nodup, ?_, R.endedTail, R.endedCount⟩
  intro t
  rw [V.ended_iff]
  constructor
  · rintro ⟨e, he, hended⟩
    have ht : t < st.slotCount := by
      rw [R.count]
      exact V.bound t e he
    refine ⟨ht, ?_⟩
    rw [(R.held t ht e he).state, hended]
    rfl
  · rintro ⟨ht, hstate⟩
    cases he : S.entry t with
    | none =>
        rw [R.free t ht he] at hstate
        simp at hstate
    | some e =>
        refine ⟨e, rfl, ?_⟩
        rw [(R.held t ht e he).state] at hstate
        by_contra hopen
        simp [hopen] at hstate

/-- A buffer that represents a valid store satisfies the invariant. -/
theorem Rep.bufferInv (R : Rep st S cs ch) (V : S.Valid) : BufferInv st where
  table := R.heap.arena.table_le
  low := UInt32.le_iff_toNat_le.mpr R.heap.arena.tiles.le
  persist := UInt32.le_iff_toNat_le.mpr R.heap.arena.persist_le
  chunks := by
    refine ⟨cs, R.heap.arena.tiles, ?_⟩
    intro s hs hused
    cases he : S.entry s with
    | none => exact absurd (R.free s hs he) hused
    | some e => exact ⟨ch s, R.chunkList V hs he⟩
  lastUsed := by
    intro hne
    rw [R.count] at hne ⊢
    obtain ⟨e, he⟩ := Option.isSome_iff_exists.mp (V.last hne)
    have hlt := V.bound _ e he
    exact (R.used (by rw [R.count]; exact hlt) he).2
  endedSlots := ⟨S.ended, R.endedSlots V⟩
  writes := R.heap.arena.high_le

end

theorem Tracks.bufferInv {st : LeafState} {S? : Option Store} (T : Tracks st S?)
    (hlive : checkLeaf st = .ok) : BufferInv st := by
  cases S? with
  | none =>
      have hmagic : st.magic ≠ leafMagic := T
      simp [checkLeaf, hmagic] at hlive
  | some S =>
      obtain ⟨V, cs, ch, R⟩ := T
      exact R.bufferInv V

/-- The buffer of a leaf satisfies the invariant after any run of calls, and no
call of the run depends on what 32-bit arithmetic does outside its range. -/
theorem run_bufferInv {w : Word32} {leaf st₀ st : LeafState} {leafSize bufferSize : Nat}
    {config : Option Config} {buffer buffer' : Option Mem} {calls : List (Callbacks × Call)}
    {os : List Outcome}
    (hinit : init w leaf leafSize config buffer bufferSize = (.ok, st₀, buffer'))
    (hrun : run w st₀ calls = some (st, os)) :
    (checkLeaf st = .ok → BufferInv st) ∧
      ∀ ω, init ω leaf leafSize config buffer bufferSize = (.ok, st₀, buffer') ∧
        run ω st₀ calls = some (st, os) := by
  refine ⟨?_, ?_⟩
  · intro hlive
    obtain ⟨c, S?, -, -, -, T⟩ := run_tracks hinit hrun
    exact T.bufferInv hlive
  · intro ω
    obtain ⟨c, -, -, htracks⟩ := Tracks.init hinit
    obtain ⟨-, hword⟩ := htracks.run (w := w) (ω := ω) calls
    refine ⟨?_, ?_⟩
    · rw [init_eq] at hinit ⊢
      exact hinit
    · rw [← hword]
      exact hrun

theorem run_bufferInv_pump :
    ∃ st os, run Word32.wrap pumpInit.2.1 pumpCalls = some (st, os) ∧ checkLeaf st = .ok ∧
      BufferInv st := by
  obtain ⟨⟨st, os⟩, hrun⟩ := pumpRun_some
  have hlive : ((run Word32.wrap pumpInit.2.1 pumpCalls).map fun r => checkLeaf r.1) =
      some .ok := by decide +kernel
  rw [hrun] at hlive
  have hcheck := Option.some.inj hlive
  exact ⟨st, os, hrun, hcheck, (run_bufferInv pumpInit_ok hrun).1 hcheck⟩

end Microtel.Leaf
