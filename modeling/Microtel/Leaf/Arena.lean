import Microtel.Lib.LinkedList
import Microtel.Leaf.Batch

/-!
The geometry of the record buffer: the span table at the bottom, then free
space, then chunks that tile the region up to the Resource. Everything the
list surgery and the compaction need about which writes can disturb which
records is proved here.
-/

namespace Microtel.Leaf

open ByteMemory Loop LinkedList

/-- The size field of the chunk at `o`. -/
def chunkSize (st : LeafState) (o : UInt32) : Nat := (getChunk st o).size.toNat

/-- Stepping by the size field from `lo` visits the chunks `cs` and lands
exactly on `hi`. -/
def Tiles (st : LeafState) : Nat → List UInt32 → Nat → Prop
  | lo, [], hi => lo = hi
  | lo, o :: cs, hi =>
      o.toNat = lo ∧ sizeofChunkHdr ≤ chunkSize st o ∧ Tiles st (lo + chunkSize st o) cs hi

namespace Tiles

variable {st st' : LeafState} {lo hi mid : Nat} {cs cs' : List UInt32} {o o' : UInt32}

theorem le (h : Tiles st lo cs hi) : lo ≤ hi := by
  induction cs generalizing lo with
  | nil => exact h.le
  | cons o cs ih =>
      have := ih h.2.2
      omega

theorem mem_bounds (h : Tiles st lo cs hi) (ho : o ∈ cs) :
    lo ≤ o.toNat ∧ sizeofChunkHdr ≤ chunkSize st o ∧ o.toNat + chunkSize st o ≤ hi := by
  induction cs generalizing lo with
  | nil => simp at ho
  | cons c cs ih =>
      obtain ⟨hlo, hsize, hrest⟩ := h
      rcases List.mem_cons.mp ho with rfl | ho
      · have := hrest.le
        exact ⟨by omega, hsize, by omega⟩
      · obtain ⟨h1, h2, h3⟩ := ih hrest ho
        exact ⟨by omega, h2, h3⟩

/-- Distinct chunks do not overlap. -/
theorem disjoint (h : Tiles st lo cs hi) (ho : o ∈ cs) (ho' : o' ∈ cs) (hne : o ≠ o') :
    o.toNat + chunkSize st o ≤ o'.toNat ∨ o'.toNat + chunkSize st o' ≤ o.toNat := by
  induction cs generalizing lo with
  | nil => simp at ho
  | cons c cs ih =>
      obtain ⟨hlo, -, hrest⟩ := h
      rcases List.mem_cons.mp ho with heq | hin
      · rcases List.mem_cons.mp ho' with heq' | hin'
        · exact absurd (heq.trans heq'.symm) hne
        · left
          have := (hrest.mem_bounds hin').1
          rw [heq]
          omega
      · rcases List.mem_cons.mp ho' with heq' | hin'
        · right
          have := (hrest.mem_bounds hin).1
          rw [heq']
          omega
        · exact ih hrest hin hin'

theorem append_iff :
    Tiles st lo (cs ++ cs') hi ↔ ∃ mid, Tiles st lo cs mid ∧ Tiles st mid cs' hi := by
  induction cs generalizing lo with
  | nil =>
      constructor
      · intro h
        exact ⟨lo, rfl, h⟩
      · rintro ⟨mid, rfl, h⟩
        exact h
  | cons o cs ih =>
      constructor
      · rintro ⟨hlo, hsize, hrest⟩
        obtain ⟨mid, h1, h2⟩ := ih.mp hrest
        exact ⟨mid, ⟨hlo, hsize, h1⟩, h2⟩
      · rintro ⟨mid, ⟨hlo, hsize, h1⟩, h2⟩
        exact ⟨hlo, hsize, ih.mpr ⟨mid, h1, h2⟩⟩

theorem end_unique {hi' : Nat} (h : Tiles st lo cs hi) (h' : Tiles st lo cs hi') : hi = hi' := by
  induction cs generalizing lo with
  | nil => exact h.symm.trans h'
  | cons o cs ih => exact ih h.2.2 h'.2.2

theorem congr (h : Tiles st lo cs hi) (hsize : ∀ o ∈ cs, chunkSize st' o = chunkSize st o) :
    Tiles st' lo cs hi := by
  induction cs generalizing lo with
  | nil => exact h
  | cons o cs ih =>
      obtain ⟨hlo, hle, hrest⟩ := h
      have ho := hsize o (by simp)
      refine ⟨hlo, by omega, ?_⟩
      rw [ho]
      exact ih hrest fun o' ho' => hsize o' (by simp [ho'])

theorem nodup (h : Tiles st lo cs hi) : cs.Nodup := by
  induction cs generalizing lo with
  | nil => exact List.nodup_nil
  | cons o cs ih =>
      refine List.nodup_cons.mpr ⟨?_, ih h.2.2⟩
      intro hmem
      have h1 := (h.2.2.mem_bounds hmem).1
      have h2 := h.1
      have h3 := h.2.1
      have h4 : sizeofChunkHdr = 24 := rfl
      omega

theorem length_le (h : Tiles st lo cs hi) : lo + sizeofChunkHdr * cs.length ≤ hi := by
  induction cs generalizing lo with
  | nil => simpa using h.le
  | cons o cs ih =>
      have h1 := ih h.2.2
      have h2 := h.2.1
      simp only [List.length_cons, Nat.mul_add, Nat.mul_one]
      omega

end Tiles

/-- The buffer is laid out as the source's header comment draws it, and every
write so far has stayed below the Resource. -/
structure Arena (st : LeafState) (cs : List UInt32) : Prop where
  bufSize_le : st.bufSize.toNat ≤ maxBuffer
  persist_le : st.persistOff.toNat ≤ st.bufSize.toNat
  table_le : tableEnd st ≤ st.dataLow.toNat
  tiles : Tiles st st.dataLow.toNat cs st.persistOff.toNat
  high_le : st.high ≤ st.persistOff.toNat

/-- Everything about a chunk but its place in a list. -/
structure ChunkCore where
  kind : ChunkKind
  owner : UInt16
  size : UInt32
  used : UInt32
  payload : Bytes

def coreAt (st : LeafState) (o : UInt32) : ChunkCore where
  kind := (getChunk st o).kind
  owner := (getChunk st o).owner
  size := (getChunk st o).size
  used := (getChunk st o).used
  payload := st.mem.read (chunkPayload o) (chunkSize st o - sizeofChunkHdr)

theorem coreAt_congr {st st' : LeafState} {o : UInt32} (hhdr : getChunk st' o = getChunk st o)
    (hread : st'.mem.read (chunkPayload o) (chunkSize st o - sizeofChunkHdr) =
      st.mem.read (chunkPayload o) (chunkSize st o - sizeofChunkHdr)) :
    coreAt st' o = coreAt st o := by
  unfold chunkSize at hread
  unfold coreAt chunkSize
  rw [hhdr, hread]

/-! ### Writes and what they leave alone -/

section Frame

variable {st : LeafState} {off : Nat} {bs : Bytes} {o : UInt32} {s : UInt16}

theorem getChunk_poke (h : o.toNat + sizeofChunkHdr ≤ off ∨ off + bs.length ≤ o.toNat) :
    getChunk (st.poke off bs) o = getChunk st o := by
  apply Mem.get_congr
  exact Mem.write_agreeOn st.mem off bs (by simpa using h)

theorem getSlot_poke (h : slotOff s + sizeofSpanRec ≤ off ∨ off + bs.length ≤ slotOff s) :
    getSlot (st.poke off bs) s = getSlot st s := by
  apply Mem.get_congr
  exact Mem.write_agreeOn st.mem off bs (by simpa using h)

theorem read_poke {a n : Nat} (h : a + n ≤ off ∨ off + bs.length ≤ a) :
    (st.poke off bs).mem.read a n = st.mem.read a n := by
  apply Mem.AgreeOn.read
  exact Mem.write_agreeOn st.mem off bs h

theorem getChunk_putChunk_self (st : LeafState) (o : UInt32) (hdr : ChunkHdr) :
    getChunk (putChunk st o hdr) o = hdr :=
  Mem.get_write_enc ChunkHdr.layout st.mem o.toNat hdr

theorem getSlot_putSlot_self (st : LeafState) (s : UInt16) (r : SpanRec) :
    getSlot (putSlot st s r) s = r :=
  Mem.get_write_enc SpanRec.layout st.mem (slotOff s) r

theorem slotOff_lt_tableEnd (hs : s < st.slotCount) : slotOff s + sizeofSpanRec ≤ tableEnd st := by
  have hlt : s.toNat < st.slotCount.toNat := UInt16.lt_iff_toNat_lt.mp hs
  have hsize : sizeofSpanRec = 72 := rfl
  unfold tableEnd slotOff
  rw [hsize]
  omega

theorem slotOff_disjoint {s s' : UInt16} (h : s ≠ s') :
    slotOff s + sizeofSpanRec ≤ slotOff s' ∨ slotOff s' + sizeofSpanRec ≤ slotOff s := by
  have hne : s.toNat ≠ s'.toNat := fun heq => h (UInt16.toNat_inj.mp heq)
  have hsize : sizeofSpanRec = 72 := rfl
  unfold slotOff
  rw [hsize]
  omega

theorem getSlot_putSlot_of_ne (st : LeafState) {s s' : UInt16} (r : SpanRec) (h : s' ≠ s) :
    getSlot (putSlot st s r) s' = getSlot st s' := by
  apply getSlot_poke
  rw [SpanRec.layout.enc_length]
  exact slotOff_disjoint h

theorem getSlot_putSlot (st : LeafState) (s s' : UInt16) (r : SpanRec) :
    getSlot (putSlot st s r) s' = if s' = s then r else getSlot st s' := by
  split
  · next h => rw [h, getSlot_putSlot_self]
  · next h => exact getSlot_putSlot_of_ne st r h

end Frame

namespace Arena

variable {st : LeafState} {cs : List UInt32} {o o' : UInt32} {s : UInt16} {bs : Bytes}

theorem mem_bounds (A : Arena st cs) (ho : o ∈ cs) :
    tableEnd st ≤ o.toNat ∧ sizeofChunkHdr ≤ chunkSize st o ∧
      o.toNat + chunkSize st o ≤ st.persistOff.toNat := by
  obtain ⟨h1, h2, h3⟩ := A.tiles.mem_bounds ho
  exact ⟨A.table_le.trans h1, h2, h3⟩

theorem mem_ne_none (A : Arena st cs) (ho : o ∈ cs) : o ≠ none32 := by
  rintro rfl
  have h1 := (A.mem_bounds ho).2
  have h2 := A.persist_le
  have h3 := A.bufSize_le
  have h4 : none32.toNat = 0xffffffff := rfl
  have h5 : maxBuffer = 0xfffffff0 := rfl
  omega

theorem persist_lt (A : Arena st cs) : st.persistOff.toNat < 0xffffffff := by
  have h2 := A.persist_le
  have h3 := A.bufSize_le
  have h5 : maxBuffer = 0xfffffff0 := rfl
  omega

/-- Rewriting the header of one chunk changes that header alone. -/
theorem getChunk_putChunk (A : Arena st cs) (ho : o ∈ cs) (ho' : o' ∈ cs) (hdr : ChunkHdr) :
    getChunk (putChunk st o hdr) o' = if o' = o then hdr else getChunk st o' := by
  split
  · next h => rw [h, getChunk_putChunk_self]
  · next h =>
    apply getChunk_poke
    rw [ChunkHdr.layout.enc_length]
    have h1 := (A.mem_bounds ho).2.1
    have h2 := (A.mem_bounds ho').2.1
    have h3 := A.tiles.disjoint ho ho' (Ne.symm h)
    simp only [ChunkHdr.layout_size]
    omega

theorem read_putChunk (A : Arena st cs) (ho : o ∈ cs) (ho' : o' ∈ cs) (hdr : ChunkHdr) {n : Nat}
    (hn : sizeofChunkHdr + n ≤ chunkSize st o') :
    (putChunk st o hdr).mem.read (chunkPayload o') n = st.mem.read (chunkPayload o') n := by
  apply read_poke
  rw [ChunkHdr.layout.enc_length]
  simp only [ChunkHdr.layout_size, chunkPayload]
  by_cases h : o' = o
  · subst h
    omega
  · have h1 := (A.mem_bounds ho).2.1
    have h3 := A.tiles.disjoint ho ho' (Ne.symm h)
    omega

theorem getSlot_putChunk (A : Arena st cs) (ho : o ∈ cs) (hs : s < st.slotCount) (hdr : ChunkHdr) :
    getSlot (putChunk st o hdr) s = getSlot st s := by
  apply getSlot_poke
  have h1 := slotOff_lt_tableEnd hs
  have h2 := (A.mem_bounds ho).1
  omega

theorem getChunk_putSlot (A : Arena st cs) (hs : s < st.slotCount) (ho : o ∈ cs) (r : SpanRec) :
    getChunk (putSlot st s r) o = getChunk st o := by
  apply getChunk_poke
  rw [SpanRec.layout.enc_length]
  have h1 := slotOff_lt_tableEnd hs
  have h2 := (A.mem_bounds ho).1
  simp only [SpanRec.layout_size]
  omega

theorem read_putSlot (A : Arena st cs) (hs : s < st.slotCount) (r : SpanRec) {a n : Nat}
    (ha : st.dataLow.toNat ≤ a) : (putSlot st s r).mem.read a n = st.mem.read a n := by
  apply read_poke
  rw [SpanRec.layout.enc_length]
  have h1 := slotOff_lt_tableEnd hs
  have h2 := A.table_le
  simp only [SpanRec.layout_size]
  omega

/-- Writing inside a chunk's payload leaves every header alone. -/
theorem getChunk_pokePayload (A : Arena st cs) (ho : o ∈ cs) (ho' : o' ∈ cs)
    (hbs : sizeofChunkHdr + bs.length ≤ chunkSize st o) :
    getChunk (st.poke (chunkPayload o) bs) o' = getChunk st o' := by
  apply getChunk_poke
  unfold chunkPayload
  by_cases h : o' = o
  · subst h
    omega
  · have h2 := (A.mem_bounds ho').2.1
    have h3 := A.tiles.disjoint ho ho' (Ne.symm h)
    omega

theorem read_pokePayload_of_ne (A : Arena st cs) (ho : o ∈ cs) (ho' : o' ∈ cs) (h : o' ≠ o)
    (hbs : sizeofChunkHdr + bs.length ≤ chunkSize st o) {n : Nat}
    (hn : sizeofChunkHdr + n ≤ chunkSize st o') :
    (st.poke (chunkPayload o) bs).mem.read (chunkPayload o') n =
      st.mem.read (chunkPayload o') n := by
  apply read_poke
  have h3 := A.tiles.disjoint ho ho' (Ne.symm h)
  unfold chunkPayload
  omega

theorem getSlot_pokePayload (A : Arena st cs) (ho : o ∈ cs) (hs : s < st.slotCount) :
    getSlot (st.poke (chunkPayload o) bs) s = getSlot st s := by
  apply getSlot_poke
  have h1 := slotOff_lt_tableEnd hs
  have h2 := (A.mem_bounds ho).1
  unfold chunkPayload
  omega

theorem putChunk (A : Arena st cs) (ho : o ∈ cs) {hdr : ChunkHdr}
    (hsize : hdr.size = (getChunk st o).size) : Arena (Leaf.putChunk st o hdr) cs where
  bufSize_le := A.bufSize_le
  persist_le := A.persist_le
  table_le := A.table_le
  tiles := by
    refine A.tiles.congr ?_
    intro o' ho'
    unfold chunkSize
    rw [A.getChunk_putChunk ho ho']
    split
    · next h => rw [hsize, h]
    · rfl
  high_le := by
    have h1 := A.mem_bounds ho
    have h2 := A.high_le
    change max st.high (o.toNat + (ChunkHdr.layout.enc hdr).length) ≤ st.persistOff.toNat
    rw [ChunkHdr.layout.enc_length]
    simp only [ChunkHdr.layout_size]
    omega

theorem putSlot (A : Arena st cs) (hs : s < st.slotCount) (r : SpanRec) :
    Arena (Leaf.putSlot st s r) cs where
  bufSize_le := A.bufSize_le
  persist_le := A.persist_le
  table_le := A.table_le
  tiles := by
    refine A.tiles.congr ?_
    intro o' ho'
    unfold chunkSize
    rw [A.getChunk_putSlot hs ho']
  high_le := by
    have h1 := slotOff_lt_tableEnd hs
    have h2 := A.high_le
    have h3 := A.table_le
    have h4 := A.tiles.le
    change max st.high (slotOff s + (SpanRec.layout.enc r).length) ≤ st.persistOff.toNat
    rw [SpanRec.layout.enc_length]
    simp only [SpanRec.layout_size]
    omega

theorem pokePayload (A : Arena st cs) (ho : o ∈ cs)
    (hbs : sizeofChunkHdr + bs.length ≤ chunkSize st o) :
    Arena (st.poke (chunkPayload o) bs) cs where
  bufSize_le := A.bufSize_le
  persist_le := A.persist_le
  table_le := A.table_le
  tiles := by
    refine A.tiles.congr ?_
    intro o' ho'
    unfold chunkSize
    rw [A.getChunk_pokePayload ho ho' hbs]
  high_le := by
    have h1 := A.mem_bounds ho
    have h2 := A.high_le
    change max st.high (chunkPayload o + bs.length) ≤ st.persistOff.toNat
    unfold chunkPayload
    omega

end Arena

end Microtel.Leaf
