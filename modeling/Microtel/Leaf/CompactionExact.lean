import Microtel.Leaf.BufferInvariant
import Microtel.Leaf.CompactionBytes

/-!
The compaction of a buffer that satisfies the representation invariant: what becomes of the
live chunks and of the references to them, which bytes change, that a second compaction
finds nothing to do, and that the move spares the chunks it has not come to.
-/

namespace Microtel.Leaf

open ByteMemory Loop LinkedList

variable {st st' : LeafState} {cs : List UInt32}

/-! ### Tilings -/

/-- The bytes in the chunks of a list that are not live. -/
def deadBytes (st : LeafState) : List UInt32 → Nat
  | [] => 0
  | o :: cs => (if isLive st o then 0 else chunkSize st o) + deadBytes st cs

theorem deadBytes_eq_zero (h : ∀ o ∈ cs, isLive st o = true) : deadBytes st cs = 0 := by
  induction cs with
  | nil => rfl
  | cons o cs ih =>
      obtain ⟨ho, hrest⟩ := List.forall_mem_cons.mp h
      simp [deadBytes, ho, ih hrest]

namespace Tiles

variable {lo hi a : Nat} {cs' : List UInt32}

theorem live_add_dead (h : Tiles st lo cs hi) : lo + liveBytes st cs + deadBytes st cs = hi := by
  induction cs generalizing lo with
  | nil =>
      have hend : lo = hi := h
      simpa [liveBytes, deadBytes] using hend
  | cons o cs ih =>
      have hrest := ih h.2.2
      unfold liveBytes deadBytes
      split <;> omega

theorem unique (h : Tiles st lo cs hi) (h' : Tiles st lo cs' hi) : cs = cs' := by
  induction cs generalizing lo cs' with
  | nil =>
      cases cs' with
      | nil => rfl
      | cons o' cs' =>
          have hend : lo = hi := h
          have hlow := h'.2.2.le
          have hmin := h'.2.1
          have hsize : sizeofChunkHdr = 24 := rfl
          omega
  | cons o cs ih =>
      cases cs' with
      | nil =>
          have hend : lo = hi := h'
          have hlow := h.2.2.le
          have hmin := h.2.1
          have hsize : sizeofChunkHdr = 24 := rfl
          omega
      | cons o' cs' =>
          obtain ⟨ho, -, hrest⟩ := h
          obtain ⟨ho', -, hrest'⟩ := h'
          obtain rfl : o = o' := UInt32.toNat_inj.mp (ho.trans ho'.symm)
          rw [ih hrest hrest']

/-- Every byte of a tiled region is in a chunk. -/
theorem covers (h : Tiles st lo cs hi) (hlo : lo ≤ a) (hhi : a < hi) :
    ∃ o ∈ cs, o.toNat ≤ a ∧ a < o.toNat + chunkSize st o := by
  induction cs generalizing lo with
  | nil =>
      have hend : lo = hi := h
      omega
  | cons o cs ih =>
      obtain ⟨ho, -, hrest⟩ := h
      by_cases hin : a < lo + chunkSize st o
      · exact ⟨o, by simp, by omega, by omega⟩
      · obtain ⟨x, hx, hbounds⟩ := ih hrest (by omega)
        exact ⟨x, by simp [hx], hbounds⟩

/-- A chunk above another is in the rest of the list. -/
theorem mem_rest {pre post : List UInt32} {o o' : UInt32} (h : Tiles st lo (pre ++ o :: post) hi)
    (ho' : o' ∈ pre ++ o :: post) (hlt : o < o') : o' ∈ post := by
  rw [UInt32.lt_iff_toNat_lt] at hlt
  obtain ⟨mid, hpre, hpost⟩ := Tiles.append_iff.mp h
  rcases List.mem_append.mp ho' with hmem | hmem
  · have hend := (hpre.mem_bounds hmem).2.2
    have hmid := hpost.1
    omega
  · rcases List.mem_cons.mp hmem with rfl | hmem
    · exact absurd hlt (Nat.lt_irrefl _)
    · exact hmem

/-- Where every chunk is live, the plan forwards each to itself. -/
theorem target_self (h : Tiles st lo cs st.persistOff.toNat)
    (hlive : ∀ o ∈ cs, isLive st o = true) (hlt : st.persistOff.toNat < 0xffffffff)
    {pre post : List UInt32} {o : UInt32} (hsplit : cs = pre ++ o :: post) :
    target st (o :: post) = o := by
  rw [hsplit] at h
  obtain ⟨mid, -, hpost⟩ := Tiles.append_iff.mp h
  have hmem : ∀ x ∈ o :: post, isLive st x = true := by
    intro x hx
    apply hlive
    rw [hsplit]
    exact List.mem_append_right _ hx
  have hsum := hpost.live_add_dead
  have hdead := deadBytes_eq_zero hmem
  have hto := target_toNat post (hmem o (by simp)) hlt
  have hmid := hpost.1
  apply UInt32.toNat_inj.mp
  omega

end Tiles

/-! ### References -/

/-- The null offset, or a live chunk. -/
def LiveRef (st : LeafState) (cs : List UInt32) (o : UInt32) : Prop :=
  o = none32 ∨ o ∈ cs ∧ isLive st o = true

/-- Every stored reference is the null offset or names a live chunk. -/
structure LiveRefs (st : LeafState) (cs : List UInt32) : Prop where
  head : ∀ t, Used st t → LiveRef st cs (getSlot st t).head
  tail : ∀ t, Used st t → LiveRef st cs (getSlot st t).tail
  next : ∀ o ∈ cs, isLive st o = true → LiveRef st cs (getChunk st o).next

theorem LiveRef.ref {o : UInt32} (h : LiveRef st cs o) : o = none32 ∨ o ∈ cs :=
  h.imp_right And.left

theorem LiveRefs.refs (L : LiveRefs st cs) : Refs st cs where
  head t ht hused := (L.head t ⟨ht, hused⟩).ref
  tail t ht hused := (L.tail t ⟨ht, hused⟩).ref
  next o ho hlive := (L.next o ho hlive).ref

theorem ChunkList.liveRef {t : UInt16} {l : List UInt32} {o : UInt32} (C : ChunkList st cs t l)
    (ht : Used st t) (h : o = none32 ∨ o ∈ l) : LiveRef st cs o := by
  refine h.imp_right ?_
  intro hmem
  obtain ⟨ho, hkind, howner⟩ := (C.owned o).mp hmem
  refine ⟨ho, isLive_iff.mpr ⟨hkind, ?_⟩⟩
  rwa [howner]

theorem BufferInv.liveRefs (I : BufferInv st)
    (T : Tiles st st.dataLow.toNat cs st.persistOff.toNat) :
    LiveRefs st cs := by
  obtain ⟨cs₀, T₀, hlists⟩ := I.chunks
  obtain rfl := T.unique T₀
  constructor
  · intro t ht
    obtain ⟨l, C⟩ := hlists t ht.1 ht.2
    exact C.liveRef ht C.links.head_mem
  · intro t ht
    obtain ⟨l, C⟩ := hlists t ht.1 ht.2
    rw [C.tail]
    exact C.liveRef ht (last_mem none32 l)
  · intro o ho hlive
    obtain ⟨hkind, hused⟩ := isLive_iff.mp hlive
    obtain ⟨l, C⟩ := hlists _ hused.1 hused.2
    have hmem : o ∈ l := (C.owned o).mpr ⟨ho, hkind, rfl⟩
    exact C.liveRef hused (C.links.next_mem hmem)

theorem BufferInv.arena (I : BufferInv st) (hsize : st.bufSize.toNat ≤ maxBuffer)
    (T : Tiles st st.dataLow.toNat cs st.persistOff.toNat) : Arena st cs where
  bufSize_le := hsize
  persist_le := UInt32.le_iff_toNat_le.mp I.persist
  table_le := I.table
  tiles := T
  high_le := I.writes

/-! ### One compaction -/

/-- The byte is one of the list ends in the record of the slot. -/
def InEnds (t : UInt16) (a : Nat) : Prop :=
  slotOff t + offsetofHead ≤ a ∧ a < slotOff t + offsetofHead + 8

/-- `st'` is `st` compacted, with every live chunk at its image under `φ`. Of the bytes
outside the chunks only list ends change, in records that are as `put_slot` writes them: the
state is one of the three, the flag is 0 or 1 and the padding is clear. -/
structure CompactedExactly (st st' : LeafState) (cs : List UInt32) (φ : UInt32 → UInt32) :
    Prop where
  scalars : st' = { st with mem := st'.mem, high := st'.high, dataLow := st'.dataLow }
  low : st'.dataLow.toNat = st.dataLow.toNat + deadBytes st cs
  tiles : Tiles st' st'.dataLow.toNat ((cs.filter (isLive st)).map φ) st.persistOff.toNat
  order : ∀ o ∈ cs, isLive st o = true → ∀ o' ∈ cs, isLive st o' = true → o < o' → φ o < φ o'
  live : ∀ o ∈ cs, isLive st o = true → isLive st' (φ o) = true
  core : ∀ o ∈ cs, isLive st o = true → coreAt st' (φ o) = coreAt st o
  named : LiveRefs st cs
  none : φ none32 = none32
  next : ∀ o ∈ cs, isLive st o = true → (getChunk st' (φ o)).next = φ (getChunk st o).next
  slots : ∀ t < st.slotCount, getSlot st' t = fixedSlot φ (getSlot st t)
  bytes : ∀ a, a < st.dataLow.toNat ∨ st.persistOff.toNat ≤ a →
    (∀ t, Used st t → InSlot t a → st.mem.Encoded SpanRec.layout (slotOff t) ∧ ¬ InEnds t a) →
    st'.mem.byte a = st.mem.byte a

theorem fixedSlot_state (φ : UInt32 → UInt32) (r : SpanRec) :
    (fixedSlot φ r).state = r.state := by
  unfold fixedSlot
  split <;> rfl

namespace Compacted

variable {φ : UInt32 → UInt32}

theorem slotCount (C : Compacted st st' cs φ) : st'.slotCount = st.slotCount := by rw [C.scalars]
theorem persistOff (C : Compacted st st' cs φ) : st'.persistOff = st.persistOff := by
  rw [C.scalars]

theorem used_iff (C : Compacted st st' cs φ) (t : UInt16) : Used st' t ↔ Used st t := by
  unfold Used
  rw [C.slotCount]
  refine and_congr_right ?_
  intro ht
  rw [C.slots t ht, fixedSlot_state]

theorem live (C : Compacted st st' cs φ) {o : UInt32} (ho : o ∈ cs) (hlive : isLive st o = true) :
    isLive st' (φ o) = true := by
  have hcore := C.core o ho hlive
  have hkind := congrArg ChunkCore.kind hcore
  have howner := congrArg ChunkCore.owner hcore
  simp only [coreAt] at hkind howner
  obtain ⟨hkept, hused⟩ := isLive_iff.mp hlive
  refine isLive_iff.mpr ⟨by rwa [hkind], ?_⟩
  rw [howner, C.used_iff]
  exact hused

theorem liveRef (C : Compacted st st' cs φ) {o : UInt32} (h : LiveRef st cs o) :
    LiveRef st' ((cs.filter (isLive st)).map φ) (φ o) := by
  rcases h with rfl | ⟨ho, hlive⟩
  · exact .inl C.none
  · exact .inr ⟨List.mem_map_of_mem (List.mem_filter.mpr ⟨ho, hlive⟩), C.live ho hlive⟩

/-- The references of a compacted buffer name live chunks again. -/
theorem liveRefs (C : Compacted st st' cs φ) (L : LiveRefs st cs) :
    LiveRefs st' ((cs.filter (isLive st)).map φ) where
  head t ht := by
    have hused := (C.used_iff t).mp ht
    have hhead : (getSlot st' t).head = φ (getSlot st t).head := by
      rw [C.slots t hused.1, fixedSlot, if_pos hused.2]
    rw [hhead]
    exact C.liveRef (L.head t hused)
  tail t ht := by
    have hused := (C.used_iff t).mp ht
    have htail : (getSlot st' t).tail = φ (getSlot st t).tail := by
      rw [C.slots t hused.1, fixedSlot, if_pos hused.2]
    rw [htail]
    exact C.liveRef (L.tail t hused)
  next x hx _ := by
    obtain ⟨o, ho, rfl⟩ := List.mem_map.mp hx
    obtain ⟨ho, hlive⟩ := List.mem_filter.mp ho
    rw [C.next o ho hlive]
    exact C.liveRef (L.next o ho hlive)

end Compacted

namespace Placed

variable {st₃ : LeafState} {φ : UInt32 → UInt32}

/-- The record of a used slot has been written. -/
theorem encoded_slot (P : Placed st st₃ st' cs φ) (W : FixWrites st st₃ cs) {t : UInt16}
    (ht : Used st t) : st'.mem.Encoded SpanRec.layout (slotOff t) := by
  have htable := (slotOff_lt_tableEnd ht.1).trans P.ready.arena₀.table_le
  refine (W.slots t ht).congr (Mem.AgreeOn.read ?_)
  exact P.under.mono (Nat.zero_le _) htable

/-- The header of a live chunk is copied as pass 2 wrote it. -/
theorem read_header (P : Placed st st₃ st' cs φ) {o : UInt32} (ho : o ∈ cs)
    (hlive : isLive st o = true) :
    st'.mem.read (φ o).toNat sizeofChunkHdr = st₃.mem.read o.toNat sizeofChunkHdr := by
  have hmin := (P.ready.arena₀.mem_bounds ho).2.1
  have hcopied := congrArg (List.take sizeofChunkHdr) (P.copied o ho hlive)
  rwa [Mem.read_take _ _ _ _ hmin, Mem.read_take _ _ _ _ hmin] at hcopied

theorem encoded_header (P : Placed st st₃ st' cs φ) (W : FixWrites st st₃ cs) {o : UInt32}
    (ho : o ∈ cs) (hlive : isLive st o = true) :
    st'.mem.Encoded ChunkHdr.layout (φ o).toNat :=
  (W.headers o ho).congr (P.read_header ho hlive)

/-- A moved chunk is forwarded to where it is. -/
theorem forwarded (P : Placed st st₃ st' cs φ) {o : UInt32} (ho : o ∈ cs)
    (hlive : isLive st o = true) : (getChunk st' (φ o)).fwd = φ o := by
  have hhdr : getChunk st' (φ o) = getChunk st₃ o := Mem.get_congr_read _ (P.read_header ho hlive)
  obtain ⟨pre, post, hsplit⟩ := List.append_of_mem ho
  rw [hhdr, P.place pre o post hsplit]
  exact (P.ready.planned pre o post hsplit).2

theorem order (P : Placed st st₃ st' cs φ) {o o' : UInt32} (ho : o ∈ cs) (ho' : o' ∈ cs)
    (hlive : isLive st o = true) (hlive' : isLive st o' = true) (hlt : o < o') : φ o < φ o' := by
  have A := P.ready.arena₀
  have hpersist := A.persist_lt
  obtain ⟨pre, post, hsplit⟩ := List.append_of_mem ho
  have htiles := A.tiles
  rw [hsplit] at htiles ho'
  obtain ⟨mid, post', hpost⟩ := List.append_of_mem (htiles.mem_rest ho' hlt)
  have hsplit' : cs = (pre ++ o :: mid) ++ o' :: post' := by rw [hsplit, hpost]; simp
  have hto := target_toNat post hlive hpersist
  have hto' := target_toNat post' hlive' hpersist
  have hmin := (A.mem_bounds ho).2.1
  have hsize : sizeofChunkHdr = 24 := rfl
  obtain ⟨lo, -, hrest⟩ := Tiles.append_iff.mp htiles
  have hle := hrest.liveBytes_le
  have hsum : liveBytes st (o :: post) =
      chunkSize st o + (liveBytes st mid + liveBytes st (o' :: post')) := by
    rw [hpost, liveBytes, if_pos hlive, liveBytes_append]
  rw [P.place pre o post hsplit, P.place _ o' post' hsplit', UInt32.lt_iff_toNat_lt]
  omega

theorem bytes (P : Placed st st₃ st' cs φ) (W : FixWrites st st₃ cs) {a : Nat}
    (ha : a < st.dataLow.toNat ∨ st.persistOff.toNat ≤ a)
    (hslots : ∀ t, Used st t → InSlot t a →
      st.mem.Encoded SpanRec.layout (slotOff t) ∧ ¬ InEnds t a) :
    st'.mem.byte a = st.mem.byte a := by
  rcases ha with ha | ha
  · by_cases hin : ∃ t, Used st t ∧ InSlot t a
    · obtain ⟨t, ht, hslot⟩ := hin
      obtain ⟨hencoded, hends⟩ := hslots t ht hslot
      obtain ⟨i, rfl⟩ := Nat.exists_eq_add_of_le hslot.1
      have hi : i < sizeofSpanRec := by
        have hlt := hslot.2
        omega
      have hoff : i < offsetofHead ∨ offsetofHead + 8 ≤ i := by
        unfold InEnds at hends
        omega
      have hfixed : getSlot st' t = { getSlot st t with
          head := φ (getSlot st t).head, tail := φ (getSlot st t).tail } := by
        rw [P.compacted.slots t ht.1, fixedSlot, if_pos ht.2]
      refine hencoded.byte_eq (P.encoded_slot W ht) hi ?_
      change (SpanRec.layout.enc (getSlot st' t))[i]? = (SpanRec.layout.enc (getSlot st t))[i]?
      rw [hfixed]
      exact SpanRec.enc_ends _ _ _ hoff
    · rw [P.under a (Nat.zero_le a) ha]
      exact W.outside a (.inl ha) fun t ht hslot => hin ⟨t, ht, hslot⟩
  · exact P.compacted.persist (a + 1) a ha (Nat.lt_succ_self a)

theorem exactly (P : Placed st st₃ st' cs φ) (W : FixWrites st st₃ cs) (L : LiveRefs st cs) :
    CompactedExactly st st' cs φ where
  scalars := P.compacted.scalars
  low := by
    have hlow := P.compacted.low
    have hsum := P.ready.arena₀.tiles.live_add_dead
    omega
  tiles := by
    have htiles := P.compacted.arena.tiles
    rwa [P.compacted.persistOff] at htiles
  order _ ho hlive _ ho' hlive' hlt := P.order ho ho' hlive hlive' hlt
  live _ ho hlive := P.compacted.live ho hlive
  core := P.compacted.core
  named := L
  none := P.compacted.none
  next := P.compacted.next
  slots := P.compacted.slots
  bytes _ ha hslots := P.bytes W ha hslots

end Placed

/-! ### A second compaction -/

/-- The byte is one of the `below` link of the header at `o`, which only the compaction
reads, and only after it has written it. -/
def InBelow (o : UInt32) (a : Nat) : Prop :=
  o.toNat + offsetofBelow ≤ a ∧ a < o.toNat + offsetofBelow + 4

/-- `st'` differs from `st` in `below` links of the chunks at most. -/
structure SameButBelow (st st' : LeafState) (cs : List UInt32) : Prop where
  scalars : st' = { st with mem := st'.mem, high := st'.high }
  bytes : ∀ a, (∀ o ∈ cs, ¬ InBelow o a) → st'.mem.byte a = st.mem.byte a

/-- A buffer as a compaction leaves it: only live chunks, each forwarded to itself, and
every header and every record of a used slot written. -/
structure Packed (st : LeafState) (cs : List UInt32) : Prop where
  arena : Arena st cs
  refs : LiveRefs st cs
  live : ∀ o ∈ cs, isLive st o = true
  forwarded : ∀ o ∈ cs, (getChunk st o).fwd = o
  headers : ∀ o ∈ cs, st.mem.Encoded ChunkHdr.layout o.toNat
  slots : ∀ t, Used st t → st.mem.Encoded SpanRec.layout (slotOff t)

theorem Placed.packed {st₃ : LeafState} {φ : UInt32 → UInt32} (P : Placed st st₃ st' cs φ)
    (W : FixWrites st st₃ cs) (L : LiveRefs st cs) :
    Packed st' ((cs.filter (isLive st)).map φ) := by
  have hmoved : ∀ x ∈ (cs.filter (isLive st)).map φ,
      ∃ o ∈ cs, isLive st o = true ∧ φ o = x := by
    intro x hx
    obtain ⟨o, ho, rfl⟩ := List.mem_map.mp hx
    obtain ⟨ho, hlive⟩ := List.mem_filter.mp ho
    exact ⟨o, ho, hlive, rfl⟩
  refine ⟨P.compacted.arena, P.compacted.liveRefs L, ?_, ?_, ?_, ?_⟩
  · intro x hx
    obtain ⟨o, ho, hlive, rfl⟩ := hmoved x hx
    exact P.compacted.live ho hlive
  · intro x hx
    obtain ⟨o, ho, hlive, rfl⟩ := hmoved x hx
    exact P.forwarded ho hlive
  · intro x hx
    obtain ⟨o, ho, hlive, rfl⟩ := hmoved x hx
    exact P.encoded_header W ho hlive
  · intro t ht
    exact P.encoded_slot W ((P.compacted.used_iff t).mp ht)

namespace Packed

variable {st₃ : LeafState} {φ : UInt32 → UInt32} {o : UInt32}

theorem place_self (K : Packed st cs) (P : Placed st st₃ st' cs φ) (ho : o ∈ cs) : φ o = o := by
  obtain ⟨pre, post, hsplit⟩ := List.append_of_mem ho
  rw [P.place pre o post hsplit]
  exact K.arena.tiles.target_self K.live K.arena.persist_lt hsplit

theorem ref_self (K : Packed st cs) (P : Placed st st₃ st' cs φ) (h : LiveRef st cs o) :
    φ o = o := by
  rcases h with rfl | ⟨ho, -⟩
  · exact P.compacted.none
  · exact K.place_self P ho

theorem dataLow_eq (K : Packed st cs) (P : Placed st st₃ st' cs φ) :
    st'.dataLow = st.dataLow := by
  have hlow := P.compacted.low
  have hsum := K.arena.tiles.live_add_dead
  have hdead := deadBytes_eq_zero K.live
  apply UInt32.toNat_inj.mp
  omega

theorem slot_eq (K : Packed st cs) (P : Placed st st₃ st' cs φ) {t : UInt16} (ht : Used st t) :
    getSlot st' t = getSlot st t := by
  rw [P.compacted.slots t ht.1, fixedSlot, if_pos ht.2, K.ref_self P (K.refs.head t ht),
    K.ref_self P (K.refs.tail t ht)]

/-- A header changes in its `below` link at most. -/
theorem header_eq (K : Packed st cs) (P : Placed st st₃ st' cs φ) (ho : o ∈ cs) :
    getChunk st' o = { getChunk st o with below := (getChunk st' o).below } := by
  have hlive := K.live o ho
  have hself := K.place_self P ho
  have hcore := P.compacted.core o ho hlive
  have hnext := P.compacted.next o ho hlive
  have hforwarded := P.forwarded ho hlive
  rw [hself] at hcore hnext hforwarded
  rw [K.ref_self P (K.refs.next o ho hlive)] at hnext
  have hkind := congrArg ChunkCore.kind hcore
  have howner := congrArg ChunkCore.owner hcore
  have hsize := congrArg ChunkCore.size hcore
  have hused := congrArg ChunkCore.used hcore
  simp only [coreAt] at hkind howner hsize hused
  have hfwd : (getChunk st' o).fwd = (getChunk st o).fwd :=
    hforwarded.trans (K.forwarded o ho).symm
  dsimp only
  rw [← hnext, ← hsize, ← hused, ← hfwd, ← howner, ← hkind]

theorem payload_eq (K : Packed st cs) (P : Placed st st₃ st' cs φ) (ho : o ∈ cs) {a : Nat}
    (hlo : chunkPayload o ≤ a) (hhi : a < o.toNat + chunkSize st o) :
    st'.mem.byte a = st.mem.byte a := by
  have hcore := P.compacted.core o ho (K.live o ho)
  rw [K.place_self P ho] at hcore
  have hsize : chunkSize st' o = chunkSize st o :=
    congrArg (fun core => core.size.toNat) hcore
  have hpayload := congrArg ChunkCore.payload hcore
  simp only [coreAt, hsize] at hpayload
  obtain ⟨i, rfl⟩ := Nat.exists_eq_add_of_le hlo
  have hi : i < chunkSize st o - sizeofChunkHdr := by
    unfold chunkPayload at hhi
    omega
  have hbyte : (st'.mem.read (chunkPayload o) (chunkSize st o - sizeofChunkHdr))[i]? =
      (st.mem.read (chunkPayload o) (chunkSize st o - sizeofChunkHdr))[i]? := by rw [hpayload]
  rw [Mem.read_getElem?, Mem.read_getElem?, if_pos hi, if_pos hi] at hbyte
  exact Option.some.inj hbyte

/-- The bytes below the chunks: the table is written back as it was. -/
theorem under_eq (K : Packed st cs) (P : Placed st st₃ st' cs φ) (W : FixWrites st st₃ cs)
    {a : Nat} (ha : a < st.dataLow.toNat) : st'.mem.byte a = st.mem.byte a := by
  by_cases hin : ∃ t, Used st t ∧ InSlot t a
  · obtain ⟨t, ht, hlo, hhi⟩ := hin
    obtain ⟨i, rfl⟩ := Nat.exists_eq_add_of_le hlo
    have hi : i < sizeofSpanRec := by omega
    refine (K.slots t ht).byte_eq (P.encoded_slot W ht) hi ?_
    change (SpanRec.layout.enc (getSlot st' t))[i]? = (SpanRec.layout.enc (getSlot st t))[i]?
    rw [K.slot_eq P ht]
  · rw [P.under a (Nat.zero_le a) ha]
    exact W.outside a (.inl ha) fun t ht hslot => hin ⟨t, ht, hslot⟩

/-- A compaction of a packed buffer writes back what it finds, but for `below` links. -/
theorem same (K : Packed st cs) (P : Placed st st₃ st' cs φ) (W : FixWrites st st₃ cs) :
    SameButBelow st st' cs where
  scalars := by
    have hscalars := P.compacted.scalars
    rwa [K.dataLow_eq P] at hscalars
  bytes a hbelow := by
    by_cases hlow : a < st.dataLow.toNat
    · exact K.under_eq P W hlow
    · by_cases hhigh : st.persistOff.toNat ≤ a
      · exact P.compacted.persist (a + 1) a hhigh (Nat.lt_succ_self a)
      · obtain ⟨o, ho, hlo, hhi⟩ := K.arena.tiles.covers (by omega) (Nat.lt_of_not_le hhigh)
        by_cases hhdr : a < chunkPayload o
        · have hencoded := P.encoded_header W ho (K.live o ho)
          rw [K.place_self P ho] at hencoded
          obtain ⟨i, rfl⟩ := Nat.exists_eq_add_of_le hlo
          have hi : i < sizeofChunkHdr := by
            unfold chunkPayload at hhdr
            omega
          have hoff : i < offsetofBelow ∨ offsetofBelow + 4 ≤ i := by
            have hnot := hbelow o ho
            unfold InBelow at hnot
            omega
          refine (K.headers o ho).byte_eq hencoded hi ?_
          change (ChunkHdr.layout.enc (getChunk st' o))[i]? =
            (ChunkHdr.layout.enc (getChunk st o))[i]?
          rw [K.header_eq P ho]
          exact ChunkHdr.enc_below _ _ hoff
        · exact K.payload_eq P ho (Nat.le_of_not_lt hhdr) hhi

end Packed

/-! ### The move, round by round -/

/-- The move from `ready` with the topmost chunk `top`: after `k` rounds the topmost `k`
chunks have been moved, and the others, still where they were in `st`, are untouched. -/
structure MoveSpares (st ready : LeafState) (top : UInt32) (cs : List UInt32)
    (φ : UInt32 → UInt32) : Prop where
  rounds : compactMove ready top = (moveStep^[cs.length] (ready, top)).1
  visits : ∀ k ≤ cs.length,
    (moveStep^[k] (ready, top)).2 = last none32 (cs.take (cs.length - k))
  found : ∀ o ∈ cs, coreAt ready o = coreAt st o
  unmoved : ∀ k ≤ cs.length, ∀ o ∈ cs.take (cs.length - k),
    Mem.AgreeOn (moveStep^[k] (ready, top)).1.mem ready.mem o.toNat (o.toNat + chunkSize st o)
  above : ∀ pre o post, cs = pre ++ o :: post → isLive st o = true →
    ∀ o' ∈ pre, o'.toNat + chunkSize st o' ≤ (φ o).toNat

theorem Placed.spares {st₃ : LeafState} {φ : UInt32 → UInt32} (P : Placed st st₃ st' cs φ) :
    MoveSpares st st₃ (last none32 cs) cs φ where
  rounds := P.ready.move_eq
  visits k hk := by
    obtain ⟨post, I⟩ := P.ready.rounds hk
    exact I.top
  found := P.ready.frame.core
  unmoved k hk o ho := by
    obtain ⟨post, I⟩ := P.ready.rounds hk
    have htiles := P.ready.arena₀.tiles
    rw [I.split] at htiles
    obtain ⟨mid, hpre, -⟩ := Tiles.append_iff.mp htiles
    exact (I.unmoved mid hpre).mono (Nat.zero_le _) (hpre.mem_bounds ho).2.2
  above pre o post hsplit hlive o' ho' := by
    have A := P.ready.arena₀
    have htiles := A.tiles
    rw [hsplit] at htiles
    obtain ⟨mid, hpre, hpost⟩ := Tiles.append_iff.mp htiles
    have hend := (hpre.mem_bounds ho').2.2
    have hle := hpost.liveBytes_le
    rw [P.place pre o post hsplit, target_toNat post hlive A.persist_lt]
    omega

/-! ### The compaction of a buffer -/

section

variable {w : Word32}

theorem compactPlan_top (A : Arena st cs) : (compactPlan w st).2.2 = last none32 cs := by
  obtain ⟨s, -, hplan⟩ := compactPlan_spec (w := w) A
  rw [hplan]

/-- In a buffer that satisfies the invariant, compaction keeps the live chunks and packs
them, every reference follows its chunk, nothing else changes outside the chunks, a second
compaction changes nothing that is read, and the move spares what it has not moved. -/
theorem compact_exact (I : BufferInv st) (hsize : st.bufSize.toNat ≤ maxBuffer)
    (T : Tiles st st.dataLow.toNat cs st.persistOff.toNat) :
    ∃ φ, CompactedExactly st (compact w st) cs φ ∧
      SameButBelow (compact w st) (compact w (compact w st)) ((cs.filter (isLive st)).map φ) ∧
      MoveSpares st (compactFix w (compactPlan w st).1) (compactPlan w st).2.2 cs φ := by
  have A := I.arena hsize T
  have L := I.liveRefs T
  obtain ⟨φ, P⟩ := compact_placed (w := w) A L.refs
  have W := compactFix_writes (w := w) A L.refs
  have K := P.packed W L
  obtain ⟨ψ, P'⟩ := compact_placed (w := w) K.arena K.refs.refs
  have W' := compactFix_writes (w := w) K.arena K.refs.refs
  refine ⟨φ, P.exactly W L, K.same P' W', ?_⟩
  rw [compactPlan_top A]
  exact P.spares

end

/-- The buffer of the short run has a chunk that was given up for a larger one. -/
theorem compact_exact_pump :
    ∃ st os cs φ, run Word32.wrap pumpInit.2.1 pumpCalls = some (st, os) ∧
      CompactedExactly st (compact .wrap st) cs φ ∧
      SameButBelow (compact .wrap st) (compact .wrap (compact .wrap st))
        ((cs.filter (isLive st)).map φ) ∧
      MoveSpares st (compactFix .wrap (compactPlan .wrap st).1) (compactPlan .wrap st).2.2 cs φ ∧
      st.dataLow < (compact .wrap st).dataLow := by
  obtain ⟨⟨st, os⟩, hrun⟩ := pumpRun_some
  have hfacts : (run Word32.wrap pumpInit.2.1 pumpCalls).map (fun r =>
      decide (checkLeaf r.1 = .ok ∧ r.1.bufSize.toNat ≤ maxBuffer ∧
        r.1.dataLow < (compact .wrap r.1).dataLow)) = some true := by decide +kernel
  rw [hrun] at hfacts
  obtain ⟨hcheck, hsize, hraised⟩ := of_decide_eq_true (Option.some.inj hfacts)
  obtain ⟨c, S?, -, -, -, T⟩ := run_tracks pumpInit_ok hrun
  have I := T.bufferInv hcheck
  obtain ⟨cs, hcs, -⟩ := I.chunks
  obtain ⟨φ, hexact, hsame, hspares⟩ := compact_exact (w := .wrap) I hsize hcs
  exact ⟨st, os, cs, φ, hrun, hexact, hsame, hspares, hraised⟩

end Microtel.Leaf
