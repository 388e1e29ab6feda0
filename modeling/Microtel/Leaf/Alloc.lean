import Microtel.Leaf.Heap

/-!
Compaction and allocation over the chunk lists. A compaction moves every list
with its content; an allocation succeeds exactly when the table, the chunks in
use and the new chunk fit together below the Resource.
-/

namespace Microtel.Leaf

open ByteMemory Loop LinkedList

/-- `st'` holds what `st` holds, with the list of each slot at other offsets. -/
structure Moved (st st' : LeafState) (ch ch' : UInt16 → List UInt32) : Prop
    extends Keeps st st' where
  contents : ∀ s, Used st s → (ch' s).map (coreAt st') = (ch s).map (coreAt st)

theorem Moved.refl (st : LeafState) (ch : UInt16 → List UInt32) : Moved st st ch ch :=
  ⟨Keeps.refl st, fun _ _ => rfl⟩

theorem Moved.trans {st st' st'' : LeafState} {ch ch' ch'' : UInt16 → List UInt32}
    (h : Moved st st' ch ch') (h' : Moved st' st'' ch' ch'') : Moved st st'' ch ch'' where
  toKeeps := h.toKeeps.trans h'.toKeeps
  contents s hs := by rw [h'.contents s ((h.used_iff s).mpr hs), h.contents s hs]

theorem isLive_iff {st : LeafState} {o : UInt32} : isLive st o = true ↔
    (getChunk st o).kind ≠ .dead ∧ Used st (getChunk st o).owner := by
  unfold isLive chunkLive Used
  by_cases hkind : (getChunk st o).kind = .dead
  · simp [hkind]
  · by_cases howner : st.slotCount ≤ (getChunk st o).owner
    · simp [howner]
    · have hlt : (getChunk st o).owner < st.slotCount := UInt16.not_le.mp howner
      simp [hkind, howner, hlt]

theorem fixedSlot_body (φ : UInt32 → UInt32) (r : SpanRec) : (fixedSlot φ r).body = r.body := by
  unfold fixedSlot
  split <;> rfl

namespace Heap

variable {st : LeafState} {cs : List UInt32} {ch : UInt16 → List UInt32} {w ω : Word32}

theorem refs (H : Heap st cs ch []) : Refs st cs where
  head t ht hfree := by
    rcases (H.list t ⟨ht, hfree⟩).head_mem with h | h
    · exact Or.inl h
    · exact Or.inr (H.mem_cs h)
  tail t ht hfree := by
    rw [H.tail t ⟨ht, hfree⟩]
    rcases last_mem none32 (ch t) with h | h
    · exact Or.inl h
    · exact Or.inr (H.mem_cs h)
  next o ho hlive := by
    obtain ⟨hkind, hused⟩ := isLive_iff.mp hlive
    have hmem : o ∈ ch (getChunk st o).owner := (H.mem _ o).mpr ⟨⟨ho, hkind, rfl⟩, by simp⟩
    rcases (H.list _ hused).next_mem hmem with h | h
    · exact Or.inl h
    · exact Or.inr (H.mem_cs h)

theorem compact_word (H : Heap st cs ch []) : compact w st = compact ω st :=
  Leaf.compact_word H.arena H.refs

/-- Compaction over chunk lists: every list of a used slot moves as a whole,
and no chunk of an unused slot survives. -/
theorem compact (H : Heap st cs ch []) : ∃ cs' ch',
    Heap (compact w st) cs' ch' [] ∧ Clean (Leaf.compact w st) ch' ∧
      Moved st (Leaf.compact w st) ch ch' ∧
      (Leaf.compact w st).dataLow.toNat = st.persistOff.toNat - liveBytes st cs := by
  obtain ⟨φ, P⟩ := compact_spec (w := w) H.arena H.refs
  set st' := Leaf.compact w st with hst'
  have hkeeps : Keeps st st' :=
    ⟨P.scalars, fun t ht => by rw [P.slots t ht, fixedSlot_body], P.persist⟩
  have hlive : ∀ s, Used st s → ∀ o ∈ ch s, o ∈ cs ∧ isLive st o = true := by
    intro s hs o ho
    refine ⟨H.mem_cs ho, isLive_iff.mpr ⟨H.kind_ne_dead ho, ?_⟩⟩
    rwa [H.owner ho]
  have hin : ∀ s, Used st s → ∀ o ∈ ch s, φ o ∈ (cs.filter (isLive st)).map φ := by
    intro s hs o ho
    exact List.mem_map_of_mem (List.mem_filter.mpr (hlive s hs o ho))
  refine ⟨(cs.filter (isLive st)).map φ, fun s => if Used st s then (ch s).map φ else [],
    ⟨P.arena, ?_, ?_, ?_⟩, ?_, ⟨hkeeps, ?_⟩, P.low⟩
  · intro s hs
    have hused := (hkeeps.used_iff s).mp hs
    rw [P.slots s hused.1, if_pos hused]
    have hhead : (fixedSlot φ (getSlot st s)).head = φ (getSlot st s).head := by
      simp [fixedSlot, hused.2]
    rw [hhead]
    refine (H.list s hused).map P.none ?_ ?_
    · intro o ho
      exact P.arena.mem_ne_none (hin s hused o ho)
    · intro o ho
      exact P.next o (hlive s hused o ho).1 (hlive s hused o ho).2
  · intro s hs
    have hused := (hkeeps.used_iff s).mp hs
    rw [P.slots s hused.1, if_pos hused, last_map P.none]
    have htail : (fixedSlot φ (getSlot st s)).tail = φ (getSlot st s).tail := by
      simp [fixedSlot, hused.2]
    rw [htail, H.tail s hused]
  · intro s x
    constructor
    · intro hx
      by_cases hused : Used st s
      · rw [if_pos hused] at hx
        obtain ⟨o, ho, rfl⟩ := List.mem_map.mp hx
        obtain ⟨hocs, holive⟩ := hlive s hused o ho
        have hcore := P.core o hocs holive
        have hkind := congrArg ChunkCore.kind hcore
        have howner := congrArg ChunkCore.owner hcore
        simp only [coreAt] at hkind howner
        refine ⟨⟨hin s hused o ho, ?_, ?_⟩, by simp⟩
        · rw [hkind]
          exact H.kind_ne_dead ho
        · rw [howner]
          exact H.owner ho
      · simp [hused] at hx
    · rintro ⟨⟨hx, hkind, howner⟩, -⟩
      obtain ⟨o, ho, rfl⟩ := List.mem_map.mp hx
      obtain ⟨hocs, holive⟩ := List.mem_filter.mp ho
      have hcore := P.core o hocs holive
      have hown := congrArg ChunkCore.owner hcore
      simp only [coreAt] at hown
      rw [hown] at howner
      obtain ⟨hkind', hused⟩ := isLive_iff.mp holive
      rw [howner] at hused
      rw [if_pos hused]
      exact List.mem_map_of_mem ((H.mem s o).mpr ⟨⟨hocs, hkind', howner⟩, by simp⟩)
  · intro s hs
    have hunused : ¬ Used st s := fun h => hs ((hkeeps.used_iff s).mpr h)
    simp [hunused]
  · intro s hs
    rw [if_pos hs, List.map_map]
    apply List.map_congr_left
    intro o ho
    exact P.core o (hlive s hs o ho).1 (hlive s hs o ho).2

end Heap

/-! ### Space -/

/-- The bytes of the chunks on a list. -/
def listBytes (st : LeafState) (l : List UInt32) : Nat := (l.map (chunkSize st)).sum

/-- The bytes of every chunk list. -/
def heapBytes (st : LeafState) (ch : UInt16 → List UInt32) : Nat :=
  ((slots st).map fun s => listBytes st (ch s)).sum

theorem liveBytes_eq_sum (st : LeafState) (cs : List UInt32) :
    liveBytes st cs = listBytes st (cs.filter (isLive st)) := by
  induction cs with
  | nil => rfl
  | cons o cs ih =>
      unfold liveBytes
      by_cases hlive : isLive st o = true
      · simp [hlive, ih, listBytes]
      · simp [hlive, ih]

theorem listBytes_flatMap (st : LeafState) (f : UInt16 → List UInt32) (l : List UInt16) :
    listBytes st (l.flatMap f) = (l.map fun s => listBytes st (f s)).sum := by
  induction l with
  | nil => rfl
  | cons s l ih =>
      rw [List.flatMap_cons, List.map_cons, List.sum_cons, ← ih]
      simp [listBytes]

namespace Heap

variable {st : LeafState} {cs : List UInt32} {ch : UInt16 → List UInt32} {w ω : Word32}

/-- The live chunks are the chunks on the lists. -/
theorem live_perm (H : Heap st cs ch []) (C : Clean st ch) :
    (cs.filter (isLive st)).Perm ((slots st).flatMap ch) := by
  have hnodup : (cs.filter (isLive st)).Nodup := H.arena.tiles.nodup.filter _
  have hchain : ∀ s, (ch s).Nodup := by
    intro s
    by_cases hs : Used st s
    · exact (H.list s hs).nodup
    · rw [C s hs]
      exact List.nodup_nil
  have hnodup' : ((slots st).flatMap ch).Nodup := by
    refine List.nodup_flatMap.mpr ⟨fun s _ => hchain s, ?_⟩
    refine (slots_nodup st).imp ?_
    intro s t hst
    rw [Function.onFun, List.disjoint_left]
    intro o ho
    exact H.not_mem_other ho (Ne.symm hst)
  refine (List.perm_ext_iff_of_nodup hnodup hnodup').mpr ?_
  intro o
  rw [List.mem_filter, List.mem_flatMap, isLive_iff]
  constructor
  · rintro ⟨ho, hkind, hused⟩
    exact ⟨_, mem_slots.mpr hused.1, (H.mem _ o).mpr ⟨⟨ho, hkind, rfl⟩, by simp⟩⟩
  · rintro ⟨s, -, ho⟩
    refine ⟨H.mem_cs ho, H.kind_ne_dead ho, ?_⟩
    rw [H.owner ho]
    by_contra hs
    rw [C s hs] at ho
    simp at ho

theorem liveBytes_eq (H : Heap st cs ch []) (C : Clean st ch) :
    liveBytes st cs = heapBytes st ch := by
  rw [liveBytes_eq_sum, heapBytes, ← listBytes_flatMap]
  exact ((H.live_perm C).map (chunkSize st)).sum_eq

theorem heapBytes_le (H : Heap st cs ch []) (C : Clean st ch) :
    tableEnd st + heapBytes st ch ≤ st.persistOff.toNat := by
  have h1 := H.arena.table_le
  have h2 := H.arena.tiles.liveBytes_le
  rw [H.liveBytes_eq C] at h2
  omega

end Heap

theorem listBytes_eq_cores (st : LeafState) (l : List UInt32) :
    listBytes st l = ((l.map (coreAt st)).map fun c => c.size.toNat).sum := by
  rw [List.map_map]
  rfl

/-! ### Allocation -/

section

variable {st : LeafState} {cs : List UInt32} {ch : UInt16 → List UInt32} {w ω : Word32}

theorem tableEnd_congr {st' : LeafState} (h : st'.slotCount = st.slotCount) :
    tableEnd st' = tableEnd st := by
  unfold tableEnd
  rw [h]

theorem makeRoom_spec (H : Heap st cs ch []) (C : Clean st ch) (size : Nat) : ∃ cs' ch',
    Heap (makeRoom w st size).1 cs' ch' [] ∧ Clean (makeRoom w st size).1 ch' ∧
      Moved st (makeRoom w st size).1 ch ch' ∧
      ((makeRoom w st size).2 = true ↔
        tableEnd st + heapBytes st ch + size ≤ st.persistOff.toNat) ∧
      ((makeRoom w st size).2 = true →
        tableEnd st + size ≤ (makeRoom w st size).1.dataLow.toNat) := by
  have hbytes := H.heapBytes_le C
  have hlive := H.arena.tiles.liveBytes_le
  rw [H.liveBytes_eq C] at hlive
  by_cases hfits : fitsBelow st size = true
  · have hroom : makeRoom w st size = (st, true) := by simp [makeRoom, hfits]
    have hle : tableEnd st + size ≤ st.dataLow.toNat := by simpa [fitsBelow] using hfits
    rw [hroom]
    refine ⟨cs, ch, H, C, Moved.refl st ch, ?_, fun _ => hle⟩
    simp only [true_iff]
    omega
  · have hroom : makeRoom w st size = (compact w st, fitsBelow (compact w st) size) := by
      simp [makeRoom, hfits]
    obtain ⟨cs', ch', H', C', M, hlow⟩ := H.compact (w := w)
    rw [H.liveBytes_eq C] at hlow
    have htable : tableEnd (compact w st) = tableEnd st := tableEnd_congr M.slotCount
    rw [hroom]
    refine ⟨cs', ch', H', C', M, ?_, ?_⟩
    · simp only [fitsBelow, decide_eq_true_eq, htable, hlow]
      omega
    · simp only [fitsBelow, decide_eq_true_eq, htable]
      exact id

theorem makeRoom_word (H : Heap st cs ch []) (size : Nat) :
    makeRoom w st size = makeRoom ω st size := by
  unfold makeRoom
  rw [H.compact_word (w := w) (ω := ω)]

/-- The header `alloc_chunk` writes, with exact sizes. -/
def freshHdr (owner : UInt16) (kind : ChunkKind) (payload : Nat) : ChunkHdr where
  next := none32
  size := UInt32.ofNat (sizeofChunkHdr + payload)
  used := UInt32.ofNat payload
  fwd := 0
  below := 0
  owner := owner
  kind := kind

/-- A chunk has been allocated and not linked yet. -/
structure Allocated (st st' : LeafState) (ch ch' : UInt16 → List UInt32) (cs : List UInt32)
    (o : UInt32) (owner : UInt16) (kind : ChunkKind) (payload : Nat) : Prop
    extends Moved st st' ch ch' where
  heap : Heap st' cs ch' [o]
  clean : Clean st' ch'
  mem : o ∈ cs
  header : getChunk st' o = freshHdr owner kind payload
  fits : sizeofChunkHdr + payload < 0xffffffff

/-- The header written at the new bottom of the chunk region. -/
theorem Heap.allocBelow (H : Heap st cs ch []) (C : Clean st ch) (size : Nat) (hdr : ChunkHdr)
    (low : UInt32) (hsize : hdr.size.toNat = size) (hmin : sizeofChunkHdr ≤ size)
    (hfits : tableEnd st + size ≤ st.dataLow.toNat)
    (hlow : low.toNat = st.dataLow.toNat - size) :
    Heap (putChunk { st with dataLow := low } low hdr) (low :: cs) ch [low] ∧
      Clean (putChunk { st with dataLow := low } low hdr) ch ∧
      Moved st (putChunk { st with dataLow := low } low hdr) ch ch := by
  set st' := putChunk { st with dataLow := low } low hdr with hst'
  have hlt := H.arena.persist_lt
  have htile := H.arena.tiles.le
  have hbelow : ∀ x ∈ cs, st.dataLow.toNat ≤ x.toNat := fun x hx => (H.arena.tiles.mem_bounds hx).1
  have hself : getChunk st' low = hdr := getChunk_putChunk_self _ _ _
  have hlen : (ChunkHdr.layout.enc hdr).length = sizeofChunkHdr := by
    rw [ChunkHdr.layout.enc_length, ChunkHdr.layout_size]
  have hchunk : ∀ x ∈ cs, getChunk st' x = getChunk st x := by
    intro x hx
    have := hbelow x hx
    refine (getChunk_poke (Or.inr ?_)).trans rfl
    omega
  have hslot : ∀ t < st.slotCount, getSlot st' t = getSlot st t := by
    intro t ht
    have := slotOff_lt_tableEnd ht
    refine (getSlot_poke (Or.inl ?_)).trans rfl
    omega
  have hcore : ∀ x ∈ cs, coreAt st' x = coreAt st x := by
    intro x hx
    have := hbelow x hx
    refine coreAt_congr (hchunk x hx) ((read_poke (Or.inr ?_)).trans rfl)
    unfold chunkPayload
    omega
  have hK : Keeps st st' := by
    refine ⟨rfl, fun t ht => by rw [hslot t ht], ?_⟩
    intro b
    apply Mem.write_agreeOn
    right
    omega
  have hlowne : low ∉ cs := by
    intro h
    have := hbelow low h
    have h24 : sizeofChunkHdr = 24 := rfl
    omega
  have A : Arena st' (low :: cs) := by
    refine ⟨H.arena.bufSize_le, H.arena.persist_le, ?_, ⟨rfl, ?_, ?_⟩, ?_⟩
    · change tableEnd st ≤ low.toNat
      omega
    · unfold chunkSize
      rw [hself]
      omega
    · have hstart : low.toNat + chunkSize st' low = st.dataLow.toNat := by
        unfold chunkSize
        rw [hself]
        omega
      change Tiles st' (low.toNat + chunkSize st' low) cs st.persistOff.toNat
      rw [hstart]
      refine H.arena.tiles.congr fun x hx => ?_
      unfold chunkSize
      rw [hchunk x hx]
    · have := H.arena.high_le
      change max st.high (low.toNat + (ChunkHdr.layout.enc hdr).length) ≤ st.persistOff.toNat
      omega
  refine ⟨⟨A, ?_, ?_, ?_⟩, hK.clean C, hK, ?_⟩
  · intro s hs
    have hused := (hK.used_iff s).mp hs
    rw [hslot s hused.1]
    refine (H.list s hused).congr fun x hx => ?_
    unfold nextOf
    rw [hchunk x (H.mem_cs hx)]
  · intro s hs
    have hused := (hK.used_iff s).mp hs
    rw [hslot s hused.1]
    exact H.tail s hused
  · intro s x
    rw [H.mem]
    unfold Owns
    constructor
    · rintro ⟨⟨hx, hk, hw⟩, -⟩
      have hne : x ≠ low := by
        rintro rfl
        exact hlowne hx
      rw [hchunk x hx]
      exact ⟨⟨by simp [hx], hk, hw⟩, by simpa using hne⟩
    · rintro ⟨⟨hx, hk, hw⟩, hnot⟩
      have hne : x ≠ low := by simpa using hnot
      have hx' : x ∈ cs := by simpa [hne] using hx
      rw [hchunk x hx'] at hk hw
      exact ⟨⟨hx', hk, hw⟩, by simp⟩
  · intro s _
    apply List.map_congr_left
    intro x hx
    exact hcore x (H.mem_cs hx)

theorem allocChunk_ok (H : Heap st cs ch []) (C : Clean st ch) (owner : UInt16)
    (kind : ChunkKind) {payload : Nat}
    (hroom : tableEnd st + heapBytes st ch + (sizeofChunkHdr + payload) ≤ st.persistOff.toNat) :
    ∃ cs' ch', Allocated st (allocChunk w st owner kind payload).1 ch ch' cs'
      (allocChunk w st owner kind payload).2 owner kind payload := by
  obtain ⟨cs₁, ch₁, H₁, C₁, M₁, hiff, hfits⟩ :=
    makeRoom_spec (w := w) H C (sizeofChunkHdr + payload)
  have hyes := hiff.mpr hroom
  have hlow := hfits hyes
  set st₁ := (makeRoom w st (sizeofChunkHdr + payload)).1 with hst₁
  have hlt := H₁.arena.persist_lt
  have htile := H₁.arena.tiles.le
  have hcast : w.cast (sizeofChunkHdr + payload) = UInt32.ofNat (sizeofChunkHdr + payload) :=
    Word32.cast_eq (by omega)
  have hcast' : w.cast payload = UInt32.ofNat payload := Word32.cast_eq (by omega)
  have hnat : (UInt32.ofNat (sizeofChunkHdr + payload)).toNat = sizeofChunkHdr + payload :=
    Word32.toNat_ofNat_of_lt (by omega)
  have halloc : allocChunk w st owner kind payload =
      (putChunk { st₁ with dataLow := w.sub st₁.dataLow (UInt32.ofNat (sizeofChunkHdr + payload)) }
        (w.sub st₁.dataLow (UInt32.ofNat (sizeofChunkHdr + payload)))
        (freshHdr owner kind payload),
        w.sub st₁.dataLow (UInt32.ofNat (sizeofChunkHdr + payload))) := by
    simp only [allocChunk, hyes, if_true, hcast, hcast', ← hst₁]
    rfl
  have htable : tableEnd st₁ = tableEnd st := tableEnd_congr M₁.slotCount
  rw [halloc]
  obtain ⟨H₂, C₂, M₂⟩ := H₁.allocBelow C₁ (sizeofChunkHdr + payload)
    (freshHdr owner kind payload) (w.sub st₁.dataLow (UInt32.ofNat (sizeofChunkHdr + payload)))
    hnat (by omega) (by omega) (by rw [Word32.toNat_sub (by omega), hnat])
  exact ⟨_, ch₁, M₁.trans M₂, H₂, C₂, by simp, getChunk_putChunk_self _ _ _, by omega⟩

theorem allocChunk_fail (H : Heap st cs ch []) (C : Clean st ch) (owner : UInt16)
    (kind : ChunkKind) {payload : Nat}
    (hroom : ¬ tableEnd st + heapBytes st ch + (sizeofChunkHdr + payload) ≤ st.persistOff.toNat) :
    ∃ cs' ch', Heap (allocChunk w st owner kind payload).1 cs' ch' [] ∧
      Clean (allocChunk w st owner kind payload).1 ch' ∧
      Moved st (allocChunk w st owner kind payload).1 ch ch' ∧
      (allocChunk w st owner kind payload).2 = none32 := by
  obtain ⟨cs₁, ch₁, H₁, C₁, M₁, hiff, -⟩ :=
    makeRoom_spec (w := w) H C (sizeofChunkHdr + payload)
  have hno : (makeRoom w st (sizeofChunkHdr + payload)).2 = false := by
    by_contra h
    exact hroom (hiff.mp (by simpa using h))
  have halloc : allocChunk w st owner kind payload =
      ((makeRoom w st (sizeofChunkHdr + payload)).1, none32) := by
    simp [allocChunk, hno]
  rw [halloc]
  exact ⟨cs₁, ch₁, H₁, C₁, M₁, rfl⟩

theorem allocChunk_word (H : Heap st cs ch []) (C : Clean st ch) (owner : UInt16)
    (kind : ChunkKind) (payload : Nat) :
    allocChunk w st owner kind payload = allocChunk ω st owner kind payload := by
  obtain ⟨cs₁, ch₁, H₁, -, M₁, -, hfits⟩ :=
    makeRoom_spec (w := w) H C (sizeofChunkHdr + payload)
  have hroom := makeRoom_word (w := w) (ω := ω) H (sizeofChunkHdr + payload)
  by_cases hyes : (makeRoom w st (sizeofChunkHdr + payload)).2 = true
  · have hlow := hfits hyes
    have hlt := H₁.arena.persist_lt
    have htile := H₁.arena.tiles.le
    have hcast : w.cast (sizeofChunkHdr + payload) = ω.cast (sizeofChunkHdr + payload) :=
      Word32.cast_any (by omega)
    have hcast' : w.cast payload = ω.cast payload := Word32.cast_any (by omega)
    have hnat : (ω.cast (sizeofChunkHdr + payload)).toNat = sizeofChunkHdr + payload :=
      Word32.toNat_cast (by omega)
    have hsub : w.sub (makeRoom w st (sizeofChunkHdr + payload)).1.dataLow
          (ω.cast (sizeofChunkHdr + payload)) =
        ω.sub (makeRoom w st (sizeofChunkHdr + payload)).1.dataLow
          (ω.cast (sizeofChunkHdr + payload)) := Word32.sub_any (by omega)
    simp only [allocChunk, ← hroom, hyes, if_true, hcast, hcast', hsub]
  · simp only [allocChunk, ← hroom, hyes, Bool.false_eq_true, if_false]

end

end Microtel.Leaf
