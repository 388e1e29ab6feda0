import Microtel.Leaf.Rep
import Microtel.Leaf.StoreInv

/-!
The record buffer refines the store: each operation of the source, on a buffer
that represents a store, returns what the store's operation returns and leaves
a buffer that represents the store's result.
-/

namespace Microtel.Leaf

open ByteMemory Loop LinkedList

/-! ### Payload writes and allocation -/

section Payload

variable {st : LeafState} {cs loose : List UInt32} {ch : UInt16 → List UInt32} {o : UInt32}
  {bs : Bytes}

theorem Heap.pokePayload (H : Heap st cs ch loose) (ho : o ∈ cs)
    (hbs : sizeofChunkHdr + bs.length ≤ chunkSize st o) :
    Heap (st.poke (chunkPayload o) bs) cs ch loose := by
  refine H.congr (H.arena.pokePayload ho hbs) rfl ?_ ?_
  · intro t ht
    rw [H.arena.getSlot_pokePayload ho ht]
    exact ⟨Iff.rfl, rfl, rfl⟩
  · intro x hx
    rw [H.arena.getChunk_pokePayload ho hx hbs]
    exact ⟨rfl, rfl, rfl⟩

theorem Arena.keeps_pokePayload (A : Arena st cs) (ho : o ∈ cs)
    (hbs : sizeofChunkHdr + bs.length ≤ chunkSize st o) :
    Keeps st (st.poke (chunkPayload o) bs) := by
  refine ⟨rfl, fun t ht => by rw [A.getSlot_pokePayload ho ht], ?_⟩
  intro b
  have h1 := A.mem_bounds ho
  apply Mem.write_agreeOn
  right
  unfold chunkPayload
  omega

theorem Arena.coreAt_pokePayload (A : Arena st cs) (ho : o ∈ cs)
    (hbs : sizeofChunkHdr + bs.length ≤ chunkSize st o) {x : UInt32} (hx : x ∈ cs) (hne : x ≠ o) :
    coreAt (st.poke (chunkPayload o) bs) x = coreAt st x := by
  have hmin := (A.mem_bounds hx).2.1
  refine coreAt_congr (A.getChunk_pokePayload ho hx hbs) ?_
  exact A.read_pokePayload_of_ne ho hx hne hbs (by omega)

/-- The written bytes are the first of the payload. -/
theorem Arena.payload_pokePayload (A : Arena st cs) (ho : o ∈ cs)
    (hbs : sizeofChunkHdr + bs.length ≤ chunkSize st o) :
    (coreAt (st.poke (chunkPayload o) bs) o).payload.take bs.length = bs := by
  have hsize : chunkSize (st.poke (chunkPayload o) bs) o = chunkSize st o := by
    unfold chunkSize
    rw [A.getChunk_pokePayload ho ho hbs]
  unfold coreAt
  rw [hsize, Mem.read_take _ _ _ _ (by omega)]
  exact Mem.read_write st.mem (chunkPayload o) bs

end Payload

/-- A chunk of slot `s` holds `item` and is not linked yet. -/
structure Pending (st : LeafState) (ch : UInt16 → List UInt32) (cs : List UInt32) (o : UInt32)
    (s : UInt16) (item : Item) : Prop where
  heap : Heap st cs ch [o]
  clean : Clean st ch
  owns : Owns st cs s o
  next : nextOf st o = none32
  holds : Holds (coreAt st o) ⟨item, item.bytes.length⟩

/-- A chunk of slot `s` has been allocated and holds `item`; it is not linked. -/
structure Filled (st st' : LeafState) (ch ch' : UInt16 → List UInt32) (cs : List UInt32)
    (o : UInt32) (s : UInt16) (item : Item) : Prop
    extends Moved st st' ch ch', Pending st' ch' cs o s item

theorem Item.kind_ne_dead (item : Item) : item.kind ≠ .dead := by
  cases item <;> simp [Item.kind]

theorem Allocated.fill {st st' : LeafState} {ch ch' : UInt16 → List UInt32} {cs : List UInt32}
    {o : UInt32} {s : UInt16} {item : Item}
    (A : Allocated st st' ch ch' cs o s item.kind item.bytes.length) :
    Filled st (st'.poke (chunkPayload o) item.bytes) ch ch' cs o s item := by
  have hsize : chunkSize st' o = sizeofChunkHdr + item.bytes.length := by
    unfold chunkSize
    rw [A.header]
    exact Word32.toNat_ofNat_of_lt (by have := A.fits; omega)
  have hbs : sizeofChunkHdr + item.bytes.length ≤ chunkSize st' o := by omega
  have K := A.heap.arena.keeps_pokePayload A.mem hbs
  have hhdr : getChunk (st'.poke (chunkPayload o) item.bytes) o =
      freshHdr s item.kind item.bytes.length := by
    rw [A.heap.arena.getChunk_pokePayload A.mem A.mem hbs, A.header]
  have hout : ∀ t, o ∉ ch' t := fun t h => by
    have := ((A.heap.mem t o).mp h).2
    simp at this
  refine ⟨⟨A.toKeeps.trans K, ?_⟩, A.heap.pokePayload A.mem hbs, K.clean A.clean,
    ⟨A.mem, ?_, ?_⟩, ?_, ?_⟩
  · intro t ht
    rw [← A.contents t ht]
    apply List.map_congr_left
    intro x hx
    refine A.heap.arena.coreAt_pokePayload A.mem hbs (A.heap.mem_cs hx) ?_
    rintro rfl
    exact hout t hx
  · rw [hhdr]
    exact item.kind_ne_dead
  · rw [hhdr]
    rfl
  · unfold nextOf
    rw [hhdr]
    rfl
  · have hfits := A.fits
    refine ⟨?_, ?_, ?_, Nat.le_refl _, A.heap.arena.payload_pokePayload A.mem hbs⟩
    · change (getChunk _ o).kind = _
      rw [hhdr]
      rfl
    · change (getChunk _ o).size.toNat = _
      rw [hhdr]
      exact Word32.toNat_ofNat_of_lt (by omega)
    · change (getChunk _ o).used.toNat = _
      rw [hhdr]
      exact Word32.toNat_ofNat_of_lt (by omega)

section Alloc

variable {st : LeafState} {S : Store} {cs : List UInt32} {ch : UInt16 → List UInt32}
  {w ω : Word32} {s : UInt16}

/-- `alloc_chunk` and the write of the payload, with room. -/
theorem Rep.fill (R : Rep st S cs ch) (s : UInt16) (item : Item)
    (hroom : sizeofChunkHdr + item.bytes.length ≤ S.room) :
    ∃ cs' ch', Filled st ((allocChunk w st s item.kind item.bytes.length).1.poke
      (chunkPayload (allocChunk w st s item.kind item.bytes.length).2) item.bytes) ch ch' cs'
      (allocChunk w st s item.kind item.bytes.length).2 s item := by
  obtain ⟨cs', ch', A⟩ := allocChunk_ok (w := w) R.heap R.clean s item.kind
    ((R.fits_iff _).mpr hroom)
  exact ⟨cs', ch', A.fill⟩

theorem Rep.alloc_ne_none (R : Rep st S cs ch) (s : UInt16) (kind : ChunkKind) {n : Nat}
    (hroom : sizeofChunkHdr + n ≤ S.room) : (allocChunk w st s kind n).2 ≠ none32 := by
  obtain ⟨cs', ch', A⟩ := allocChunk_ok (w := w) R.heap R.clean s kind ((R.fits_iff _).mpr hroom)
  exact A.heap.arena.mem_ne_none A.mem

/-- `alloc_chunk` without room compacts and returns the null offset. -/
theorem Rep.alloc_fail (R : Rep st S cs ch) (hended : ∀ t ∈ S.ended, t < st.slotCount)
    (s : UInt16) (kind : ChunkKind) {n : Nat} (hroom : ¬ sizeofChunkHdr + n ≤ S.room) :
    (allocChunk w st s kind n).2 = none32 ∧
      ∃ cs' ch', Rep (allocChunk w st s kind n).1 S cs' ch' := by
  obtain ⟨cs', ch', H, C, M, hnone⟩ := allocChunk_fail (w := w) R.heap R.clean s kind
    (fun h => hroom ((R.fits_iff _).mp h))
  exact ⟨hnone, cs', ch', R.moved M H C hended⟩

end Alloc

/-! ### Reading packed attributes -/

theorem unpackKv_eq {w : Word32} {m : Mem} {src : Nat} {a : Attr}
    (hread : m.read src a.bytes.length = a.bytes) (hfits : a.bytes.length < 2 ^ 32) :
    unpackKv w m src = (a, UInt32.ofNat a.bytes.length) := by
  have hlen := Attr.bytes_length a
  have hhdrLen : (KvHdr.layout.enc a.hdr).length = sizeofKvHdr := KvHdr.layout.enc_length a.hdr
  have hbytes : a.bytes = KvHdr.layout.enc a.hdr ++ (a.key ++ a.value.text) := by
    simp [Attr.bytes]
  have hhdr : m.get KvHdr.layout src = a.hdr := by
    apply Mem.get_of_read_append _ (a.key ++ a.value.text)
    have hsum : KvHdr.layout.size + (a.key ++ a.value.text).length = a.bytes.length := by
      rw [KvHdr.layout_size, List.length_append]
      omega
    rw [hsum, hread, hbytes]
  have hrest : m.read (src + sizeofKvHdr) (a.key.length + a.value.text.length) =
      a.key ++ a.value.text := by
    have hdrop := Mem.read_drop m src a.bytes.length sizeofKvHdr (by omega)
    rw [hread, hbytes, List.drop_left' hhdrLen] at hdrop
    rw [hdrop]
    congr 1
    simp [hhdrLen]
  have hkeyLen : a.hdr.keyLen.toNat = a.key.length := Word32.toNat_ofNat_of_lt (by omega)
  have hstrLen : a.hdr.strLen.toNat = a.value.text.length := Word32.toNat_ofNat_of_lt (by omega)
  have hkey : m.read (src + sizeofKvHdr) a.key.length = a.key := by
    rw [← Mem.read_take m _ (a.key.length + a.value.text.length) _ (by omega), hrest,
      List.take_left' rfl]
  have htext : m.read (src + sizeofKvHdr + a.key.length) a.value.text.length = a.value.text := by
    have hdrop := Mem.read_drop m (src + sizeofKvHdr) (a.key.length + a.value.text.length)
      a.key.length (by omega)
    rw [hrest, List.drop_left' rfl, Nat.add_sub_cancel_left] at hdrop
    exact hdrop.symm
  have hsize : w.add (w.add (w.cast sizeofKvHdr) a.hdr.keyLen) a.hdr.strLen =
      UInt32.ofNat a.bytes.length := by
    have h24 : sizeofKvHdr = 24 := rfl
    have hcast : (w.cast sizeofKvHdr).toNat = sizeofKvHdr := Word32.toNat_cast (by omega)
    have hfirst : (w.add (w.cast sizeofKvHdr) a.hdr.keyLen).toNat = sizeofKvHdr + a.key.length := by
      rw [Word32.toNat_add (by omega), hcast, hkeyLen]
    rw [Word32.add_eq (by omega), hfirst, hstrLen, hlen]
  unfold unpackKv
  simp only [hhdr, hkeyLen, hstrLen, hkey, htext, hsize]
  obtain ⟨key, value⟩ := a
  cases value with
  | bool b => cases b <;> rfl
  | int64 i => simp [Attr.hdr, AttrValue.code, AttrValue.scalar]
  | double bits => rfl
  | string text => rfl

theorem Holds.read {st : LeafState} {o : UInt32} {c : Cell} (h : Holds (coreAt st o) c) :
    st.mem.read (chunkPayload o) c.item.bytes.length = c.item.bytes := by
  have hsize : chunkSize st o = c.bytes := h.size
  have hfits := h.fits
  have hpayload := h.payload
  unfold Cell.bytes at hsize
  simp only [coreAt] at hpayload
  rwa [Mem.read_take _ _ _ _ (by omega)] at hpayload

theorem Holds.size_lt {st : LeafState} {o : UInt32} {c : Cell} (h : Holds (coreAt st o) c) :
    c.item.bytes.length < 2 ^ 32 := by
  rw [← h.used]
  exact UInt32.toNat_lt _

theorem chunkMatches_key {w : Word32} {st : LeafState} {o : UInt32} {c : Cell}
    (h : Holds (coreAt st o) c) (key : Bytes) :
    chunkMatches w st o .attr (some key) = c.hasKey key := by
  have hkind : (getChunk st o).kind = c.item.kind := h.kind
  have hread := h.read
  have hlt := h.size_lt
  obtain ⟨item, cap⟩ := c
  cases item with
  | attr a =>
      have hunpack := unpackKv_eq (w := w) hread hlt
      simp only [chunkMatches, hkind, Item.kind, hunpack, Cell.hasKey]
      simp
  | name text => simp [chunkMatches, hkind, Item.kind, Cell.hasKey]
  | event time title attrs => simp [chunkMatches, hkind, Item.kind, Cell.hasKey]
  | status text => simp [chunkMatches, hkind, Item.kind, Cell.hasKey]

theorem chunkMatches_status {w : Word32} {st : LeafState} {o : UInt32} {c : Cell}
    (h : Holds (coreAt st o) c) : chunkMatches w st o .status none = c.isStatus := by
  have hkind : (getChunk st o).kind = c.item.kind := h.kind
  obtain ⟨item, cap⟩ := c
  cases item <;> simp [chunkMatches, hkind, Item.kind, Cell.isStatus]

/-! ### Lists of cells -/

/-- The relation of a chunk list to its cells splits with the list. -/
theorem forall₂_split {st : LeafState} {l₁ l₂ : List UInt32} {o : UInt32} {cells : List Cell}
    (h : List.Forall₂ Holds ((l₁ ++ o :: l₂).map (coreAt st)) cells) :
    ∃ c₁ c c₂, cells = c₁ ++ c :: c₂ ∧ List.Forall₂ Holds (l₁.map (coreAt st)) c₁ ∧
      Holds (coreAt st o) c ∧ List.Forall₂ Holds (l₂.map (coreAt st)) c₂ := by
  induction l₁ generalizing cells with
  | nil =>
      cases h with
      | cons hc hrest => exact ⟨[], _, _, rfl, List.Forall₂.nil, hc, hrest⟩
  | cons x l₁ ih =>
      cases h with
      | cons hx hrest =>
          obtain ⟨c₁, c, c₂, rfl, h₁, hc, h₂⟩ := ih hrest
          exact ⟨_ :: c₁, c, c₂, rfl, List.Forall₂.cons hx h₁, hc, h₂⟩

/-- `find_chunk` finds the first matching cell. -/
theorem SlotHolds.find {st : LeafState} {cs loose : List UInt32} {ch : UInt16 → List UInt32}
    {s : UInt16} {w : Word32} {cells : List Cell} (H : Heap st cs ch loose) (hs : Used st s)
    (hcells : List.Forall₂ Holds ((ch s).map (coreAt st)) cells) (kind : ChunkKind)
    (key : Option Bytes) (p : Cell → Bool)
    (hp : ∀ o c, Holds (coreAt st o) c → chunkMatches w st o kind key = p c) :
    (∃ l₁ o l₂ c₁ c c₂, ch s = l₁ ++ o :: l₂ ∧ cells = c₁ ++ c :: c₂ ∧
      (∀ x ∈ c₁, p x = false) ∧ p c = true ∧
      List.Forall₂ Holds (l₁.map (coreAt st)) c₁ ∧ Holds (coreAt st o) c ∧
      List.Forall₂ Holds (l₂.map (coreAt st)) c₂ ∧
      findChunk w st s kind key = (o, last none32 l₁)) ∨
    ((∀ x ∈ cells, p x = false) ∧ (findChunk w st s kind key).1 = none32) := by
  have hnone : ∀ (l : List UInt32) (c : List Cell), List.Forall₂ Holds (l.map (coreAt st)) c →
      (∀ x ∈ l, chunkMatches w st x kind key = false) → ∀ x ∈ c, p x = false := by
    intro l
    induction l with
    | nil =>
        intro c h _ x hx
        cases h
        simp at hx
    | cons o l ih =>
        intro c h hl x hx
        cases h with
        | cons ho hrest =>
            rcases List.mem_cons.mp hx with rfl | hx
            · rw [← hp o x ho]
              exact hl o (by simp)
            · exact ih _ hrest (fun y hy => hl y (by simp [hy])) x hx
  rcases H.findChunk_spec (w := w) hs kind key with
    ⟨l₁, o, l₂, hsplit, hl₁, ho, hfind⟩ | ⟨hl, hfind⟩
  · left
    rw [hsplit] at hcells
    obtain ⟨c₁, c, c₂, rfl, h₁, hc, h₂⟩ := forall₂_split hcells
    exact ⟨l₁, o, l₂, c₁, c, c₂, hsplit, rfl, hnone l₁ c₁ h₁ hl₁, by rw [← hp o c hc]; exact ho,
      h₁, hc, h₂, hfind⟩
  · right
    exact ⟨hnone _ _ hcells hl, hfind⟩

/-! ### Handles -/

section Handles

variable {st : LeafState} {S : Store} {cs : List UInt32} {ch : UInt16 → List UInt32}

theorem Rep.checkLeaf (R : Rep st S cs ch) : checkLeaf st = .ok := by
  simp [Leaf.checkLeaf, R.magic]

theorem Rep.resolve (R : Rep st S cs ch) (span : Handle) :
    Leaf.resolve st span = (S.resolve span).map Prod.fst := by
  unfold Leaf.resolve Store.resolve
  dsimp only
  generalize (span &&& 0xffff).toUInt16 = index
  generalize (span >>> 16).toUInt16 = gen
  rw [R.count]
  by_cases hguard : S.count ≤ index ∨ gen = 0
  · rw [if_pos hguard, if_pos hguard]
    rfl
  · rw [if_neg hguard, if_neg hguard]
    have hlt : index < st.slotCount := by
      rw [R.count]
      exact UInt16.not_le.mp fun h => hguard (Or.inl h)
    cases he : S.entry index with
    | none =>
        have hfree := R.free _ hlt he
        simp [hfree]
    | some e =>
        have hslot := R.held _ hlt e he
        have hstate : (getSlot st index).state ≠ .free := (R.used hlt he).2
        have hgen : (getSlot st index).gen = e.gen := hslot.field SpanRec.gen fun _ => rfl
        by_cases hmatch : e.gen = gen
        · simp [hstate, hgen, hmatch]
        · simp [hgen, hmatch]

theorem Rep.resolveOpen (R : Rep st S cs ch) (span : Handle) :
    Leaf.resolveOpen st span =
      (S.resolve span).bind fun p => if p.2.ended then none else some p.1 := by
  unfold Leaf.resolveOpen
  rw [R.resolve]
  cases hres : S.resolve span with
  | none => rfl
  | some p =>
      obtain ⟨s, e⟩ := p
      obtain ⟨he, hlt, -, -⟩ := Store.resolve_spec hres
      have hstate := (R.held s (by rw [R.count]; exact hlt) e he).state
      cases hended : e.ended with
      | true => simp [hstate, hended]
      | false => simp [hstate, hended]

/-- The argument and handle checks of the span mutators. -/
theorem Rep.openSpan (R : Rep st S cs ch) (argsOk : Bool) (span : Handle) :
    Leaf.openSpan st argsOk span = (S.openSpan argsOk span).map Prod.fst := by
  unfold Leaf.openSpan Store.openSpan
  rw [R.checkLeaf, R.resolveOpen]
  cases argsOk with
  | false => rfl
  | true =>
      cases hres : S.resolve span with
      | none => rfl
      | some p =>
          obtain ⟨s, e⟩ := p
          cases hended : e.ended with
          | true => simp only [Option.bind_some, hended, if_true]; rfl
          | false => simp only [Option.bind_some, hended, Bool.false_eq_true, if_false]; rfl

theorem Rep.openSpan_error (R : Rep st S cs ch) {argsOk : Bool} {span : Handle} {status : Status}
    (h : S.openSpan argsOk span = .error status) :
    Leaf.openSpan st argsOk span = .error status := by
  rw [R.openSpan, h]
  rfl

theorem Rep.openSpan_ok (R : Rep st S cs ch) {argsOk : Bool} {span : Handle} {s : UInt16}
    {e : Entry} (h : S.openSpan argsOk span = .ok (s, e)) :
    Leaf.openSpan st argsOk span = .ok s := by
  rw [R.openSpan, h]
  rfl

end Handles

/-! ### Appending an item -/

/-- A span record rewritten with its list left alone. -/
theorem Heap.putRecord {st : LeafState} {cs : List UInt32} {ch : UInt16 → List UInt32} {s : UInt16}
    (H : Heap st cs ch []) (C : Clean st ch) (hs : s < st.slotCount) {r : SpanRec}
    (hfree : r.state = .free ↔ (getSlot st s).state = .free)
    (hhead : r.head = (getSlot st s).head) (htail : r.tail = (getSlot st s).tail) :
    Heap (putSlot st s r) cs ch [] ∧ Clean (putSlot st s r) ch ∧
      (∀ o ∈ cs, coreAt (putSlot st s r) o = coreAt st o) ∧
      ∀ b, Mem.AgreeOn (putSlot st s r).mem st.mem st.persistOff.toNat b := by
  have F := H.arena.heapFrame_putSlot hs r
  have hslots : ∀ t < st.slotCount,
      ((getSlot (putSlot st s r) t).state = .free ↔ (getSlot st t).state = .free) ∧
      (getSlot (putSlot st s r) t).head = (getSlot st t).head ∧
      (getSlot (putSlot st s r) t).tail = (getSlot st t).tail := by
    intro t _
    rw [getSlot_putSlot]
    split
    · next h =>
      rw [h]
      exact ⟨hfree, hhead, htail⟩
    · exact ⟨Iff.rfl, rfl, rfl⟩
  refine ⟨H.congr (H.arena.putSlot hs r) rfl hslots ?_, ?_, F.core, F.persist⟩
  · intro x hx
    rw [H.arena.getChunk_putSlot hs hx]
    exact ⟨rfl, rfl, rfl⟩
  · intro t ht
    apply C
    rintro ⟨hlt, hstate⟩
    exact ht ⟨hlt, fun h => hstate ((hslots t hlt).1.mp h)⟩

/-- What a change to the chunk list of slot `s` leaves behind: the other lists
hold what they held, and the list of `s` now holds `cells`. -/
structure Relisted (st st' : LeafState) (ch : UInt16 → List UInt32) (cs : List UInt32)
    (ch' : UInt16 → List UInt32) (loose : List UInt32) (s : UInt16) (cells : List Cell) : Prop
    extends Keeps st st' where
  heap : Heap st' cs ch' loose
  clean : Clean st' ch'
  others : ∀ t, Used st t → t ≠ s → (ch' t).map (coreAt st') = (ch t).map (coreAt st)
  cells : List.Forall₂ Holds ((ch' s).map (coreAt st')) cells

theorem Relisted.of_moved {st st₁ st₂ : LeafState} {ch ch₁ ch₂ : UInt16 → List UInt32}
    {cs loose : List UInt32} {s : UInt16} {cells : List Cell} (M : Moved st st₁ ch ch₁)
    (L : Relisted st₁ st₂ ch₁ cs ch₂ loose s cells) : Relisted st st₂ ch cs ch₂ loose s cells where
  toKeeps := M.toKeeps.trans L.toKeeps
  heap := L.heap
  clean := L.clean
  others t ht hne := by rw [L.others t ((M.used_iff t).mpr ht) hne, M.contents t ht]
  cells := L.cells

theorem Relisted.trans {st st₁ st₂ : LeafState} {ch ch₁ ch₂ : UInt16 → List UInt32}
    {cs cs' loose loose' : List UInt32} {s : UInt16} {cells cells' : List Cell}
    (L : Relisted st st₁ ch cs ch₁ loose s cells)
    (L' : Relisted st₁ st₂ ch₁ cs' ch₂ loose' s cells') :
    Relisted st st₂ ch cs' ch₂ loose' s cells' where
  toKeeps := L.toKeeps.trans L'.toKeeps
  heap := L'.heap
  clean := L'.clean
  others t ht hne := by rw [L'.others t ((L.used_iff t).mpr ht) hne, L.others t ht hne]
  cells := L'.cells

section Relist

variable {st st' : LeafState} {ch : UInt16 → List UInt32} {cs dead loose loose' : List UInt32}
  {o old : UInt32} {s : UInt16} {item : Item} {cells : List Cell} {l : List UInt32}

/-- An edit that gave slot `s` the list `l`. -/
theorem Heap.relisted (H : Heap st cs ch loose) (C : Clean st ch) (hs : Used st s)
    (E : Edit st st' cs dead) (H' : Heap st' cs (Function.update ch s l) loose')
    (hdead : ∀ t, t ≠ s → ∀ x ∈ ch t, x ∉ dead)
    (hl : ∀ x ∈ l, x ∉ dead) (hcells : List.Forall₂ Holds (l.map (coreAt st)) cells) :
    Relisted st st' ch cs (Function.update ch s l) loose' s cells where
  toKeeps := E.toKeeps
  heap := H'
  clean := by
    intro t ht
    have hunused : ¬ Used st t := fun h => ht ((E.used_iff t).mpr h)
    have hne : t ≠ s := by
      rintro rfl
      exact hunused hs
    rw [Function.update_of_ne hne]
    exact C t hunused
  others t _ hne := by
    rw [Function.update_of_ne hne]
    apply List.map_congr_left
    intro x hx
    exact E.core x (H.mem_cs hx) (hdead t hne x hx)
  cells := by
    rw [Function.update_self]
    have hcores : l.map (coreAt st') = l.map (coreAt st) := by
      apply List.map_congr_left
      intro x hx
      have hxcs : x ∈ cs := by
        have hmem : x ∈ Function.update ch s l s := by rwa [Function.update_self]
        exact H'.mem_cs hmem
      exact E.core x hxcs (hl x hx)
    rw [hcores]
    exact hcells

/-- Linking a pending chunk appends its item to the span. -/
theorem Pending.link (P : Pending st ch cs o s item) (hs : Used st s)
    (hcells : List.Forall₂ Holds ((ch s).map (coreAt st)) cells) :
    ∃ ch', Relisted st (linkChunk st s o) ch cs ch' [] s
      (cells ++ [⟨item, item.bytes.length⟩]) := by
  obtain ⟨H', E⟩ := P.heap.linkChunk hs P.owns P.next
  refine ⟨_, P.heap.relisted P.clean hs E H' (by simp) (by simp) ?_⟩
  rw [List.map_append]
  exact List.rel_append hcells (List.Forall₂.cons P.holds List.Forall₂.nil)

/-- Splicing a pending chunk in puts its item in the place of another. -/
theorem Pending.splice {l₁ l₂ : List UInt32} {c₁ c₂ : List Cell} (P : Pending st ch cs o s item)
    (hs : Used st s) (hsplit : ch s = l₁ ++ old :: l₂)
    (h₁ : List.Forall₂ Holds (l₁.map (coreAt st)) c₁)
    (h₂ : List.Forall₂ Holds (l₂.map (coreAt st)) c₂) :
    ∃ ch', Relisted st (spliceChunk st s (last none32 l₁) old o) ch cs ch' [] s
      (c₁ ++ ⟨item, item.bytes.length⟩ :: c₂) := by
  obtain ⟨H', E⟩ := P.heap.spliceChunk hs hsplit P.owns
  have hold : old ∈ ch s := by rw [hsplit]; simp
  have hnodup := (P.heap.list s hs).nodup
  rw [hsplit] at hnodup
  have hoold : o ≠ old := by
    rintro rfl
    have := ((P.heap.mem s o).mp hold).2
    simp at this
  refine ⟨_, P.heap.relisted P.clean hs E H' ?_ ?_ ?_⟩
  · intro t hne x hx hdead
    rw [List.mem_singleton.mp hdead] at hx
    exact P.heap.not_mem_other hold hne hx
  · intro x hx hdead
    rw [List.mem_singleton.mp hdead] at hx
    rcases List.mem_append.mp hx with hx | hx
    · exact (List.disjoint_of_nodup_append hnodup) hx (by simp)
    · rcases List.mem_cons.mp hx with hx | hx
      · exact hoold hx.symm
      · have h := hnodup.sublist (List.sublist_append_right l₁ (old :: l₂))
        exact (List.nodup_cons.mp h).1 hx
  · rw [List.map_append, List.map_cons]
    exact List.rel_append h₁ (List.Forall₂.cons P.holds h₂)

/-- Unlinking a chunk removes its item. -/
theorem Heap.unlinked {l₁ l₂ : List UInt32} {c₁ c₂ : List Cell} (H : Heap st cs ch loose)
    (C : Clean st ch) (hs : Used st s) (hsplit : ch s = l₁ ++ old :: l₂)
    (h₁ : List.Forall₂ Holds (l₁.map (coreAt st)) c₁)
    (h₂ : List.Forall₂ Holds (l₂.map (coreAt st)) c₂) :
    ∃ ch', Relisted st (Leaf.unlinkChunk st s (last none32 l₁) old) ch cs ch' loose s (c₁ ++ c₂) ∧
      Edit st (Leaf.unlinkChunk st s (last none32 l₁) old) cs [old] ∧
      ∀ x ∈ cs, x ∉ ch s →
        nextOf (Leaf.unlinkChunk st s (last none32 l₁) old) x = nextOf st x := by
  obtain ⟨H', E, hnext⟩ := H.unlinkChunk hs hsplit
  have hold : old ∈ ch s := by rw [hsplit]; simp
  have hnodup := (H.list s hs).nodup
  rw [hsplit] at hnodup
  refine ⟨_, H.relisted C hs E H' ?_ ?_ ?_, E, hnext⟩
  · intro t hne x hx hdead
    rw [List.mem_singleton.mp hdead] at hx
    exact H.not_mem_other hold hne hx
  · intro x hx hdead
    rw [List.mem_singleton.mp hdead] at hx
    rcases List.mem_append.mp hx with hx | hx
    · exact (List.disjoint_of_nodup_append hnodup) hx (by simp)
    · have h := hnodup.sublist (List.sublist_append_right l₁ (old :: l₂))
      exact (List.nodup_cons.mp h).1 hx
  · rw [List.map_append]
    exact List.rel_append h₁ h₂

/-- A pending chunk stays pending while another one is unlinked. -/
theorem Pending.unlink {l₁ l₂ : List UInt32} {c₁ c₂ : List Cell} (P : Pending st ch cs o s item)
    (hs : Used st s) (hsplit : ch s = l₁ ++ old :: l₂)
    (h₁ : List.Forall₂ Holds (l₁.map (coreAt st)) c₁)
    (h₂ : List.Forall₂ Holds (l₂.map (coreAt st)) c₂) :
    ∃ ch', Relisted st (unlinkChunk st s (last none32 l₁) old) ch cs ch' [o] s (c₁ ++ c₂) ∧
      Pending (unlinkChunk st s (last none32 l₁) old) ch' cs o s item := by
  obtain ⟨ch', L, E, hnext⟩ := P.heap.unlinked P.clean hs hsplit h₁ h₂
  have hout : o ∉ ch s := by
    intro h
    have := ((P.heap.mem s o).mp h).2
    simp at this
  have hne : o ∉ [old] := by
    intro h
    rw [List.mem_singleton.mp h, hsplit] at hout
    simp at hout
  refine ⟨ch', L, L.heap, L.clean, (E.owns_iff s o).mpr ⟨P.owns, hne⟩, ?_, ?_⟩
  · rw [hnext o P.owns.1 hout]
    exact P.next
  · rw [E.core o P.owns.1 hne]
    exact P.holds

/-- An item overwritten in place by one that fits into its chunk. -/
theorem Heap.overwritten {l₁ l₂ : List UInt32} {c₁ c₂ : List Cell} {c : Cell}
    (H : Heap st cs ch []) (item : Item) (C : Clean st ch) (hs : Used st s)
    (hsplit : ch s = l₁ ++ old :: l₂) (h₁ : List.Forall₂ Holds (l₁.map (coreAt st)) c₁)
    (hc : Holds (coreAt st old) c)
    (h₂ : List.Forall₂ Holds (l₂.map (coreAt st)) c₂) (hkind : item.kind = c.item.kind)
    (hfits : item.bytes.length ≤ c.cap) :
    Relisted st (putChunk (st.poke (chunkPayload old) item.bytes) old
        { getChunk st old with used := UInt32.ofNat item.bytes.length }) ch cs ch [] s
      (c₁ ++ ⟨item, c.cap⟩ :: c₂) := by
  have holdmem : old ∈ ch s := by rw [hsplit]; simp
  have hold : old ∈ cs := H.mem_cs holdmem
  have hsize : chunkSize st old = sizeofChunkHdr + c.cap := hc.size
  have hbs : sizeofChunkHdr + item.bytes.length ≤ chunkSize st old := by omega
  have hlt : chunkSize st old < 2 ^ 32 := UInt32.toNat_lt _
  set st₁ := st.poke (chunkPayload old) item.bytes with hst₁
  have A₁ : Arena st₁ cs := H.arena.pokePayload hold hbs
  have hhdr₁ : ∀ x ∈ cs, getChunk st₁ x = getChunk st x := fun x hx =>
    H.arena.getChunk_pokePayload hold hx hbs
  have hsize₁ : ∀ x ∈ cs, chunkSize st₁ x = chunkSize st x := by
    intro x hx
    unfold chunkSize
    rw [hhdr₁ x hx]
  set hdr : ChunkHdr := { getChunk st old with used := UInt32.ofNat item.bytes.length } with hhdr
  have hget : ∀ x ∈ cs, getChunk (putChunk st₁ old hdr) x =
      if x = old then hdr else getChunk st x := by
    intro x hx
    rw [A₁.getChunk_putChunk hold hx, hhdr₁ x hx]
  have hslot : ∀ t < st.slotCount, getSlot (putChunk st₁ old hdr) t = getSlot st t := by
    intro t ht
    rw [A₁.getSlot_putChunk hold ht, H.arena.getSlot_pokePayload hold ht]
  have hread : ∀ x ∈ cs, (putChunk st₁ old hdr).mem.read (chunkPayload x)
      (chunkSize st x - sizeofChunkHdr) =
      st₁.mem.read (chunkPayload x) (chunkSize st x - sizeofChunkHdr) := by
    intro x hx
    have hmin := (H.arena.mem_bounds hx).2.1
    exact A₁.read_putChunk hold hx hdr (by rw [hsize₁ x hx]; omega)
  have hcore : ∀ x ∈ cs, x ≠ old → coreAt (putChunk st₁ old hdr) x = coreAt st x := by
    intro x hx hne
    have hsame : getChunk (putChunk st₁ old hdr) x = getChunk st₁ x := by
      rw [hget x hx, if_neg hne, hhdr₁ x hx]
    rw [← H.arena.coreAt_pokePayload hold hbs hx hne]
    refine coreAt_congr hsame ?_
    rw [hsize₁ x hx]
    exact hread x hx
  have hA : Arena (putChunk st₁ old hdr) cs := A₁.putChunk hold (by rw [hhdr₁ old hold])
  have hHeap : Heap (putChunk st₁ old hdr) cs ch [] := by
    refine H.congr hA rfl ?_ ?_
    · intro t ht
      rw [hslot t ht]
      exact ⟨Iff.rfl, rfl, rfl⟩
    · intro x hx
      rw [hget x hx]
      split
      · next h =>
        rw [h]
        exact ⟨rfl, rfl, rfl⟩
      · exact ⟨rfl, rfl, rfl⟩
  have hkeeps : Keeps st (putChunk st₁ old hdr) := by
    refine ⟨rfl, fun t ht => by rw [hslot t ht], ?_⟩
    intro b
    have hbound := H.arena.mem_bounds hold
    have hmin := hbound.2.1
    refine Mem.AgreeOn.trans (Mem.write_agreeOn _ _ _ (Or.inr ?_))
      ((H.arena.keeps_pokePayload hold hbs).persist b)
    rw [ChunkHdr.layout.enc_length, ChunkHdr.layout_size]
    omega
  have hself : Holds (coreAt (putChunk st₁ old hdr) old) ⟨item, c.cap⟩ := by
    have hgetold := hget old hold
    rw [if_pos rfl] at hgetold
    refine ⟨?_, ?_, ?_, hfits, ?_⟩
    · change (getChunk _ old).kind = _
      rw [hgetold, hkind]
      exact hc.kind
    · change (getChunk _ old).size.toNat = _
      rw [hgetold]
      exact hc.size
    · change (getChunk _ old).used.toNat = _
      rw [hgetold]
      exact Word32.toNat_ofNat_of_lt (by omega)
    · have hpay := H.arena.payload_pokePayload hold hbs
      have hsz : chunkSize (putChunk st₁ old hdr) old = chunkSize st old := by
        unfold chunkSize
        rw [hgetold]
      unfold coreAt at hpay ⊢
      rw [hsz, hread old hold]
      rwa [← hst₁, hsize₁ old hold] at hpay
  have hnodup := (H.list s hs).nodup
  rw [hsplit] at hnodup
  have hne₁ : ∀ x ∈ l₁, x ≠ old := by
    rintro x hx rfl
    exact (List.disjoint_of_nodup_append hnodup) hx (by simp)
  have hne₂ : ∀ x ∈ l₂, x ≠ old := by
    rintro x hx rfl
    have h := hnodup.sublist (List.sublist_append_right l₁ (x :: l₂))
    exact (List.nodup_cons.mp h).1 hx
  have hin : ∀ x, x ∈ l₁ ∨ x ∈ l₂ → x ∈ cs := by
    intro x hx
    refine H.mem_cs (s := s) ?_
    rw [hsplit]
    rcases hx with hx | hx <;> simp [hx]
  have hmap₁ : l₁.map (coreAt (putChunk st₁ old hdr)) = l₁.map (coreAt st) := by
    apply List.map_congr_left
    exact fun x hx => hcore x (hin x (Or.inl hx)) (hne₁ x hx)
  have hmap₂ : l₂.map (coreAt (putChunk st₁ old hdr)) = l₂.map (coreAt st) := by
    apply List.map_congr_left
    exact fun x hx => hcore x (hin x (Or.inr hx)) (hne₂ x hx)
  refine ⟨hkeeps, hHeap, hkeeps.clean C, ?_, ?_⟩
  · intro t _ hne
    apply List.map_congr_left
    intro x hx
    refine hcore x (H.mem_cs hx) ?_
    rintro rfl
    exact H.not_mem_other holdmem hne hx
  · rw [hsplit, List.map_append, List.map_cons, hmap₁, hmap₂]
    exact List.rel_append h₁ (List.Forall₂.cons hself h₂)

end Relist

end Microtel.Leaf
