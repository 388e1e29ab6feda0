import Microtel.Leaf.Alloc
import Microtel.Leaf.Store

/-!
The representation relation between the record buffer and a `Store`, and how
each kind of buffer change carries it along.
-/

namespace Microtel.Leaf

open ByteMemory Loop LinkedList

/-! ### Packed bytes -/

theorem Attr.bytes_length (a : Attr) :
    a.bytes.length = sizeofKvHdr + a.key.length + a.value.text.length := by
  simp [Attr.bytes, KvHdr.layout.enc_length, Nat.add_assoc]

theorem kvValid_key {kv : Kv} (h : kvValid kv = true) :
    kv.key.data.length = kv.key.len ∧ kv.key.data ≠ [] := by
  obtain ⟨key, value⟩ := kv
  cases key with
  | null count => simp [kvValid, Slice.isNull] at h
  | items data =>
      refine ⟨rfl, ?_⟩
      rintro (rfl : data = [])
      simp [kvValid, Slice.len] at h

theorem kvValid_text {kv : Kv} (h : kvValid kv = true) :
    kv.attr.value.text = kvStr kv ∧ (kvStr kv).length = kvStrLen kv := by
  obtain ⟨key, value⟩ := kv
  cases value with
  | string s =>
      refine ⟨rfl, ?_⟩
      cases s with
      | null count =>
          have hcount : count = 0 := by
            by_contra hne
            have hs : (!(Slice.null count : Slice UInt8).isNull ||
                decide ((Slice.null count : Slice UInt8).len = 0)) = false := by
              simp [Slice.isNull, Slice.len, hne]
            unfold kvValid at h
            dsimp only at h
            rw [hs] at h
            simp at h
          simp [kvStr, kvStrLen, Slice.data, Slice.len, hcount]
      | items data => rfl
  | bool b => exact ⟨rfl, rfl⟩
  | int64 i => exact ⟨rfl, rfl⟩
  | double bits => exact ⟨rfl, rfl⟩
  | unknown => exact ⟨rfl, rfl⟩

theorem kvValid_scalar {kv : Kv} (h : kvValid kv = true) :
    kv.attr.value.scalar = kvScalar kv ∧ kv.attr.value.code = kvType kv := by
  obtain ⟨key, value⟩ := kv
  cases value with
  | bool b =>
      refine ⟨?_, rfl⟩
      simp only [Kv.attr, AttrValue.scalar, kvScalar]
      by_cases hb : b = 0
      · simp [hb]
      · simp [hb]
  | int64 i => exact ⟨rfl, rfl⟩
  | double bits => exact ⟨rfl, rfl⟩
  | string s => exact ⟨rfl, rfl⟩
  | unknown =>
      unfold kvValid at h
      simp at h

theorem kvSize_eq {kv : Kv} (h : kvValid kv = true) : kvSize kv = kv.attr.bytes.length := by
  rw [Attr.bytes_length, (kvValid_text h).1, (kvValid_text h).2, kvSize]
  rw [← (kvValid_key h).1]
  rfl

section Pack

variable {w ω : Word32}

/-- A valid attribute is packed as its bytes. -/
theorem packKv_eq {kv : Kv} (h : kvValid kv = true) (st : LeafState) (dst : Nat)
    (hfits : kv.attr.bytes.length < 2 ^ 32) :
    packKv w st dst kv = (st.poke dst kv.attr.bytes, UInt32.ofNat kv.attr.bytes.length) := by
  have hsize := kvSize_eq h
  have hlen := Attr.bytes_length kv.attr
  obtain ⟨htext, htextLen⟩ := kvValid_text h
  obtain ⟨hscalar, hcode⟩ := kvValid_scalar h
  have hkey : kv.attr.key = kv.key.data := rfl
  have hkeyLen : w.cast kv.key.len = UInt32.ofNat kv.attr.key.length := by
    rw [hkey, (kvValid_key h).1]
    apply Word32.cast_eq
    rw [← (kvValid_key h).1, ← hkey]
    omega
  have hstrLen : w.cast (kvStrLen kv) = UInt32.ofNat kv.attr.value.text.length := by
    rw [htext, htextLen]
    apply Word32.cast_eq
    rw [← htextLen, ← htext]
    omega
  have hhdr : kvHdrOf w kv = kv.attr.hdr := by
    simp only [kvHdrOf, Attr.hdr, hkeyLen, hstrLen, hscalar, hcode]
  unfold packKv
  rw [hhdr, hsize, Word32.cast_eq hfits, Attr.bytes, htext, hkey]

theorem poke_append (st : LeafState) (off : Nat) (as bs : Bytes) :
    (st.poke off as).poke (off + as.length) bs = st.poke off (as ++ bs) := by
  simp only [LeafState.poke, Mem.write_append, List.length_append]
  congr 1
  omega

/-- Packing attributes one after the other is one write. -/
theorem packNext_foldl {kvs : List Kv} (hvalid : kvsValid kvs = true) (st : LeafState) (p : Nat)
    (bs : Bytes) (hfits : ((kvs.map Kv.attr).flatMap Attr.bytes).length < 2 ^ 32) :
    (kvs.foldl (packNext w) (st.poke p bs, p + bs.length)).1 =
      st.poke p (bs ++ (kvs.map Kv.attr).flatMap Attr.bytes) := by
  induction kvs generalizing bs with
  | nil => simp
  | cons kv kvs ih =>
      have hkv : kvValid kv = true := by
        have := List.all_eq_true.mp hvalid
        exact this kv (by simp)
      have hkvs : kvsValid kvs = true := by
        simp only [kvsValid, List.all_cons, Bool.and_eq_true] at hvalid ⊢
        exact hvalid.2
      have hlen : kv.attr.bytes.length + ((kvs.map Kv.attr).flatMap Attr.bytes).length <
          2 ^ 32 := by
        simpa using hfits
      have hpack : packNext w (st.poke p bs, p + bs.length) kv =
          (st.poke p (bs ++ kv.attr.bytes), p + (bs ++ kv.attr.bytes).length) := by
        unfold packNext
        dsimp only
        rw [packKv_eq hkv _ _ (by omega)]
        dsimp only
        rw [poke_append, Word32.toNat_ofNat_of_lt (by omega), List.length_append, Nat.add_assoc]
      rw [List.foldl_cons, hpack, ih hkvs _ (by omega)]
      simp

end Pack

theorem Slice.data_length_of_len_zero {α : Type} {s : Slice α} (h : s.len = 0) : s.data = [] := by
  cases s with
  | null count => rfl
  | items data => exact List.length_eq_zero_iff.mp h

/-- The payload of an event, written piece by piece, is the event's bytes. -/
theorem writeEvent_eq {w : Word32} (st : LeafState) (env : Callbacks) (off : UInt32)
    {name : Slice UInt8} {kept : List Kv} (hname : name.readable = true)
    (hvalid : kvsValid kept = true)
    (hfits : (Item.event (readClock st.toLeafParams env) name.data (kept.map Kv.attr)).bytes.length
      < 2 ^ 32) :
    writeEvent w st env off name kept = st.poke (chunkPayload off)
      (Item.event (readClock st.toLeafParams env) name.data (kept.map Kv.attr)).bytes := by
  have hdata := Slice.data_length_of_readable hname
  have hlen : (Item.event (readClock st.toLeafParams env) name.data
      (kept.map Kv.attr)).bytes.length =
      sizeofEventHdr + name.len + ((kept.map Kv.attr).flatMap Attr.bytes).length := by
    simp only [Item.bytes, List.length_append, EventHdr.layout.enc_length, EventHdr.layout_size,
      hdata]
  have hattrs : kept.length ≤ ((kept.map Kv.attr).flatMap Attr.bytes).length := by
    have h24 : sizeofKvHdr = 24 := rfl
    rw [List.length_flatMap]
    have hone : ∀ n ∈ (kept.map Kv.attr).map fun a => a.bytes.length, 1 ≤ n := by
      intro n hn
      obtain ⟨a, -, rfl⟩ := List.mem_map.mp hn
      rw [Attr.bytes_length]
      omega
    have hsum := List.card_nsmul_le_sum _ 1 hone
    simpa using hsum
  have hcount : w.cast kept.length = UInt32.ofNat (kept.map Kv.attr).length := by
    rw [List.length_map]
    exact Word32.cast_eq (by omega)
  have hnameLen : w.cast name.len = UInt32.ofNat name.data.length := by
    rw [hdata]
    exact Word32.cast_eq (by omega)
  set hdr : EventHdr := ⟨readClock st.toLeafParams env, UInt32.ofNat name.data.length,
    UInt32.ofNat (kept.map Kv.attr).length⟩ with hhdr
  have hhdrLen : (EventHdr.layout.enc hdr).length = sizeofEventHdr := EventHdr.layout.enc_length hdr
  have hhead : (if 0 < name.len then
        (st.poke (chunkPayload off) (EventHdr.layout.enc hdr)).poke
          (chunkPayload off + sizeofEventHdr) name.data
      else st.poke (chunkPayload off) (EventHdr.layout.enc hdr)) =
      st.poke (chunkPayload off) (EventHdr.layout.enc hdr ++ name.data) := by
    split
    · rw [← hhdrLen, poke_append]
    · next h => rw [Slice.data_length_of_len_zero (by omega), List.append_nil]
  have hpos : chunkPayload off + sizeofEventHdr + name.len =
      chunkPayload off + (EventHdr.layout.enc hdr ++ name.data).length := by
    rw [List.length_append, hhdrLen, hdata]
    omega
  unfold writeEvent
  dsimp only
  rw [hcount, hnameLen, ← hhdr, hhead, hpos, packNext_foldl hvalid _ _ _ (by omega)]
  rfl

/-! ### The relation -/

/-- A chunk holds a cell: its payload starts with the item's bytes. -/
structure Holds (core : ChunkCore) (c : Cell) : Prop where
  kind : core.kind = c.item.kind
  size : core.size.toNat = c.bytes
  used : core.used.toNat = c.item.bytes.length
  fits : c.item.bytes.length ≤ c.cap
  payload : core.payload.take c.item.bytes.length = c.item.bytes

structure SlotHolds (st : LeafState) (ch : UInt16 → List UInt32) (s : UInt16) (e : Entry) :
    Prop where
  body : (getSlot st s).body = e.toRec none32 none32 (getSlot st s).nextEnded
  cells : List.Forall₂ Holds ((ch s).map (coreAt st)) e.cells

/-- The Resource and the scope, at the top of the buffer. -/
structure Persistent (st : LeafState) (resource : List Attr) (name version : Bytes) : Prop where
  resourceOff : st.resourceOff = st.persistOff
  resourceCount : st.resourceCount.toNat = resource.length
  resourceRead : st.mem.read st.persistOff.toNat (resource.flatMap Attr.bytes).length =
    resource.flatMap Attr.bytes
  nameOff : st.persistOff.toNat ≤ st.scopeNameOff.toNat
  nameRead : st.mem.read st.scopeNameOff.toNat st.scopeNameLen.toNat = name
  versionOff : st.persistOff.toNat ≤ st.scopeVersionOff.toNat
  versionRead : st.mem.read st.scopeVersionOff.toNat st.scopeVersionLen.toNat = version
  fits : st.persistOff.toNat + (resource.flatMap Attr.bytes).length + name.length +
    version.length ≤ st.bufSize.toNat

structure Rep (st : LeafState) (S : Store) (cs : List UInt32) (ch : UInt16 → List UInt32) :
    Prop where
  heap : Heap st cs ch []
  clean : Clean st ch
  held : ∀ s < st.slotCount, ∀ e, S.entry s = some e → SlotHolds st ch s e
  free : ∀ s < st.slotCount, S.entry s = none → (getSlot st s).state = .free
  endedList : IsList (fun s => (getSlot st s).nextEnded) none16 st.endedHead S.ended
  endedTail : st.endedTail = last none16 S.ended
  endedCount : st.endedCount.toNat = S.ended.length
  persistent : Persistent st S.resource S.scopeName S.scopeVersion
  magic : st.magic = leafMagic
  params : st.toLeafParams = S.toLeafParams
  vars : st.toLeafVars = S.toLeafVars
  nextGen : st.nextGen = S.nextGen
  count : st.slotCount = S.count
  capacity : st.persistOff.toNat = S.capacity

theorem Persistent.congr {st st' : LeafState} {resource : List Attr} {name version : Bytes}
    (P : Persistent st resource name version)
    (hscalars : st'.persistOff = st.persistOff ∧ st'.resourceOff = st.resourceOff ∧
      st'.resourceCount = st.resourceCount ∧ st'.scopeNameOff = st.scopeNameOff ∧
      st'.scopeNameLen = st.scopeNameLen ∧ st'.scopeVersionOff = st.scopeVersionOff ∧
      st'.scopeVersionLen = st.scopeVersionLen ∧ st'.bufSize = st.bufSize)
    (hmem : ∀ b, Mem.AgreeOn st'.mem st.mem st.persistOff.toNat b) :
    Persistent st' resource name version := by
  obtain ⟨h1, h2, h3, h4, h5, h6, h7, h8⟩ := hscalars
  have hread : ∀ off n, st.persistOff.toNat ≤ off → st'.mem.read off n = st.mem.read off n := by
    intro off n hoff
    exact Mem.AgreeOn.read ((hmem (off + n)).mono hoff (Nat.le_refl _))
  refine ⟨by rw [h2, h1, P.resourceOff], by rw [h3, P.resourceCount], ?_, ?_, ?_, ?_, ?_, ?_⟩
  · rw [h1, hread _ _ (Nat.le_refl _), P.resourceRead]
  · rw [h1, h4]
    exact P.nameOff
  · rw [h4, h5, hread _ _ P.nameOff, P.nameRead]
  · rw [h1, h6]
    exact P.versionOff
  · rw [h6, h7, hread _ _ P.versionOff, P.versionRead]
  · rw [h1, h8]
    exact P.fits

theorem Keeps.persistent {st st' : LeafState} {resource : List Attr} {name version : Bytes}
    (K : Keeps st st') (P : Persistent st resource name version) :
    Persistent st' resource name version := by
  refine P.congr ?_ K.persist
  rw [K.scalars]
  exact ⟨rfl, rfl, rfl, rfl, rfl, rfl, rfl, rfl⟩

theorem SpanRec.nextEnded_of_body {r r' : SpanRec} (h : r.body = r'.body) :
    r.nextEnded = r'.nextEnded := by
  have hfield := congrArg SpanRec.nextEnded h
  exact hfield

theorem SpanRec.state_of_body {r r' : SpanRec} (h : r.body = r'.body) : r.state = r'.state := by
  have hfield := congrArg SpanRec.state h
  exact hfield

theorem SlotHolds.field {α : Type} {st : LeafState} {ch : UInt16 → List UInt32} {s : UInt16}
    {e : Entry} (h : SlotHolds st ch s e) (f : SpanRec → α) (hf : ∀ r, f r.body = f r) :
    f (getSlot st s) = f (e.toRec none32 none32 (getSlot st s).nextEnded) := by
  rw [← h.body, hf]

theorem SlotHolds.state {st : LeafState} {ch : UInt16 → List UInt32} {s : UInt16} {e : Entry}
    (h : SlotHolds st ch s e) : (getSlot st s).state = if e.ended then .ended else .opened :=
  h.field SpanRec.state fun _ => rfl

namespace Rep

variable {st st' : LeafState} {S : Store} {cs cs' : List UInt32} {ch ch' : UInt16 → List UInt32}
  {s : UInt16} {e : Entry}

theorem used_iff (R : Rep st S cs ch) (hs : s < st.slotCount) : Used st s ↔ (S.entry s).isSome := by
  cases he : S.entry s with
  | none =>
      have := R.free s hs he
      simp [Used, this]
  | some e =>
      have := (R.held s hs e he).state
      simp only [Used, hs, this, true_and]
      split <;> simp

theorem used (R : Rep st S cs ch) (hs : s < st.slotCount) (he : S.entry s = some e) : Used st s :=
  (R.used_iff hs).mpr (by simp [he])

/-- The relation survives a move of the chunk lists. -/
theorem moved (R : Rep st S cs ch) (M : Moved st st' ch ch') (H : Heap st' cs' ch' [])
    (C : Clean st' ch') (hended : ∀ t ∈ S.ended, t < st.slotCount) : Rep st' S cs' ch' where
  heap := H
  clean := C
  held t ht e he := by
    rw [M.slotCount] at ht
    have hbody := M.body t ht
    have h := R.held t ht e he
    refine ⟨?_, ?_⟩
    · rw [hbody, h.body, SpanRec.nextEnded_of_body hbody]
    · rw [M.contents t (R.used ht he)]
      exact h.cells
  free t ht he := by
    rw [M.slotCount] at ht
    rw [M.state ht]
    exact R.free t ht he
  endedList := by
    have hhead : st'.endedHead = st.endedHead := by rw [M.scalars]
    rw [hhead]
    exact R.endedList.congr fun t ht => SpanRec.nextEnded_of_body (M.body t (hended t ht))
  endedTail := by
    have h : st'.endedTail = st.endedTail := by rw [M.scalars]
    rw [h, R.endedTail]
  endedCount := by
    have h : st'.endedCount = st.endedCount := by rw [M.scalars]
    rw [h, R.endedCount]
  persistent := M.toKeeps.persistent R.persistent
  magic := by
    have h : st'.magic = st.magic := by rw [M.scalars]
    rw [h, R.magic]
  params := by
    have h : st'.toLeafParams = st.toLeafParams := by rw [M.scalars]
    rw [h, R.params]
  vars := by
    have h : st'.toLeafVars = st.toLeafVars := by rw [M.scalars]
    rw [h, R.vars]
  nextGen := by
    have h : st'.nextGen = st.nextGen := by rw [M.scalars]
    rw [h, R.nextGen]
  count := by rw [M.slotCount, R.count]
  capacity := by rw [M.persistOff, R.capacity]

/-- The relation after a change to the span of one slot. -/
theorem put {e' : Entry} (R : Rep st S cs ch) (hs : s < st.slotCount)
    (hscalars : st' = { st with mem := st'.mem, high := st'.high, dataLow := st'.dataLow })
    (hpersist : ∀ b, Mem.AgreeOn st'.mem st.mem st.persistOff.toNat b)
    (H : Heap st' cs' ch' []) (C : Clean st' ch') (hended : ∀ t ∈ S.ended, t < st.slotCount)
    (hother : ∀ t < st.slotCount, t ≠ s → (getSlot st' t).body = (getSlot st t).body ∧
      (Used st t → (ch' t).map (coreAt st') = (ch t).map (coreAt st)))
    (hbody : (getSlot st' s).body = e'.toRec none32 none32 (getSlot st' s).nextEnded)
    (hlink : s ∈ S.ended → (getSlot st' s).nextEnded = (getSlot st s).nextEnded)
    (hcells : List.Forall₂ Holds ((ch' s).map (coreAt st')) e'.cells) :
    Rep st' (S.put s e') cs' ch' := by
  have hcount : st'.slotCount = st.slotCount := by rw [hscalars]
  have hnext : ∀ t ∈ S.ended, (getSlot st' t).nextEnded = (getSlot st t).nextEnded := by
    intro t ht
    by_cases hts : t = s
    · subst hts
      exact hlink ht
    · exact SpanRec.nextEnded_of_body (hother t (hended t ht) hts).1
  constructor
  · exact H
  · exact C
  · intro t ht e he
    rw [hcount] at ht
    by_cases hts : t = s
    · subst hts
      obtain rfl : e' = e := by simpa [Store.put] using he
      exact ⟨hbody, hcells⟩
    · have he' : S.entry t = some e := by simpa [Store.put, hts] using he
      have h := R.held t ht e he'
      obtain ⟨hb, hc⟩ := hother t ht hts
      refine ⟨by rw [hb, h.body, SpanRec.nextEnded_of_body hb], ?_⟩
      rw [hc (R.used ht he')]
      exact h.cells
  · intro t ht he
    rw [hcount] at ht
    by_cases hts : t = s
    · subst hts
      simp [Store.put] at he
    · have he' : S.entry t = none := by simpa [Store.put, hts] using he
      rw [SpanRec.state_of_body (hother t ht hts).1]
      exact R.free t ht he'
  · have hhead : st'.endedHead = st.endedHead := by rw [hscalars]
    rw [hhead]
    exact R.endedList.congr hnext
  · have h : st'.endedTail = st.endedTail := by rw [hscalars]
    rw [h]
    exact R.endedTail
  · have h : st'.endedCount = st.endedCount := by rw [hscalars]
    rw [h]
    exact R.endedCount
  · refine R.persistent.congr ?_ hpersist
    rw [hscalars]
    exact ⟨rfl, rfl, rfl, rfl, rfl, rfl, rfl, rfl⟩
  · have h : st'.magic = st.magic := by rw [hscalars]
    rw [h, R.magic]
  · have h : st'.toLeafParams = st.toLeafParams := by rw [hscalars]
    rw [h]
    exact R.params
  · have h : st'.toLeafVars = st.toLeafVars := by rw [hscalars]
    rw [h]
    exact R.vars
  · have h : st'.nextGen = st.nextGen := by rw [hscalars]
    rw [h]
    exact R.nextGen
  · rw [hcount]
    exact R.count
  · have h : st'.persistOff = st.persistOff := by rw [hscalars]
    rw [h]
    exact R.capacity

/-- A change of the variables outside the buffer. -/
theorem withVars (R : Rep st S cs ch) (v : LeafVars) :
    Rep { st with toLeafVars := v } { S with toLeafVars := v } cs ch := by
  have hslots : ∀ t, getSlot { st with toLeafVars := v } t = getSlot st t := fun _ => rfl
  have A : Arena { st with toLeafVars := v } cs :=
    ⟨R.heap.arena.bufSize_le, R.heap.arena.persist_le, R.heap.arena.table_le,
      R.heap.arena.tiles.congr fun _ _ => rfl, R.heap.arena.high_le⟩
  have H : Heap { st with toLeafVars := v } cs ch [] :=
    R.heap.congr A rfl (fun _ _ => ⟨Iff.rfl, rfl, rfl⟩) fun _ _ => ⟨rfl, rfl, rfl⟩
  have P : Persistent { st with toLeafVars := v } S.resource S.scopeName S.scopeVersion :=
    R.persistent.congr ⟨rfl, rfl, rfl, rfl, rfl, rfl, rfl, rfl⟩ fun _ => Mem.AgreeOn.refl _ _ _
  exact ⟨H, R.clean, fun t ht e he => ⟨(R.held t ht e he).body, (R.held t ht e he).cells⟩, R.free,
    R.endedList, R.endedTail, R.endedCount, P, R.magic, R.params, rfl, R.nextGen, R.count,
    R.capacity⟩

/-! ### Space -/

theorem listBytes_eq (h : SlotHolds st ch s e) : listBytes st (ch s) = e.bytes := by
  have hcells := h.cells
  rw [listBytes_eq_cores, Entry.bytes]
  generalize (ch s).map (coreAt st) = cores at hcells
  generalize e.cells = cells at hcells
  induction hcells with
  | nil => rfl
  | cons hc _ ih => simp [hc.size, ih]

theorem heapBytes_eq (R : Rep st S cs ch) : heapBytes st ch = S.chunkBytes := by
  unfold heapBytes Store.chunkBytes
  have hslots : slots st = slotsOf S.count := by
    rw [← R.count]
    rfl
  rw [← hslots]
  congr 1
  apply List.map_congr_left
  intro s hs
  have hlt := mem_slots.mp hs
  cases he : S.entry s with
  | none =>
      have hunused : ¬ Used st s := by
        rw [R.used_iff hlt]
        simp [he]
      rw [R.clean s hunused]
      rfl
  | some e => exact listBytes_eq (R.held s hlt e he)

theorem tableEnd_eq (R : Rep st S cs ch) : tableEnd st = S.count.toNat * sizeofSpanRec := by
  rw [← R.count]
  rfl

theorem usedBytes_le (R : Rep st S cs ch) : S.usedBytes ≤ S.capacity := by
  have h := R.heap.heapBytes_le R.clean
  rw [R.heapBytes_eq, R.tableEnd_eq, R.capacity] at h
  exact h

/-- What the allocator checks is whether the store has room. -/
theorem fits_iff (R : Rep st S cs ch) (n : Nat) :
    tableEnd st + heapBytes st ch + n ≤ st.persistOff.toNat ↔ n ≤ S.room := by
  have h := R.usedBytes_le
  rw [R.heapBytes_eq, R.tableEnd_eq, R.capacity]
  unfold Store.room
  unfold Store.usedBytes at h ⊢
  omega

theorem room_lt (R : Rep st S cs ch) : S.room < 0xffffffff := by
  have h1 := R.heap.arena.persist_lt
  have h2 := R.capacity
  unfold Store.room
  omega

end Rep

end Microtel.Leaf
