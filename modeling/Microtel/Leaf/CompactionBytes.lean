import Microtel.Leaf.Alloc

/-!
What the compaction writes, byte by byte. Pass 1 and the chunk loop of pass 2 rewrite chunk
headers, the slot loop of pass 2 rewrites the records of used slots, and the move writes
nothing below the chunks.
-/

namespace Microtel.Leaf

open ByteMemory Loop LinkedList

/-- `offsetof(span_rec, head)`; `tail` is beside it. -/
def offsetofHead : Nat := 48

/-- `offsetof(chunk_hdr, below)`. -/
def offsetofBelow : Nat := 16

/-! ### Records and their fields -/

theorem getElem?_middle {β : Type} {front mid mid' back : List β} (hlen : mid'.length = mid.length)
    {i : Nat} (hi : i < front.length ∨ front.length + mid.length ≤ i) :
    (front ++ (mid' ++ back))[i]? = (front ++ (mid ++ back))[i]? := by
  rcases hi with hi | hi
  · rw [List.getElem?_append_left hi, List.getElem?_append_left hi]
  · rw [List.getElem?_append_right (by omega), List.getElem?_append_right (by omega),
      List.getElem?_append_right (by omega), List.getElem?_append_right (by omega), hlen]

/-- The list ends of a record are eight of its bytes. -/
theorem SpanRec.enc_ends (r : SpanRec) (head tail : UInt32) {i : Nat}
    (hi : i < offsetofHead ∨ offsetofHead + 8 ≤ i) :
    (SpanRec.layout.enc { r with head, tail })[i]? = (SpanRec.layout.enc r)[i]? := by
  have hsplit : ∀ r : SpanRec, SpanRec.layout.enc r =
      (Layout.u64.enc r.start ++ Layout.u64.enc r.finish ++ (Layout.bytes 16).enc r.traceId ++
        (Layout.bytes 8).enc r.spanId ++ (Layout.bytes 8).enc r.parentSpanId) ++
      ((Layout.u32.enc r.head ++ Layout.u32.enc r.tail) ++
        (Layout.u16.enc r.gen ++ (Layout.u16.enc r.nextEnded ++ (Layout.u16.enc r.attrCount ++
          (Layout.u16.enc r.eventCount ++ (SlotState.layout.enc r.state ++
          (Layout.u8.enc r.kind ++ (Layout.u8.enc r.statusCode ++
          (boolLayout.enc r.hasParent ++ (Layout.pad 4).enc ()))))))))) := by
    intro r
    simp only [List.append_assoc]
    rfl
  rw [hsplit, hsplit]
  apply getElem?_middle
  · simp [Layout.enc_length]
  · simpa [Layout.enc_length, Layout.u64, Layout.u32, Layout.bytes, offsetofHead] using hi

/-- The `below` link of a header is four of its bytes. -/
theorem ChunkHdr.enc_below (hdr : ChunkHdr) (below : UInt32) {i : Nat}
    (hi : i < offsetofBelow ∨ offsetofBelow + 4 ≤ i) :
    (ChunkHdr.layout.enc { hdr with below })[i]? = (ChunkHdr.layout.enc hdr)[i]? := by
  have hsplit : ∀ hdr : ChunkHdr, ChunkHdr.layout.enc hdr =
      (Layout.u32.enc hdr.next ++ Layout.u32.enc hdr.size ++ Layout.u32.enc hdr.used ++
        Layout.u32.enc hdr.fwd) ++
      (Layout.u32.enc hdr.below ++
        (Layout.u16.enc hdr.owner ++ (ChunkKind.layout.enc hdr.kind ++
          (Layout.pad 1).enc ()))) := by
    intro hdr
    simp only [List.append_assoc]
    rfl
  rw [hsplit, hsplit]
  apply getElem?_middle
  · simp [Layout.enc_length]
  · simpa [Layout.enc_length, Layout.u32, offsetofBelow] using hi

/-! ### Header writes -/

variable {st : LeafState} {cs : List UInt32}

/-- `st'` differs from `st` in bytes of the chunks only, and the headers of `done` have
been written. -/
structure HeaderWrites (st st' : LeafState) (done : List UInt32) : Prop where
  outside : ∀ a, a < st.dataLow.toNat ∨ st.persistOff.toNat ≤ a →
    st'.mem.byte a = st.mem.byte a
  encoded : ∀ o ∈ done, st'.mem.Encoded ChunkHdr.layout o.toNat

theorem HeaderWrites.putChunk {s : LeafState} {done : List UInt32} {o : UInt32}
    (H : HeaderWrites st s done) (A : Arena s cs) (F : HeapFrame st s cs)
    (hdone : ∀ x ∈ done, x ∈ cs) (ho : o ∈ cs) (hdr : ChunkHdr) :
    HeaderWrites st (Leaf.putChunk s o hdr) (done ++ [o]) := by
  obtain ⟨hlow, hmin, hend⟩ := A.tiles.mem_bounds ho
  rw [F.dataLow] at hlow
  rw [F.persistOff] at hend
  have hlen : (ChunkHdr.layout.enc hdr).length = sizeofChunkHdr := ChunkHdr.layout.enc_length hdr
  constructor
  · intro a ha
    have hkept : (Leaf.putChunk s o hdr).mem.byte a = s.mem.byte a := by
      rcases ha with ha | ha
      · exact Mem.write_byte_of_lt (by omega)
      · exact Mem.write_byte_of_ge (by omega)
    rw [hkept]
    exact H.outside a ha
  · intro x hx
    by_cases hxo : x = o
    · rw [hxo]
      exact Mem.encoded_write_enc ChunkHdr.layout s.mem o.toNat hdr
    · have hxdone : x ∈ done := by simpa [hxo] using hx
      have hxmin := (A.mem_bounds (hdone x hxdone)).2.1
      have hapart := A.tiles.disjoint ho (hdone x hxdone) (Ne.symm hxo)
      refine (H.encoded x hxdone).congr (read_poke ?_)
      rw [hlen, ChunkHdr.layout_size]
      omega

section Passes

variable {w : Word32}

/-- Pass 1 writes every header. -/
theorem plan_headerWrites (A : Arena st cs) :
    ∃ s, PlanInv st cs cs [] s ∧ HeaderWrites st s.st cs ∧
      compactPlan w st = (s.st, w.sub st.persistOff (planLive w st), last none32 cs) := by
  refine compactPlan_rule (w := w) A (fun done s => HeaderWrites st s done)
    ⟨fun _ _ => rfl, by simp⟩ ?_
  intro done o rest s I H
  obtain ⟨hoff, -, -, -⟩ := I.step (w := w) A.persist_lt
  have ho : o ∈ cs := by rw [I.split]; simp
  have hdone : ∀ x ∈ done, x ∈ cs := by
    intro x hx
    rw [I.split]
    exact List.mem_append_left _ hx
  change HeaderWrites st (putChunk s.st s.off _) (done ++ [o])
  rw [hoff]
  exact H.putChunk I.arena I.frame hdone ho _

/-- The chunk loop of pass 2 writes headers only. -/
theorem fixChunks_headerWrites (A : Arena st cs)
    (hrefs : ∀ o ∈ cs, (getChunk st o).fwd ≠ none32 →
      (getChunk st o).next = none32 ∨ (getChunk st o).next ∈ cs)
    (hencoded : ∀ o ∈ cs, st.mem.Encoded ChunkHdr.layout o.toNat) :
    HeaderWrites st (whileLoop (fun s => decide (s.2 < st.persistOff)) (fixStep w)
      st.bufSize.toNat (st, st.dataLow)).1 cs := by
  refine (fixChunks_rule (w := w) A hrefs (fun s => HeaderWrites st s cs)
    ⟨fun _ _ => rfl, hencoded⟩ ?_).2
  intro done o rest s I H
  have ho : o ∈ cs := by rw [I.split]; simp
  obtain ⟨hoff, -, -⟩ := I.step (w := w) (hrefs o ho) A.persist_lt
  by_cases hfwd : (getChunk s.1 o).fwd = none32
  · have hstep : (fixStep w s).1 = s.1 := by simp [fixStep, hoff, hfwd]
    rw [hstep]
    exact H
  · have hstep : (fixStep w s).1 = putChunk s.1 o
        { getChunk s.1 o with next := forward s.1 (getChunk s.1 o).next } := by
      simp [fixStep, hoff, hfwd]
    have hwrites := H.putChunk I.arena I.frame (fun _ hx => hx) ho
      { getChunk s.1 o with next := forward s.1 (getChunk s.1 o).next }
    rw [hstep]
    exact ⟨hwrites.outside, fun x hx => hwrites.encoded x (List.mem_append_left _ hx)⟩

end Passes

/-! ### Slot writes -/

/-- The byte is one of the record of the slot. -/
def InSlot (t : UInt16) (a : Nat) : Prop := slotOff t ≤ a ∧ a < slotOff t + sizeofSpanRec

/-- `st'` differs from `st` in bytes of the used slots of `done` only, and their records
have been written. -/
structure SlotWrites (st st' : LeafState) (done : List UInt16) : Prop where
  outside : ∀ a, (∀ t ∈ done, (getSlot st t).state ≠ .free → ¬ InSlot t a) →
    st'.mem.byte a = st.mem.byte a
  encoded : ∀ t ∈ done, (getSlot st t).state ≠ .free →
    st'.mem.Encoded SpanRec.layout (slotOff t)

theorem fixSlot_outside {t : UInt16} {a : Nat} (h : (getSlot st t).state ≠ .free → ¬ InSlot t a) :
    (fixSlot st t).mem.byte a = st.mem.byte a := by
  unfold fixSlot
  dsimp only
  split
  · next hused =>
    have hnot := h hused
    unfold InSlot at hnot
    have hlen : ∀ r, (SpanRec.layout.enc r).length = sizeofSpanRec := SpanRec.layout.enc_length
    by_cases hlt : a < slotOff t
    · exact Mem.write_byte_of_lt hlt
    · refine Mem.write_byte_of_ge ?_
      rw [hlen]
      omega
  · rfl

theorem fixSlot_encoded {t : UInt16} (h : (getSlot st t).state ≠ .free) :
    (fixSlot st t).mem.Encoded SpanRec.layout (slotOff t) := by
  unfold fixSlot
  dsimp only
  rw [if_pos h]
  exact Mem.encoded_write_enc SpanRec.layout st.mem (slotOff t) _

theorem not_inSlot {t u : UInt16} (hne : u ≠ t) {i : Nat} (hi : i < sizeofSpanRec) :
    ¬ InSlot t (slotOff u + i) := by
  rintro ⟨h1, h2⟩
  have hapart := slotOff_disjoint hne
  omega

theorem getSlot_fixSlot_of_ne {t u : UInt16} (hne : u ≠ t) :
    getSlot (fixSlot st t) u = getSlot st u := by
  unfold fixSlot
  dsimp only
  split
  · exact getSlot_putSlot_of_ne st _ hne
  · rfl

theorem fixSlots_writes (l : List UInt16) (hnodup : l.Nodup) (st : LeafState) :
    SlotWrites st (l.foldl fixSlot st) l := by
  induction l generalizing st with
  | nil => exact ⟨fun _ _ => rfl, by simp⟩
  | cons t l ih =>
      obtain ⟨hnew, hrest⟩ := List.nodup_cons.mp hnodup
      have hne : ∀ u ∈ l, u ≠ t := fun u hu heq => hnew (heq ▸ hu)
      have hkept : ∀ u ∈ l, getSlot (fixSlot st t) u = getSlot st u :=
        fun u hu => getSlot_fixSlot_of_ne (hne u hu)
      have hwrites := ih hrest (fixSlot st t)
      constructor
      · intro a ha
        rw [List.foldl_cons, hwrites.outside a]
        · exact fixSlot_outside (ha t (by simp))
        · intro u hu hused
          rw [hkept u hu] at hused
          exact ha u (by simp [hu]) hused
      · intro u hu hused
        rcases List.mem_cons.mp hu with rfl | hu
        · refine (fixSlot_encoded hused).congr (Mem.AgreeOn.read ?_)
          intro a hlow hhigh
          refine hwrites.outside a ?_
          intro v hv _
          obtain ⟨i, rfl⟩ := Nat.exists_eq_add_of_le hlow
          rw [SpanRec.layout_size] at hhigh
          exact not_inSlot (hne v hv).symm (by omega)
        · rw [← hkept u hu] at hused
          exact hwrites.encoded u hu hused

/-! ### The plan and the fix-up -/

/-- What the first two passes have written. -/
structure FixWrites (st st₃ : LeafState) (cs : List UInt32) : Prop where
  outside : ∀ a, a < st.dataLow.toNat ∨ st.persistOff.toNat ≤ a →
    (∀ t, Used st t → ¬ InSlot t a) → st₃.mem.byte a = st.mem.byte a
  slots : ∀ t, Used st t → st₃.mem.Encoded SpanRec.layout (slotOff t)
  headers : ∀ o ∈ cs, st₃.mem.Encoded ChunkHdr.layout o.toNat

theorem compactFix_writes {w : Word32} (A : Arena st cs) (R : Refs st cs) :
    FixWrites st (compactFix w (compactPlan w st).1) cs := by
  obtain ⟨s, I₁, H₁, hplan⟩ := plan_headerWrites (w := w) A
  have I₂ := fixSlots_spec I₁.arena (I₁.refs R)
  have W₂ := fixSlots_writes (slots s.st) (slots_nodup s.st) s.st
  set st₂ := (slots s.st).foldl fixSlot s.st with hst₂
  have hused : ∀ t, Used st t ↔ t ∈ slots s.st ∧ (getSlot s.st t).state ≠ .free := by
    intro t
    rw [mem_slots, I₁.frame.slotCount]
    constructor
    · rintro ⟨ht, hstate⟩
      exact ⟨ht, by rwa [I₁.slots t ht]⟩
    · rintro ⟨ht, hstate⟩
      exact ⟨ht, by rwa [I₁.slots t ht] at hstate⟩
  have hrefs₂ : ∀ o ∈ cs, (getChunk st₂ o).fwd ≠ none32 →
      (getChunk st₂ o).next = none32 ∨ (getChunk st₂ o).next ∈ cs := by
    intro o ho hfwd
    rw [I₂.headers o ho] at hfwd ⊢
    exact I₁.links R ho hfwd
  have htable : ∀ t, Used st t → slotOff t + sizeofSpanRec ≤ st.dataLow.toNat :=
    fun t ht => (slotOff_lt_tableEnd ht.1).trans A.table_le
  -- The slot loop leaves the chunks alone, so the headers of the plan are still encoded.
  have hencoded₂ : ∀ o ∈ cs, st₂.mem.Encoded ChunkHdr.layout o.toNat := by
    intro o ho
    refine (H₁.encoded o ho).congr (Mem.AgreeOn.read ?_)
    intro a hlow _
    refine W₂.outside a ?_
    intro t ht hstate
    have hbound := htable t ((hused t).mpr ⟨ht, hstate⟩)
    have habove := (A.tiles.mem_bounds ho).1
    rintro ⟨-, hlt⟩
    omega
  have H₃ := fixChunks_headerWrites (w := w) I₂.arena hrefs₂ hencoded₂
  have hlow₂ : st₂.dataLow = st.dataLow := by rw [I₂.frame.dataLow, I₁.frame.dataLow]
  have hpersist₂ : st₂.persistOff = st.persistOff := by
    rw [I₂.frame.persistOff, I₁.frame.persistOff]
  have hfix : compactFix w (compactPlan w st).1 =
      (whileLoop (fun s => decide (s.2 < st₂.persistOff)) (fixStep w)
        st₂.bufSize.toNat (st₂, st₂.dataLow)).1 := by
    rw [hplan]
    rfl
  rw [hfix]
  constructor
  · intro a ha hslot
    have hchunks : a < st₂.dataLow.toNat ∨ st₂.persistOff.toNat ≤ a := by
      rw [hlow₂, hpersist₂]
      exact ha
    rw [H₃.outside a hchunks, W₂.outside a, H₁.outside a ha]
    intro t ht hstate
    exact hslot t ((hused t).mpr ⟨ht, hstate⟩)
  · intro t ht
    obtain ⟨hmem, hstate⟩ := (hused t).mp ht
    refine (W₂.encoded t hmem hstate).congr (Mem.AgreeOn.read ?_)
    intro a hlow hhigh
    rw [SpanRec.layout_size] at hhigh
    refine H₃.outside a (.inl ?_)
    have hbound := htable t ht
    rw [hlow₂]
    omega
  · exact H₃.encoded

end Microtel.Leaf
