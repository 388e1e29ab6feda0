import Microtel.Leaf.SlotTable

/-!
Starting a span: `start_span`, `microtel_leaf_span_start` and its remote form.
A start that fails has at most grown the table by one free slot and compacted;
trimming gives the slot back.
-/

namespace Microtel.Leaf

open ByteMemory Loop LinkedList

section

variable {st : LeafState} {S : Store} {cs : List UInt32} {ch : UInt16 → List UInt32}
  {w ω : Word32} {s : UInt16}

/-! ### A new span -/

/-- A record with an empty list put into a free slot. -/
theorem Heap.useSlot {loose : List UInt32} (H : Heap st cs ch loose) (C : Clean st ch)
    (hs : s < st.slotCount) (hfree : (getSlot st s).state = .free) {r : SpanRec}
    (hhead : r.head = none32) (htail : r.tail = none32) :
    Heap (putSlot st s r) cs ch loose ∧ Clean (putSlot st s r) ch := by
  have hempty : ch s = [] := C s fun h => h.2 hfree
  have hslot : ∀ t, Used (putSlot st s r) t → t = s ∨ Used st t := by
    rintro t ⟨ht, hused⟩
    by_cases hts : t = s
    · exact Or.inl hts
    · rw [getSlot_putSlot_of_ne _ _ hts] at hused
      exact Or.inr ⟨ht, hused⟩
  have hlists : ∀ t, Used (putSlot st s r) t →
      IsList (nextOf st) none32 (getSlot (putSlot st s r) t).head (ch t) ∧
        (getSlot (putSlot st s r) t).tail = last none32 (ch t) := by
    intro t ht
    rw [getSlot_putSlot]
    rcases hslot t ht with rfl | hused
    · rw [if_pos rfl, hhead, htail, hempty]
      exact ⟨rfl, rfl⟩
    · have hne : t ≠ s := by
        rintro rfl
        exact hused.2 hfree
      rw [if_neg hne]
      exact ⟨H.list t hused, H.tail t hused⟩
  refine ⟨⟨H.arena.putSlot hs r, ?_, ?_, ?_⟩, ?_⟩
  · intro t ht
    refine (hlists t ht).1.congr fun o ho => ?_
    exact H.arena.putSlot_next hs r (H.mem_cs ho)
  · intro t ht
    exact (hlists t ht).2
  · intro t o
    rw [H.mem]
    unfold Owns
    constructor
    · rintro ⟨⟨ho, hkind, howner⟩, hnot⟩
      rw [H.arena.getChunk_putSlot hs ho]
      exact ⟨⟨ho, hkind, howner⟩, hnot⟩
    · rintro ⟨⟨ho, hkind, howner⟩, hnot⟩
      rw [H.arena.getChunk_putSlot hs ho] at hkind howner
      exact ⟨⟨ho, hkind, howner⟩, hnot⟩
  · intro t ht
    by_cases hts : t = s
    · rw [hts]
      exact hempty
    · refine C t fun h => ht ⟨h.1, ?_⟩
      rw [getSlot_putSlot_of_ne _ _ hts]
      exact h.2

/-- The record `start_span` writes. -/
def startRec (ids : SpanIds) (kind : SpanKind) (traceId : TraceId) (spanId : SpanId) (gen : UInt16)
    (start : UInt64) : SpanRec :=
  { SpanRec.zero with
    traceId, spanId
    hasParent := ids.parentId.isSome
    parentSpanId := ids.parentId.getD (Vector.replicate 8 0)
    head := none32
    tail := none32
    gen
    nextEnded := none16
    state := .opened
    kind := kind.code
    start }

/-- The new record in its slot, with the name chunk linked if there is one. -/
def openSlot (st : LeafState) (slot : UInt16) (r : SpanRec) (nameOff : UInt32) : LeafState :=
  if nameOff ≠ none32 then linkChunk (putSlot st slot r) slot nameOff else putSlot st slot r

/-- The state after the ids of a span have been drawn. -/
def LeafState.withIds (st : LeafState) (v : LeafVars) : LeafState :=
  { st with toLeafVars := v, nextGen := nextGeneration st.nextGen }

theorem openSlot_withIds (st : LeafState) (slot : UInt16) (r : SpanRec) (nameOff : UInt32)
    (v : LeafVars) :
    openSlot (st.withIds v) slot r nameOff = (openSlot st slot r nameOff).withIds v := by
  have hputSlot : ∀ (st : LeafState) (s : UInt16) (r : SpanRec),
      putSlot (st.withIds v) s r = (putSlot st s r).withIds v := fun _ _ _ => rfl
  have hputChunk : ∀ (st : LeafState) (o : UInt32) (hdr : ChunkHdr),
      putChunk (st.withIds v) o hdr = (putChunk st o hdr).withIds v := fun _ _ _ => rfl
  have hgetSlot : ∀ (st : LeafState) (s : UInt16),
      getSlot (st.withIds v) s = getSlot st s := fun _ _ => rfl
  have hgetChunk : ∀ (st : LeafState) (o : UInt32),
      getChunk (st.withIds v) o = getChunk st o := fun _ _ => rfl
  unfold openSlot
  by_cases hname : nameOff ≠ none32
  · rw [if_pos hname, if_pos hname]
    unfold linkChunk
    simp only [hputSlot, hgetSlot]
    by_cases hhead : (getSlot (putSlot st slot r) slot).head = none32
    · rw [if_pos hhead, if_pos hhead]
    · rw [if_neg hhead, if_neg hhead]
      simp only [hgetChunk, hputChunk, hputSlot]
  · rw [if_neg hname, if_neg hname, hputSlot]

theorem Rep.withIds (R : Rep st S cs ch) (v : LeafVars) :
    Rep (st.withIds v) { S with toLeafVars := v, nextGen := nextGeneration S.nextGen } cs ch := by
  have A : Arena (st.withIds v) cs :=
    ⟨R.heap.arena.bufSize_le, R.heap.arena.persist_le, R.heap.arena.table_le,
      R.heap.arena.tiles.congr fun _ _ => rfl, R.heap.arena.high_le⟩
  have H : Heap (st.withIds v) cs ch [] :=
    R.heap.congr A rfl (fun _ _ => ⟨Iff.rfl, rfl, rfl⟩) fun _ _ => ⟨rfl, rfl, rfl⟩
  have P : Persistent (st.withIds v) S.resource S.scopeName S.scopeVersion :=
    R.persistent.congr ⟨rfl, rfl, rfl, rfl, rfl, rfl, rfl, rfl⟩ fun _ => Mem.AgreeOn.refl _ _ _
  have hgen : nextGeneration st.nextGen = nextGeneration S.nextGen := by rw [R.nextGen]
  exact ⟨H, R.clean, fun t ht e he => ⟨(R.held t ht e he).body, (R.held t ht e he).cells⟩, R.free,
    R.endedList, R.endedTail, R.endedCount, P, R.magic, R.params, rfl, hgen, R.count, R.capacity⟩

/-- The relation after a free slot has taken a new span without a name. -/
theorem Rep.useSlot {e : Entry} {r : SpanRec} (R : Rep st S cs ch)
    (hended : ∀ t ∈ S.ended, t < st.slotCount ∧ t ≠ s) (hs : s < st.slotCount)
    (hnone : S.entry s = none) (hr : r = e.toRec none32 none32 r.nextEnded)
    (hcells : e.cells = []) : Rep (putSlot st s r) (S.put s e) cs ch := by
  have hfree := R.free s hs hnone
  have hempty : ch s = [] := R.clean s fun h => h.2 hfree
  obtain ⟨H, C⟩ := R.heap.useSlot R.clean hs hfree (r := r) (by rw [hr]; rfl) (by rw [hr]; rfl)
  have F := R.heap.arena.heapFrame_putSlot hs r
  refine R.put hs rfl F.persist H C (fun t ht => (hended t ht).1) ?_ ?_ ?_ ?_
  · intro t _ hne
    rw [getSlot_putSlot_of_ne _ _ hne]
    refine ⟨rfl, fun _ => ?_⟩
    apply List.map_congr_left
    intro x hx
    exact F.core x (R.heap.mem_cs hx)
  · rw [getSlot_putSlot_self]
    conv_lhs => rw [hr]
    rfl
  · intro hmem
    exact absurd rfl (hended s hmem).2
  · rw [hempty, hcells]
    exact List.Forall₂.nil

/-- The relation after a free slot has taken a new span with its name. -/
theorem Rep.useSlotNamed {e : Entry} {r : SpanRec} (R : Rep st S cs ch) (item : Item)
    (hended : ∀ t ∈ S.ended, t < st.slotCount ∧ t ≠ s) (hs : s < st.slotCount)
    (hnone : S.entry s = none) (hr : r = e.toRec none32 none32 r.nextEnded)
    (hcells : e.cells = [⟨item, item.bytes.length⟩])
    (hroom : sizeofChunkHdr + item.bytes.length ≤ S.room) :
    let a := allocChunk w st s item.kind item.bytes.length
    ∃ cs' ch', Rep (linkChunk (putSlot (a.1.poke (chunkPayload a.2) item.bytes) s r) s a.2)
      (S.put s e) cs' ch' := by
  obtain ⟨cs₁, ch₁, F⟩ := R.fill (w := w) s item hroom
  dsimp only
  generalize (allocChunk w st s item.kind item.bytes.length).1.poke
    (chunkPayload (allocChunk w st s item.kind item.bytes.length).2) item.bytes = st₁ at F ⊢
  generalize (allocChunk w st s item.kind item.bytes.length).2 = o at F ⊢
  have hs₁ : s < st₁.slotCount := by rw [F.slotCount]; exact hs
  have hfree : (getSlot st s).state = .free := R.free s hs hnone
  have hfree₁ : (getSlot st₁ s).state = .free := by rw [F.state hs]; exact hfree
  have hstate : r.state ≠ .free := by
    rw [hr]
    simp only [Entry.toRec]
    split <;> simp
  have hempty : ch₁ s = [] := F.clean s fun h => h.2 hfree₁
  obtain ⟨H, C⟩ := F.heap.useSlot F.clean hs₁ hfree₁ (r := r) (by rw [hr]; rfl) (by rw [hr]; rfl)
  have G := F.heap.arena.heapFrame_putSlot hs₁ r
  have hused : Used (putSlot st₁ s r) s := by
    refine ⟨hs₁, ?_⟩
    rw [getSlot_putSlot_self]
    exact hstate
  have P : Pending (putSlot st₁ s r) ch₁ cs₁ o s item := by
    have hhdr := F.heap.arena.getChunk_putSlot hs₁ F.owns.1 r
    refine ⟨H, C, ⟨F.owns.1, ?_, ?_⟩, ?_, ?_⟩
    · rw [hhdr]
      exact F.owns.2.1
    · rw [hhdr]
      exact F.owns.2.2
    · rw [F.heap.arena.putSlot_next hs₁ r F.owns.1]
      exact F.next
    · rw [G.core o F.owns.1]
      exact F.holds
  have hnil : List.Forall₂ Holds ((ch₁ s).map (coreAt (putSlot st₁ s r))) [] := by
    rw [hempty]
    exact List.Forall₂.nil
  obtain ⟨ch₂, L⟩ := P.link hused hnil
  refine ⟨cs₁, ch₂, R.put hs ?_ ?_ L.heap L.clean (fun t ht => (hended t ht).1) ?_ ?_ ?_ ?_⟩
  · rw [L.scalars]
    have h := F.scalars
    rw [h]
    rfl
  · intro b
    have h1 := L.persist b
    have h2 := G.persist b
    have h3 := F.persist b
    have h4 : (putSlot st₁ s r).persistOff = st.persistOff := F.persistOff
    rw [h4] at h1
    rw [F.persistOff] at h2
    exact (h1.trans h2).trans h3
  · intro t ht hne
    have ht₁ : t < (putSlot st₁ s r).slotCount := by
      change t < st₁.slotCount
      rw [F.slotCount]
      exact ht
    have hbody := L.body t ht₁
    rw [getSlot_putSlot_of_ne _ _ hne] at hbody
    refine ⟨hbody.trans (F.body t ht), fun hu => ?_⟩
    have hu₁ : Used (putSlot st₁ s r) t := by
      refine ⟨ht₁, ?_⟩
      rw [getSlot_putSlot_of_ne _ _ hne]
      exact ((F.used_iff t).mpr hu).2
    rw [L.others t hu₁ hne, ← F.contents t hu]
    apply List.map_congr_left
    intro x hx
    exact G.core x (F.heap.mem_cs hx)
  · have hbody := L.body s hs₁
    rw [getSlot_putSlot_self] at hbody
    have hnext := SpanRec.nextEnded_of_body hbody
    rw [hbody, hnext]
    conv_lhs => rw [hr]
    rfl
  · intro hmem
    exact absurd rfl (hended s hmem).2
  · rw [hcells]
    exact L.cells

/-- What a call that starts a span returns refines what the store returns. -/
def RefinesStart (r : Option (LeafState × Outcome)) (r' : Option (Store × Outcome)) : Prop :=
  Option.Rel (fun p p' => p.2 = p'.2 ∧ ∃ cs ch, Rep p.1 p'.1 cs ch) r r'

/-- The name chunk of a new span. -/
def allocName (w : Word32) (st : LeafState) (slot : UInt16) (name : Slice UInt8) :
    LeafState × UInt32 :=
  if slot ≠ none16 ∧ 0 < name.len then allocString w st slot .name name else (st, none32)

theorem startSpan_drawn (w : Word32) (st : LeafState) (env : Callbacks) (name : Slice UInt8)
    (kind : SpanKind) (ids : SpanIds) :
    startSpan w st env name kind ids =
      let a := acquireSlot w st
      let n := allocName w a.1 a.2 name
      if a.2 = none16 ∨ (0 < name.len ∧ n.2 = none32) then
        some (countDroppedSpan (trimSlots n.1), .of .errNoSpace)
      else
        match drawIds n.1.toLeafVars ids env.random with
        | none => none
        | some (traceId, spanId, vars) =>
            some (openSlot (n.1.withIds vars) a.2
              (startRec ids kind traceId spanId n.1.nextGen (readClock n.1.toLeafParams env)) n.2,
              ⟨.ok, some (mkHandle n.1.nextGen a.2)⟩) := by
  unfold startSpan
  dsimp only
  generalize acquireSlot w st = a
  rfl

theorem startSpan_eq (w : Word32) (st : LeafState) (env : Callbacks) (name : Slice UInt8)
    (kind : SpanKind) (ids : SpanIds) :
    startSpan w st env name kind ids =
      let a := acquireSlot w st
      let n := allocName w a.1 a.2 name
      if a.2 = none16 ∨ (0 < name.len ∧ n.2 = none32) then
        some (countDroppedSpan (trimSlots n.1), .of .errNoSpace)
      else
        (drawIds n.1.toLeafVars ids env.random).map fun (traceId, spanId, vars) =>
          ((openSlot n.1 a.2 (startRec ids kind traceId spanId n.1.nextGen
                (readClock n.1.toLeafParams env)) n.2).withIds vars,
            ⟨.ok, some (mkHandle n.1.nextGen a.2)⟩) := by
  rw [startSpan_drawn]
  dsimp only
  generalize acquireSlot w st = a
  generalize allocName w a.1 a.2 name = n
  split
  · rfl
  · cases drawIds n.1.toLeafVars ids env.random with
    | none => rfl
    | some p =>
        obtain ⟨traceId, spanId, vars⟩ := p
        dsimp only
        rw [openSlot_withIds]
        rfl

theorem Store.newEntry_toRec (S : Store) (env : Callbacks) (name : Slice UInt8) (kind : SpanKind)
    (ids : SpanIds) (traceId : TraceId) (spanId : SpanId) :
    (S.newEntry env name kind traceId spanId ids.parentId).toRec none32 none32 none16 =
      startRec ids kind traceId spanId S.nextGen (readClock S.toLeafParams env) := by
  have hattrs : (S.newEntry env name kind traceId spanId ids.parentId).attrs = [] := by
    unfold Entry.attrs Store.newEntry
    split <;> rfl
  have hevents : (S.newEntry env name kind traceId spanId ids.parentId).events = [] := by
    unfold Entry.events Store.newEntry
    split <;> rfl
  unfold Entry.toRec
  rw [hattrs, hevents]
  rfl

/-- The table of a failed start is trimmed back to what it was. -/
theorem Store.Valid.trimCount_grown (V : S.Valid) (hs : s ≠ none16) :
    Store.trimCount S.entry (S.grown s).count.toNat = S.count := by
  unfold Store.grown
  dsimp only
  split
  · next h =>
    rw [h] at hs
    rw [Store.count_succ hs]
    simp only [Store.trimCount, UInt16.ofNat_toNat, Store.entry_count V, Option.isSome_none,
      Bool.false_eq_true, if_false]
    exact V.trimCount
  · exact V.trimCount

theorem Rep.dropSpan (R : Rep st S cs ch) : Rep (countDroppedSpan st) S.dropSpan cs ch :=
  R.mapCounters fun c => { c with droppedSpans := c.droppedSpans + 1 }

theorem Rep.failStart (R : Rep st (S.grown s) cs ch) (V : S.Valid) (hs : s ≠ none16) :
    Rep (countDroppedSpan (Leaf.trimSlots st)) S.dropSpan cs ch := by
  have hended : ∀ t ∈ (S.grown s).ended, t < st.slotCount ∧ ((S.grown s).entry t).isSome := by
    intro t ht
    obtain ⟨e, he, -⟩ := (V.ended_iff t).mp ht
    have hlt := V.bound t e he
    have hsome : (S.entry t).isSome := by rw [he]; rfl
    refine ⟨?_, hsome⟩
    rw [R.count]
    unfold Store.grown
    dsimp only
    split
    · next h =>
      rw [h] at hs
      have hlt' := UInt16.lt_iff_toNat_lt.mp hlt
      rw [UInt16.lt_iff_toNat_lt, Store.count_succ hs]
      omega
    · exact hlt
  obtain ⟨-, R'⟩ := R.trimSlots hended
  have hcount : Store.trimCount (S.grown s).entry (S.grown s).count.toNat = S.count :=
    V.trimCount_grown hs
  rw [hcount] at R'
  exact R'.dropSpan

theorem Store.nameBytes_pos {len : Nat} (h : 0 < len) :
    Store.nameBytes len = sizeofChunkHdr + len := by
  unfold Store.nameBytes
  rw [if_neg (by omega)]

theorem allocName_empty {name : Slice UInt8} (hlen : ¬ 0 < name.len) :
    allocName w st s name = (st, none32) := by
  unfold allocName
  rw [if_neg fun h => hlen h.2]

theorem allocName_eq {name : Slice UInt8} (R : Rep st S cs ch) (hs : s < st.slotCount)
    (hlen : 0 < name.len) (hroom : sizeofChunkHdr + name.len ≤ S.room) :
    allocName w st s name =
      ((allocChunk w st s .name name.len).1.poke
        (chunkPayload (allocChunk w st s .name name.len).2) name.data,
        (allocChunk w st s .name name.len).2) := by
  unfold allocName
  rw [if_pos ⟨slot_ne_none hs, hlen⟩, allocString_eq R hlen .name hroom]

/-- With room for the name its chunk is allocated, and nothing else changes. -/
theorem Rep.allocName_ok {name : Slice UInt8} (R : Rep st S cs ch) (hs : s < st.slotCount)
    (hname : name.readable = true) (hroom : Store.nameBytes name.len ≤ S.room) :
    ¬ (0 < name.len ∧ (allocName w st s name).2 = none32) ∧ Keeps st (allocName w st s name).1 := by
  by_cases hlen : 0 < name.len
  · rw [Store.nameBytes_pos hlen] at hroom
    have hdata := Slice.data_length_of_readable hname
    have hne := R.alloc_ne_none (w := w) s .name hroom
    obtain ⟨cs₁, ch₁, F⟩ := R.fill (w := w) s (.name name.data)
      (by simpa [Item.bytes, hdata] using hroom)
    have hK := F.toKeeps
    simp only [Item.kind, Item.bytes, hdata] at hK
    rw [allocName_eq R hs hlen hroom]
    exact ⟨fun h => hne h.2, hK⟩
  · rw [allocName_empty hlen]
    exact ⟨fun h => hlen h.1, Keeps.refl st⟩

/-- The relation after the record of a new span has been written, with room for
its name. -/
theorem Rep.openSlot {e : Entry} {r : SpanRec} {name : Slice UInt8} (R : Rep st S cs ch)
    (hended : ∀ t ∈ S.ended, t < st.slotCount ∧ t ≠ s) (hs : s < st.slotCount)
    (hnone : S.entry s = none) (hname : name.readable = true)
    (hroom : Store.nameBytes name.len ≤ S.room) (hr : r = e.toRec none32 none32 r.nextEnded)
    (hcells : e.cells = if name.len = 0 then [] else [⟨.name name.data, name.len⟩]) :
    ∃ cs' ch', Rep (openSlot (allocName w st s name).1 s r (allocName w st s name).2)
      (S.put s e) cs' ch' := by
  by_cases hlen : 0 < name.len
  · rw [Store.nameBytes_pos hlen] at hroom
    have hdata := Slice.data_length_of_readable hname
    have hne := R.alloc_ne_none (w := w) s .name hroom
    obtain ⟨cs', ch', R'⟩ := R.useSlotNamed (w := w) (.name name.data) hended hs hnone hr
      (by rw [hcells, if_neg (by omega)]; simp [Item.bytes, hdata])
      (by simpa [Item.bytes, hdata] using hroom)
    simp only [Item.kind, Item.bytes, hdata] at R'
    rw [allocName_eq R hs hlen hroom]
    refine ⟨cs', ch', ?_⟩
    unfold Leaf.openSlot
    rw [if_pos hne]
    exact R'
  · rw [allocName_empty hlen]
    refine ⟨cs, ch, ?_⟩
    unfold Leaf.openSlot
    rw [if_neg (by simp)]
    exact R.useSlot hended hs hnone hr (by rw [hcells, if_pos (by omega)])

/-- Without room for the name the store is what it was. -/
theorem Rep.allocName_fail {name : Slice UInt8} (R : Rep st S cs ch)
    (hended : ∀ t ∈ S.ended, t < st.slotCount) (hs : s < st.slotCount)
    (hroom : ¬ Store.nameBytes name.len ≤ S.room) :
    (0 < name.len ∧ (allocName w st s name).2 = none32) ∧
      ∃ cs' ch', Rep (allocName w st s name).1 S cs' ch' := by
  have hlen : 0 < name.len := by
    by_contra h
    have hzero : name.len = 0 := by omega
    simp [Store.nameBytes, hzero] at hroom
  rw [Store.nameBytes_pos hlen] at hroom
  obtain ⟨hnone, cs', ch', R'⟩ := R.alloc_fail (w := w) hended s .name hroom
  have halloc : allocName w st s name = ((allocChunk w st s .name name.len).1, none32) := by
    unfold allocName
    rw [if_pos ⟨slot_ne_none hs, hlen⟩]
    simp [allocString, hnone]
  rw [halloc]
  exact ⟨⟨hlen, rfl⟩, cs', ch', R'⟩

/-- `start_span`. -/
theorem Rep.startSpan (R : Rep st S cs ch) (V : S.Valid) (env : Callbacks) {name : Slice UInt8}
    (hname : name.readable = true) (kind : SpanKind) (ids : SpanIds) :
    RefinesStart (startSpan w st env name kind ids) (S.startSpan env name kind ids) := by
  have hplace := Store.place_eq V R.usedBytes_le name.len
  obtain ⟨hacq, -⟩ := R.acquireSlot (w := w) (ω := w) V
  rw [startSpan_eq]
  unfold Store.startSpan
  rw [hplace]
  dsimp only
  cases hslot : S.acquire with
  | none =>
      rw [hslot] at hacq
      obtain ⟨hnone, cs₁, ch₁, R₁⟩ := hacq
      dsimp only
      rw [if_pos (Or.inl hnone)]
      have halloc : allocName w (Leaf.acquireSlot w st).1 (Leaf.acquireSlot w st).2 name =
          ((Leaf.acquireSlot w st).1, none32) := by
        unfold allocName
        rw [if_neg fun h => h.1 hnone]
      rw [halloc]
      have hended : ∀ t ∈ S.ended, t < (Leaf.acquireSlot w st).1.slotCount ∧
          (S.entry t).isSome := by
        intro t ht
        obtain ⟨e, he, -⟩ := (V.ended_iff t).mp ht
        exact ⟨R₁.ended_lt V t ht, by rw [he]; rfl⟩
      obtain ⟨-, R₂⟩ := R₁.trimSlots hended
      rw [V.trimCount] at R₂
      exact Option.Rel.some ⟨rfl, cs₁, ch₁, R₂.dropSpan⟩
  | some slot =>
      rw [hslot] at hacq
      obtain ⟨rfl, hne, hlt, hnone, cs₁, ch₁, R₁⟩ := hacq
      dsimp only
      generalize Leaf.acquireSlot w st = a at *
      obtain ⟨st₁, slot⟩ := a
      dsimp only at *
      have hended : ∀ t ∈ (S.grown slot).ended, t < st₁.slotCount ∧ t ≠ slot := by
        intro t ht
        obtain ⟨e, he, -⟩ := (V.ended_iff t).mp ht
        have htne : t ≠ slot := by
          rintro rfl
          rw [hnone] at he
          simp at he
        refine ⟨?_, htne⟩
        have hb := UInt16.lt_iff_toNat_lt.mp (V.bound t e he)
        rw [R₁.count, UInt16.lt_iff_toNat_lt]
        unfold Store.grown
        dsimp only
        split
        · next h =>
          rw [h] at hne
          rw [Store.count_succ hne]
          omega
        · exact hb
      by_cases hroom : Store.nameBytes name.len ≤ (S.grown slot).room
      · rw [if_pos hroom]
        obtain ⟨hok, K⟩ := R₁.allocName_ok (w := w) hlt hname hroom
        rw [if_neg (by rintro (h | h); exacts [hne h, hok h])]
        have hvars : (allocName w st₁ slot name).1.toLeafVars = S.toLeafVars := by
          rw [K.scalars]
          exact R₁.vars
        have hparams : (allocName w st₁ slot name).1.toLeafParams = S.toLeafParams := by
          rw [K.scalars]
          exact R₁.params
        have hgen : (allocName w st₁ slot name).1.nextGen = S.nextGen := by
          rw [K.scalars]
          exact R₁.nextGen
        rw [hvars, hparams, hgen]
        cases drawIds S.toLeafVars ids env.random with
        | none => exact Option.Rel.none
        | some p =>
            obtain ⟨traceId, spanId, vars⟩ := p
            have hrec := S.newEntry_toRec env name kind ids traceId spanId
            obtain ⟨cs₂, ch₂, R₂⟩ := R₁.openSlot (w := w)
              (e := S.newEntry env name kind traceId spanId ids.parentId) hended hlt
                hnone hname hroom
              hrec.symm rfl
            exact Option.Rel.some ⟨rfl, cs₂, ch₂, R₂.withIds vars⟩
      · rw [if_neg hroom]
        obtain ⟨hfail, cs₂, ch₂, R₂⟩ := R₁.allocName_fail (w := w) (fun t ht => (hended t ht).1) hlt
          hroom
        rw [if_pos (Or.inr hfail)]
        exact Option.Rel.some ⟨rfl, cs₂, ch₂, R₂.failStart V hne⟩

theorem allocName_word (R : Rep st S cs ch) (name : Slice UInt8) :
    allocName w st s name = allocName ω st s name := by
  have halloc := allocChunk_word (w := w) (ω := ω) R.heap R.clean s .name name.len
  simp only [allocName, allocString, halloc]

theorem startSpan_word (R : Rep st S cs ch) (V : S.Valid) (env : Callbacks) (name : Slice UInt8)
    (kind : SpanKind) (ids : SpanIds) :
    startSpan w st env name kind ids = startSpan ω st env name kind ids := by
  obtain ⟨hacq, hword⟩ := R.acquireSlot (w := w) (ω := ω) V
  have hname : allocName w (acquireSlot w st).1 (acquireSlot w st).2 name =
      allocName ω (acquireSlot w st).1 (acquireSlot w st).2 name := by
    cases hslot : S.acquire with
    | none =>
        rw [hslot] at hacq
        obtain ⟨-, cs₁, ch₁, R₁⟩ := hacq
        exact allocName_word R₁ name
    | some slot =>
        rw [hslot] at hacq
        obtain ⟨-, -, -, -, cs₁, ch₁, R₁⟩ := hacq
        exact allocName_word R₁ name
  rw [startSpan_eq, startSpan_eq, ← hword]
  dsimp only
  rw [hname]

/-! ### The calls that start a span -/

theorem startArgsValid_name {outNull : Bool} {name : Slice UInt8} {kind : Option SpanKind}
    {k : SpanKind} (h : startArgsValid outNull name kind = some k) : name.readable = true := by
  unfold startArgsValid at h
  by_contra hread
  simp [hread] at h

theorem RefinesStart.same (R : Rep st S cs ch) (o : Outcome) :
    RefinesStart (some (st, o)) (some (S, o)) :=
  Option.Rel.some ⟨rfl, cs, ch, R⟩

/-- `microtel_leaf_span_start`. -/
theorem Rep.spanStart (R : Rep st S cs ch) (V : S.Valid) (env : Callbacks) (outNull : Bool)
    (name : Slice UInt8) (kind : Option SpanKind) (parent : Option Handle) :
    RefinesStart (spanStart w st env outNull name kind parent)
        (S.spanStart env outNull name kind parent) ∧
      Leaf.spanStart w st env outNull name kind parent =
        Leaf.spanStart ω st env outNull name kind parent := by
  have hlive : ¬ Leaf.checkLeaf st ≠ .ok := by simp [R.checkLeaf]
  unfold Leaf.spanStart Store.spanStart
  rw [if_neg hlive, if_neg hlive]
  cases hargs : startArgsValid outNull name kind with
  | none => exact ⟨RefinesStart.same R _, rfl⟩
  | some kind =>
      have hname := startArgsValid_name hargs
      cases parent with
      | none => exact ⟨R.startSpan V env hname kind _, startSpan_word R V env name kind _⟩
      | some handle =>
          dsimp only
          rw [R.resolve]
          cases hres : S.resolve handle with
          | none => exact ⟨RefinesStart.same R _, rfl⟩
          | some p =>
              obtain ⟨s, e⟩ := p
              obtain ⟨he, hlt, -, -⟩ := Store.resolve_spec hres
              have hheld := R.held s (by rw [R.count]; exact hlt) e he
              have htrace : (getSlot st s).traceId = e.traceId :=
                hheld.field SpanRec.traceId fun _ => rfl
              have hspan : (getSlot st s).spanId = e.spanId :=
                hheld.field SpanRec.spanId fun _ => rfl
              simp only [Option.map_some, htrace, hspan]
              exact ⟨R.startSpan V env hname kind _, startSpan_word R V env name kind _⟩

/-- `microtel_leaf_span_start_remote`. -/
theorem Rep.spanStartRemote (R : Rep st S cs ch) (V : S.Valid) (env : Callbacks) (outNull : Bool)
    (name : Slice UInt8) (kind : Option SpanKind) (traceId : Option TraceId)
    (parentSpanId : Option SpanId) :
    RefinesStart (spanStartRemote w st env outNull name kind traceId parentSpanId)
        (S.spanStartRemote env outNull name kind traceId parentSpanId) ∧
      Leaf.spanStartRemote w st env outNull name kind traceId parentSpanId =
        Leaf.spanStartRemote ω st env outNull name kind traceId parentSpanId := by
  have hlive : ¬ Leaf.checkLeaf st ≠ .ok := by simp [R.checkLeaf]
  unfold Leaf.spanStartRemote Store.spanStartRemote
  rw [if_neg hlive, if_neg hlive]
  cases hargs : startArgsValid outNull name kind with
  | none => exact ⟨RefinesStart.same R _, rfl⟩
  | some kind =>
      have hname := startArgsValid_name hargs
      cases traceId with
      | none => exact ⟨RefinesStart.same R _, rfl⟩
      | some traceId =>
          cases parentSpanId with
          | none => exact ⟨RefinesStart.same R _, rfl⟩
          | some parentId =>
              dsimp only
              by_cases hzero : (allZero traceId.toList || allZero parentId.toList) = true
              · rw [if_pos hzero, if_pos hzero, if_pos hzero]
                exact ⟨RefinesStart.same R _, rfl⟩
              · rw [if_neg hzero, if_neg hzero, if_neg hzero]
                exact ⟨R.startSpan V env hname kind _, startSpan_word R V env name kind _⟩

end

end Microtel.Leaf
