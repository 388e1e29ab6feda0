import Microtel.Leaf.Refine

/-!
The span mutators refine the store's: `microtel_leaf_span_set_attribute`,
`_add_event`, `_set_status`, `_span_end` and `microtel_leaf_clock_sync`. Each
comes with the fact that its result does not depend on the `Word32`, that is,
no offset or size it computes leaves 32 bits.
-/

namespace Microtel.Leaf

open ByteMemory Loop LinkedList

/-- A status and a buffer that represents the store beside it. -/
def Refines (r : LeafState × Status) (r' : Store × Status) : Prop :=
  r.2 = r'.2 ∧ ∃ cs ch, Rep r.1 r'.1 cs ch

section

variable {st : LeafState} {S : Store} {cs : List UInt32} {ch : UInt16 → List UInt32}
  {w ω : Word32} {s : UInt16} {e : Entry} {kv : Kv}

theorem Rep.ended_lt (R : Rep st S cs ch) (V : S.Valid) : ∀ t ∈ S.ended, t < st.slotCount := by
  intro t ht
  obtain ⟨e, he, -⟩ := (V.ended_iff t).mp ht
  rw [R.count]
  exact V.bound t e he

/-- A change of the drop counters. -/
theorem Rep.mapCounters (R : Rep st S cs ch) (f : Counters → Counters) :
    Rep { st with counters := f st.counters } { S with counters := f S.counters } cs ch := by
  have hst : ({ st with counters := f st.counters } : LeafState) =
      { st with toLeafVars := { S.toLeafVars with counters := f S.counters } } := by
    rw [← R.vars]
  rw [hst]
  exact R.withVars _

/-- `st->dropped_attributes += n`. -/
def addDropped (st : LeafState) (n : UInt32) : LeafState :=
  { st with
    counters := { st.counters with droppedAttributes := st.counters.droppedAttributes + n } }

theorem Rep.dropAttributes (R : Rep st S cs ch) (n : UInt32) :
    Rep (addDropped st n) (S.dropAttributes n) cs ch :=
  R.mapCounters fun c => { c with droppedAttributes := c.droppedAttributes + n }

theorem Rep.dropEvent (R : Rep st S cs ch) : Rep (countDroppedEvent st) S.dropEvent cs ch :=
  R.mapCounters fun c => { c with droppedEvents := c.droppedEvents + 1 }

theorem Rep.attrCount (R : Rep st S cs ch) (V : S.Valid) (hs : s < st.slotCount)
    (he : S.entry s = some e) : (getSlot st s).attrCount.toNat = e.attrs.length := by
  have hle := (V.entries s e he).attrs_le
  have hlt := S.maxAttrs.toNat_lt
  have hfield : (getSlot st s).attrCount = UInt16.ofNat e.attrs.length :=
    (R.held s hs e he).field SpanRec.attrCount fun _ => rfl
  rw [hfield, UInt16.toNat_ofNat', Nat.mod_eq_of_lt (by omega)]

theorem Rep.eventCount (R : Rep st S cs ch) (V : S.Valid) (hs : s < st.slotCount)
    (he : S.entry s = some e) : (getSlot st s).eventCount.toNat = e.events.length := by
  have hle := (V.entries s e he).events_le
  have hlt := S.maxEvents.toNat_lt
  have hfield : (getSlot st s).eventCount = UInt16.ofNat e.events.length :=
    (R.held s hs e he).field SpanRec.eventCount fun _ => rfl
  rw [hfield, UInt16.toNat_ofNat', Nat.mod_eq_of_lt (by omega)]

/-! ### Changing one span -/

/-- The list of slot `s` has been changed: the span has other cells, and as
many attributes and events. -/
theorem Rep.relisted {st' : LeafState} {cs' : List UInt32} {ch' : UInt16 → List UInt32}
    {cells : List Cell} (R : Rep st S cs ch) (V : S.Valid) (hs : s < st.slotCount)
    (he : S.entry s = some e) (L : Relisted st st' ch cs' ch' [] s cells)
    (hattrs : (pick Item.attr? cells).length = e.attrs.length)
    (hevents : (pick Item.event? cells).length = e.events.length) :
    Rep st' (S.put s { e with cells := cells }) cs' ch' := by
  have hnext := SpanRec.nextEnded_of_body (L.body s hs)
  refine R.put hs L.scalars L.persist L.heap L.clean (R.ended_lt V) ?_ ?_ (fun _ => hnext) L.cells
  · intro t ht hne
    exact ⟨L.body t ht, fun hu => L.others t hu hne⟩
  · rw [L.body s hs, (R.held s hs e he).body, hnext]
    simp only [Entry.toRec]
    rw [← hattrs, ← hevents]
    rfl

/-- The list of slot `s` has been changed and the record is rewritten by `f`. -/
theorem Rep.rewritten {st₂ : LeafState} {cs' : List UInt32} {ch' : UInt16 → List UInt32}
    (R : Rep st S cs ch) (V : S.Valid) (hs : s < st.slotCount) (he : S.entry s = some e)
    (e' : Entry) (L : Relisted st st₂ ch cs' ch' [] s e'.cells) (f : SpanRec → SpanRec)
    (hfree : ∀ r, (f r).state = .free ↔ r.state = .free)
    (hhead : ∀ r, (f r).head = r.head) (htail : ∀ r, (f r).tail = r.tail)
    (hbody : ∀ r, (f r).body = f r.body)
    (hrec : ∀ n, f (e.toRec none32 none32 n) = e'.toRec none32 none32 n) :
    Rep (putSlot st₂ s (f (getSlot st₂ s))) (S.put s e') cs' ch' := by
  have hs₂ : s < st₂.slotCount := by rw [L.slotCount]; exact hs
  obtain ⟨H₃, C₃, hcore, hpersist⟩ := L.heap.putRecord L.clean hs₂ (r := f (getSlot st₂ s))
    (hfree _) (hhead _) (htail _)
  have hsame : ∀ t, (ch' t).map (coreAt (putSlot st₂ s (f (getSlot st₂ s)))) =
      (ch' t).map (coreAt st₂) := by
    intro t
    apply List.map_congr_left
    intro x hx
    exact hcore x (L.heap.mem_cs hx)
  have hbody' : (getSlot (putSlot st₂ s (f (getSlot st₂ s))) s).body =
      e'.toRec none32 none32 (getSlot st s).nextEnded := by
    rw [getSlot_putSlot_self, hbody, L.body s hs, (R.held s hs e he).body, hrec]
  have hnext : (getSlot (putSlot st₂ s (f (getSlot st₂ s))) s).nextEnded =
      (getSlot st s).nextEnded := by
    have hfield := congrArg SpanRec.nextEnded hbody'
    exact hfield
  refine R.put hs ?_ ?_ H₃ C₃ (R.ended_lt V) ?_ (by rw [hbody', hnext]) (fun _ => hnext) ?_
  · rw [L.scalars]
    rfl
  · intro b
    have h := hpersist b
    rw [L.persistOff] at h
    exact h.trans (L.persist b)
  · intro t ht hne
    refine ⟨?_, ?_⟩
    · rw [getSlot_putSlot_of_ne _ _ hne]
      exact L.body t ht
    · intro hu
      rw [hsame, L.others t hu hne]
  · rw [hsame]
    exact L.cells

/-- A chunk is allocated, filled and linked: the span has one more item. -/
theorem Rep.append (R : Rep st S cs ch) (hs : s < st.slotCount) (he : S.entry s = some e)
    (item : Item) (hroom : sizeofChunkHdr + item.bytes.length ≤ S.room) :
    let a := allocChunk w st s item.kind item.bytes.length
    ∃ cs' ch', Relisted st (linkChunk (a.1.poke (chunkPayload a.2) item.bytes) s a.2) ch cs' ch'
      [] s (e.cells ++ [⟨item, item.bytes.length⟩]) := by
  obtain ⟨cs₁, ch₁, F⟩ := R.fill (w := w) s item hroom
  have hused := R.used hs he
  have hcells := (R.held s hs e he).cells
  rw [← F.contents s hused] at hcells
  obtain ⟨ch₂, L⟩ := F.toPending.link ((F.used_iff s).mpr hused) hcells
  exact ⟨cs₁, ch₂, Relisted.of_moved F.toMoved L⟩

/-! ### Attributes -/

/-- `add_attr` with room: the chunk is filled with the attribute's bytes. -/
theorem addAttr_eq (R : Rep st S cs ch) (hvalid : kvValid kv = true)
    (hlimit : ¬ st.maxAttrs ≤ (getSlot st s).attrCount)
    (hroom : sizeofChunkHdr + kv.attr.bytes.length ≤ S.room) :
    let a := allocChunk w st s .attr kv.attr.bytes.length
    let st' := linkChunk (a.1.poke (chunkPayload a.2) kv.attr.bytes) s a.2
    addAttr w st s kv =
      (putSlot st' s { getSlot st' s with attrCount := (getSlot st' s).attrCount + 1 }, .ok) := by
  have hne := R.alloc_ne_none (w := w) s .attr hroom
  have hlt := R.room_lt
  have hpack : ∀ st' dst, packKv w st' dst kv =
      (st'.poke dst kv.attr.bytes, UInt32.ofNat kv.attr.bytes.length) := fun st' dst =>
    packKv_eq hvalid st' dst (by omega)
  simp only [addAttr, if_neg hlimit, kvSize_eq hvalid, if_neg hne, hpack]

theorem addAttr_fail (R : Rep st S cs ch) (V : S.Valid) (hvalid : kvValid kv = true)
    (hlimit : ¬ st.maxAttrs ≤ (getSlot st s).attrCount)
    (hroom : ¬ sizeofChunkHdr + kv.attr.bytes.length ≤ S.room) :
    addAttr w st s kv =
      (countDroppedAttribute (allocChunk w st s .attr kv.attr.bytes.length).1, .errNoSpace) := by
  obtain ⟨hnone, -⟩ := R.alloc_fail (w := w) (R.ended_lt V) s .attr hroom
  simp only [addAttr, if_neg hlimit, kvSize_eq hvalid, hnone, if_true]

theorem Rep.limit_iff (R : Rep st S cs ch) (V : S.Valid) (hs : s < st.slotCount)
    (he : S.entry s = some e) :
    st.maxAttrs ≤ (getSlot st s).attrCount ↔ S.maxAttrs.toNat ≤ e.attrs.length := by
  rw [UInt16.le_iff_toNat_le, R.attrCount V hs he]
  have hmax : st.maxAttrs = S.maxAttrs := congrArg LeafParams.maxAttrs R.params
  rw [hmax]

theorem Rep.addAttr (R : Rep st S cs ch) (V : S.Valid) (hs : s < st.slotCount)
    (he : S.entry s = some e) (hvalid : kvValid kv = true) :
    Refines (addAttr w st s kv)
      (if S.maxAttrs.toNat ≤ e.attrs.length then (S.dropAttributes 1, .errLimit)
        else if sizeofChunkHdr + kv.attr.bytes.length ≤ S.room then
          (S.put s { e with cells := e.cells ++ [⟨.attr kv.attr, kv.attr.bytes.length⟩] }, .ok)
        else (S.dropAttributes 1, .errNoSpace)) := by
  have hiff := R.limit_iff V hs he
  by_cases hlimit : S.maxAttrs.toNat ≤ e.attrs.length
  · rw [if_pos hlimit]
    have hadd : Leaf.addAttr w st s kv = (countDroppedAttribute st, .errLimit) := by
      simp only [Leaf.addAttr, if_pos (hiff.mpr hlimit)]
    rw [hadd]
    exact ⟨rfl, cs, ch, R.dropAttributes 1⟩
  · rw [if_neg hlimit]
    have hlimit' : ¬ st.maxAttrs ≤ (getSlot st s).attrCount := fun h => hlimit (hiff.mp h)
    by_cases hroom : sizeofChunkHdr + kv.attr.bytes.length ≤ S.room
    · rw [if_pos hroom, addAttr_eq R hvalid hlimit' hroom]
      obtain ⟨cs', ch', L⟩ := R.append (w := w) hs he (.attr kv.attr) hroom
      refine ⟨rfl, cs', ch', ?_⟩
      refine R.rewritten V hs he
        ({ e with cells := e.cells ++ [⟨.attr kv.attr, kv.attr.bytes.length⟩] }) L
        (fun r => { r with attrCount := r.attrCount + 1 }) (fun _ => Iff.rfl) (fun _ => rfl)
        (fun _ => rfl) (fun _ => rfl) ?_
      intro n
      simp [Entry.toRec, Entry.attrs, Entry.events, pick_append, pick_cons, Item.attr?,
        Item.event?, UInt16.ofNat_add]
    · rw [if_neg hroom, addAttr_fail R V hvalid hlimit' hroom]
      obtain ⟨-, cs', ch', R'⟩ := R.alloc_fail (w := w) (R.ended_lt V) s .attr hroom
      exact ⟨rfl, cs', ch', R'.dropAttributes 1⟩

theorem addAttr_word (R : Rep st S cs ch) (V : S.Valid) (hvalid : kvValid kv = true) :
    addAttr w st s kv = addAttr ω st s kv := by
  have halloc := allocChunk_word (w := w) (ω := ω) R.heap R.clean s .attr kv.attr.bytes.length
  by_cases hlimit : st.maxAttrs ≤ (getSlot st s).attrCount
  · simp only [addAttr, if_pos hlimit]
  · by_cases hroom : sizeofChunkHdr + kv.attr.bytes.length ≤ S.room
    · rw [addAttr_eq R hvalid hlimit hroom, addAttr_eq R hvalid hlimit hroom, halloc]
    · rw [addAttr_fail R V hvalid hlimit hroom, addAttr_fail R V hvalid hlimit hroom, halloc]

/-- The first match of a list is at one place only. -/
theorem split_first_unique {p : Cell → Bool} {c d : Cell} {c₁ c₂ d₁ d₂ : List Cell}
    (h : d₁ ++ d :: d₂ = c₁ ++ c :: c₂) (hd₁ : ∀ x ∈ d₁, p x = false) (hd : p d = true)
    (hc₁ : ∀ x ∈ c₁, p x = false) (hc : p c = true) : d₁ = c₁ ∧ d = c ∧ d₂ = c₂ := by
  induction d₁ generalizing c₁ with
  | nil =>
      cases c₁ with
      | nil => simpa using h
      | cons x c₁ =>
          obtain ⟨rfl, -⟩ := List.cons.inj h
          have := hc₁ d (by simp)
          rw [hd] at this
          simp at this
  | cons y d₁ ih =>
      cases c₁ with
      | nil =>
          obtain ⟨rfl, -⟩ := List.cons.inj h
          have := hd₁ y (by simp)
          rw [hc] at this
          simp at this
      | cons x c₁ =>
          obtain ⟨rfl, hrest⟩ := List.cons.inj h
          obtain ⟨rfl, rfl, rfl⟩ := ih hrest (fun z hz => hd₁ z (by simp [hz]))
            (fun z hz => hc₁ z (by simp [hz]))
          exact ⟨rfl, rfl, rfl⟩

/-- Overwriting an attribute keeps the number of attributes and events. -/
theorem overwrite_counts {c : Cell} {c₁ c₂ : List Cell} {a : Attr} (cap : Nat)
    (hcells : e.cells = c₁ ++ c :: c₂) (hc : c.hasKey a.key = true) :
    (pick Item.attr? (c₁ ++ ⟨.attr a, cap⟩ :: c₂)).length = e.attrs.length ∧
      (pick Item.event? (c₁ ++ ⟨.attr a, cap⟩ :: c₂)).length = e.events.length := by
  obtain ⟨b, hb, -⟩ := Cell.hasKey_iff.mp hc
  constructor
  · simp [Entry.attrs, hcells, pick_append, pick_cons, hb, Item.attr?]
  · simp [Entry.events, hcells, pick_append, pick_cons, hb, Item.event?]

theorem overwriteAttr_inPlace {old : UInt32} {c : Cell} (hc : Holds (coreAt st old) c)
    (hvalid : kvValid kv = true) (hfits : kv.attr.bytes.length ≤ c.cap) :
    overwriteAttr w st s old kv =
      (putChunk (st.poke (chunkPayload old) kv.attr.bytes) old
        { getChunk st old with used := UInt32.ofNat kv.attr.bytes.length }, .ok) := by
  have hsize : (getChunk st old).size.toNat = sizeofChunkHdr + c.cap := hc.size
  have hlt : (getChunk st old).size.toNat < 2 ^ 32 := UInt32.toNat_lt _
  have hpack : ∀ st' dst, packKv w st' dst kv =
      (st'.poke dst kv.attr.bytes, UInt32.ofNat kv.attr.bytes.length) := fun st' dst =>
    packKv_eq hvalid st' dst (by omega)
  have hle : kv.attr.bytes.length ≤ (getChunk st old).size.toNat - sizeofChunkHdr := by omega
  simp only [overwriteAttr, kvSize_eq hvalid, if_pos hle, hpack]

/-- `overwrite_attr` with a new chunk: it is filled, the old chunk is looked up
again and the new one takes its place. -/
theorem overwriteAttr_realloc {old : UInt32} {c : Cell} (R : Rep st S cs ch)
    (hc : Holds (coreAt st old) c) (hvalid : kvValid kv = true)
    (hfits : ¬ kv.attr.bytes.length ≤ c.cap)
    (hroom : sizeofChunkHdr + kv.attr.bytes.length ≤ S.room) :
    let a := allocChunk w st s .attr kv.attr.bytes.length
    let st' := a.1.poke (chunkPayload a.2) kv.attr.bytes
    let found := findChunk w st' s .attr (some kv.key.data)
    overwriteAttr w st s old kv = (spliceChunk st' s found.2 found.1 a.2, .ok) := by
  have hsize : (getChunk st old).size.toNat = sizeofChunkHdr + c.cap := hc.size
  have hne := R.alloc_ne_none (w := w) s .attr hroom
  have hlt := R.room_lt
  have hpack : ∀ st' dst, packKv w st' dst kv =
      (st'.poke dst kv.attr.bytes, UInt32.ofNat kv.attr.bytes.length) := fun st' dst =>
    packKv_eq hvalid st' dst (by omega)
  have hle : ¬ kv.attr.bytes.length ≤ (getChunk st old).size.toNat - sizeofChunkHdr := by omega
  simp only [overwriteAttr, kvSize_eq hvalid, if_neg hle, if_neg hne, hpack]

theorem overwriteAttr_fail {old : UInt32} {c : Cell} (R : Rep st S cs ch) (V : S.Valid)
    (hc : Holds (coreAt st old) c) (hvalid : kvValid kv = true)
    (hfits : ¬ kv.attr.bytes.length ≤ c.cap)
    (hroom : ¬ sizeofChunkHdr + kv.attr.bytes.length ≤ S.room) :
    overwriteAttr w st s old kv =
      (countDroppedAttribute (allocChunk w st s .attr kv.attr.bytes.length).1, .errNoSpace) := by
  have hsize : (getChunk st old).size.toNat = sizeofChunkHdr + c.cap := hc.size
  obtain ⟨hnone, -⟩ := R.alloc_fail (w := w) (R.ended_lt V) s .attr hroom
  have hle : ¬ kv.attr.bytes.length ≤ (getChunk st old).size.toNat - sizeofChunkHdr := by omega
  simp only [overwriteAttr, kvSize_eq hvalid, if_neg hle, hnone, if_true]

theorem Rep.overwriteAttr {l₁ l₂ : List UInt32} {c₁ c₂ : List Cell} {old : UInt32} {c : Cell}
    (R : Rep st S cs ch) (V : S.Valid) (hs : s < st.slotCount) (he : S.entry s = some e)
    (hvalid : kvValid kv = true) (hsplit : ch s = l₁ ++ old :: l₂)
    (hcells : e.cells = c₁ ++ c :: c₂) (hfirst : ∀ x ∈ c₁, x.hasKey kv.attr.key = false)
    (hkey : c.hasKey kv.attr.key = true) (h₁ : List.Forall₂ Holds (l₁.map (coreAt st)) c₁)
    (hc : Holds (coreAt st old) c) (h₂ : List.Forall₂ Holds (l₂.map (coreAt st)) c₂) :
    Refines (overwriteAttr w st s old kv)
      (if kv.attr.bytes.length ≤ c.cap then
        (S.put s { e with cells := c₁ ++ ⟨.attr kv.attr, c.cap⟩ :: c₂ }, .ok)
      else if sizeofChunkHdr + kv.attr.bytes.length ≤ S.room then
        (S.put s { e with cells := c₁ ++ ⟨.attr kv.attr, kv.attr.bytes.length⟩ :: c₂ }, .ok)
      else (S.dropAttributes 1, .errNoSpace)) := by
  have hused := R.used hs he
  obtain ⟨b, hb, -⟩ := Cell.hasKey_iff.mp hkey
  by_cases hfits : kv.attr.bytes.length ≤ c.cap
  · rw [if_pos hfits, overwriteAttr_inPlace hc hvalid hfits]
    have L := R.heap.overwritten (.attr kv.attr) R.clean hused hsplit h₁ hc h₂
      (by rw [hb]; rfl) hfits
    obtain ⟨hattrs, hevents⟩ := overwrite_counts c.cap hcells hkey
    exact ⟨rfl, cs, ch, R.relisted V hs he L hattrs hevents⟩
  · rw [if_neg hfits]
    by_cases hroom : sizeofChunkHdr + kv.attr.bytes.length ≤ S.room
    · rw [if_pos hroom, overwriteAttr_realloc R hc hvalid hfits hroom]
      obtain ⟨cs₁, ch₁, F⟩ : ∃ cs₁ ch₁,
          Filled st ((allocChunk w st s .attr kv.attr.bytes.length).1.poke
            (chunkPayload (allocChunk w st s .attr kv.attr.bytes.length).2) kv.attr.bytes)
          ch ch₁ cs₁
            (allocChunk w st s .attr kv.attr.bytes.length).2 s (.attr kv.attr) :=
        R.fill (w := w) s (.attr kv.attr) hroom
      have hused₁ := (F.used_iff s).mpr hused
      have hcells₁ := (R.held s hs e he).cells
      rw [← F.contents s hused] at hcells₁
      -- The first match after the allocation is the cell that was found before it.
      rcases SlotHolds.find (w := w) F.toPending.heap hused₁ hcells₁ .attr (some kv.key.data)
          (Cell.hasKey kv.attr.key) (fun o c h => chunkMatches_key h _) with
        ⟨m₁, o, m₂, d₁, d, d₂, hsplit', hcells', hfirst', hd, hm₁, hho, hm₂, hfind⟩ | ⟨hnone, -⟩
      · have hsame : d₁ = c₁ ∧ d = c ∧ d₂ = c₂ := by
          have hlist : c₁ ++ c :: c₂ = d₁ ++ d :: d₂ := by rw [← hcells, hcells']
          exact split_first_unique hlist.symm hfirst' hd hfirst hkey
        obtain ⟨rfl, rfl, rfl⟩ := hsame
        obtain ⟨ch₂, L⟩ := F.toPending.splice hused₁ hsplit' hm₁ hm₂
        have L' := Relisted.of_moved F.toMoved L
        obtain ⟨hattrs, hevents⟩ := overwrite_counts kv.attr.bytes.length hcells hkey
        refine ⟨rfl, cs₁, ch₂, ?_⟩
        dsimp only
        rw [hfind]
        exact R.relisted V hs he L' hattrs hevents
      · have := hnone c (by rw [hcells]; simp)
        rw [hkey] at this
        simp at this
    · rw [if_neg hroom, overwriteAttr_fail R V hc hvalid hfits hroom]
      obtain ⟨-, cs', ch', R'⟩ := R.alloc_fail (w := w) (R.ended_lt V) s .attr hroom
      exact ⟨rfl, cs', ch', R'.dropAttributes 1⟩

theorem findChunk_word (st : LeafState) (s : UInt16) (kind : ChunkKind) (key : Option Bytes) :
    findChunk w st s kind key = findChunk ω st s kind key := rfl

theorem overwriteAttr_word {old : UInt32} {c : Cell} (R : Rep st S cs ch) (V : S.Valid)
    (hc : Holds (coreAt st old) c) (hvalid : kvValid kv = true) :
    overwriteAttr w st s old kv = overwriteAttr ω st s old kv := by
  have halloc := allocChunk_word (w := w) (ω := ω) R.heap R.clean s .attr kv.attr.bytes.length
  by_cases hfits : kv.attr.bytes.length ≤ c.cap
  · rw [overwriteAttr_inPlace hc hvalid hfits, overwriteAttr_inPlace hc hvalid hfits]
  · by_cases hroom : sizeofChunkHdr + kv.attr.bytes.length ≤ S.room
    · rw [overwriteAttr_realloc R hc hvalid hfits hroom,
        overwriteAttr_realloc R hc hvalid hfits hroom, halloc]
      rfl
    · rw [overwriteAttr_fail R V hc hvalid hfits hroom,
        overwriteAttr_fail R V hc hvalid hfits hroom, halloc]

/-- `microtel_leaf_span_set_attribute`. -/
theorem Rep.setAttribute (R : Rep st S cs ch) (V : S.Valid) (span : Handle) (attr : Option Kv) :
    Refines (setAttribute w st span attr) (S.setAttribute span attr) ∧
      Leaf.setAttribute w st span attr = Leaf.setAttribute ω st span attr := by
  cases attr with
  | none => simp [Leaf.setAttribute, Store.setAttribute, R.checkLeaf, Refines]; exact ⟨cs, ch, R⟩
  | some kv =>
      cases hopen : S.openSpan (kvValid kv) span with
      | error status =>
          have hopen' := R.openSpan_error hopen
          simp only [Leaf.setAttribute, Store.setAttribute, hopen, hopen', Refines,
            true_and, and_true]
          exact ⟨cs, ch, R⟩
      | ok p =>
          obtain ⟨s, e⟩ := p
          obtain ⟨hvalid, hres, -⟩ := Store.openSpan_spec hopen
          obtain ⟨he, hlt, -, -⟩ := Store.resolve_spec hres
          have hs : s < st.slotCount := by rw [R.count]; exact hlt
          have hopen' := R.openSpan_ok hopen
          have hcells := (R.held s hs e he).cells
          simp only [Leaf.setAttribute, Store.setAttribute, hopen, hopen']
          rcases SlotHolds.find (w := w) R.heap (R.used hs he) hcells .attr (some kv.key.data)
              (Cell.hasKey kv.attr.key) (fun o c h => chunkMatches_key h _) with
            ⟨l₁, o, l₂, c₁, c, c₂, hsplit, hcells', hfirst, hkey, h₁, hc, h₂, hfind⟩ |
            ⟨hnone, hfind⟩
          · have hone : o ≠ none32 := R.heap.arena.mem_ne_none
              (R.heap.mem_cs (s := s) (by rw [hsplit]; simp))
            have hfind' : e.cells.find? (Cell.hasKey kv.attr.key) = some c := by
              rw [hcells']
              exact find?_append_of_first hfirst hkey
            have hrepl : ∀ new, Store.replaceFirst (Cell.hasKey kv.attr.key) new e.cells =
                c₁ ++ new :: c₂ := by
              intro new
              rw [hcells', replaceFirst_append hfirst hkey]
            rw [← findChunk_word (w := w) (ω := ω), hfind, hfind']
            simp only [ne_eq, hone, not_false_eq_true, if_true, hrepl]
            exact ⟨R.overwriteAttr V hs he hvalid hsplit hcells' hfirst hkey h₁ hc h₂,
              overwriteAttr_word R V hc hvalid⟩
          · have hfind' : e.cells.find? (Cell.hasKey kv.attr.key) = none := by
              rw [List.find?_eq_none]
              simpa using hnone
            rw [← findChunk_word (w := w) (ω := ω), hfind, hfind']
            simp only [ne_eq, not_true_eq_false, if_false]
            exact ⟨R.addAttr V hs he hvalid, addAttr_word R V hvalid⟩

/-! ### Events -/

theorem event_bytes_length {time : UInt64} {name : Slice UInt8} {kept : List Kv}
    (hname : name.readable = true) (hvalid : kvsValid kept = true) :
    (Item.event time name.data (kept.map Kv.attr)).bytes.length =
      sizeofEventHdr + name.len + (kept.map kvSize).sum := by
  have hsizes : ((kept.map Kv.attr).flatMap Attr.bytes).length = (kept.map kvSize).sum := by
    rw [List.length_flatMap, List.map_map]
    congr 1
    apply List.map_congr_left
    intro kv hkv
    exact (kvSize_eq (List.all_eq_true.mp hvalid kv hkv)).symm
  simp only [Item.bytes, List.length_append, EventHdr.layout.enc_length, EventHdr.layout_size,
    Slice.data_length_of_readable hname, hsizes]

theorem kvsValid_take {kvs : List Kv} (h : kvsValid kvs = true) (n : Nat) :
    kvsValid (kvs.take n) = true := by
  unfold kvsValid at h ⊢
  rw [List.all_eq_true] at h ⊢
  intro kv hkv
  exact h kv (List.mem_of_mem_take hkv)

theorem allocChunk_params (R : Rep st S cs ch) (V : S.Valid) (s : UInt16) (kind : ChunkKind)
    (n : Nat) : (allocChunk w st s kind n).1.toLeafParams = st.toLeafParams := by
  by_cases hroom : sizeofChunkHdr + n ≤ S.room
  · obtain ⟨cs', ch', A⟩ := allocChunk_ok (w := w) R.heap R.clean s kind
      ((R.fits_iff _).mpr hroom)
    rw [A.scalars]
  · obtain ⟨-, cs', ch', R'⟩ := R.alloc_fail (w := w) (R.ended_lt V) s kind hroom
    rw [R'.params, R.params]

/-- `microtel_leaf_span_add_event` past its checks, with room. -/
theorem addEvent_eq (R : Rep st S cs ch) (V : S.Valid) {env : Callbacks} {span : Handle}
    {name : Slice UInt8} {attrs : Slice Kv} {item : Item} {kept : List Kv}
    (hopen : openSpan st (name.readable && attrs.readable && kvsValid attrs.data) span = .ok s)
    (hname : name.readable = true) (hvalid : kvsValid attrs.data = true)
    (hlimit : ¬ st.maxEvents ≤ (getSlot st s).eventCount)
    (hkept : kept = attrs.data.take st.maxEventAttrs.toNat)
    (hitem : item = .event (readClock st.toLeafParams env) name.data (kept.map Kv.attr))
    (hroom : sizeofChunkHdr + item.bytes.length ≤ S.room) :
    let a := allocChunk w st s .event item.bytes.length
    let st' := linkChunk (a.1.poke (chunkPayload a.2) item.bytes) s a.2
    let st'' := putSlot st' s { getSlot st' s with eventCount := (getSlot st' s).eventCount + 1 }
    addEvent w st env span name attrs =
      (addDropped st'' (UInt32.ofNat (attrs.len - kept.length)), .ok) := by
  have hne := R.alloc_ne_none (w := w) s .event hroom
  have hlt := R.room_lt
  have hvalidKept : kvsValid kept = true := by
    rw [hkept]
    exact kvsValid_take hvalid _
  have hlen : sizeofEventHdr + name.len + (kept.map kvSize).sum = item.bytes.length := by
    rw [hitem, event_bytes_length hname hvalidKept]
  have hparams := allocChunk_params (w := w) R V s .event item.bytes.length
  have hwrite : writeEvent w (allocChunk w st s .event item.bytes.length).1 env
      (allocChunk w st s .event item.bytes.length).2 name kept =
      (allocChunk w st s .event item.bytes.length).1.poke
        (chunkPayload (allocChunk w st s .event item.bytes.length).2) item.bytes := by
    have hclock : item = .event
        (readClock (allocChunk w st s .event item.bytes.length).1.toLeafParams env) name.data
        (kept.map Kv.attr) := by
      rw [hparams]
      exact hitem
    have heq := writeEvent_eq (w := w) (allocChunk w st s .event item.bytes.length).1 env
      (allocChunk w st s .event item.bytes.length).2 hname hvalidKept
      (by rw [← hclock]; omega)
    rw [← hclock] at heq
    exact heq
  simp only [addEvent, hopen, if_neg hlimit, ← hkept, hlen, if_neg hne, hwrite,
    addDropped]

theorem addEvent_fail (R : Rep st S cs ch) (V : S.Valid) {env : Callbacks} {span : Handle}
    {name : Slice UInt8} {attrs : Slice Kv} {item : Item} {kept : List Kv}
    (hopen : openSpan st (name.readable && attrs.readable && kvsValid attrs.data) span = .ok s)
    (hname : name.readable = true) (hvalid : kvsValid attrs.data = true)
    (hlimit : ¬ st.maxEvents ≤ (getSlot st s).eventCount)
    (hkept : kept = attrs.data.take st.maxEventAttrs.toNat)
    (hitem : item = .event (readClock st.toLeafParams env) name.data (kept.map Kv.attr))
    (hroom : ¬ sizeofChunkHdr + item.bytes.length ≤ S.room) :
    addEvent w st env span name attrs =
      (countDroppedEvent (allocChunk w st s .event item.bytes.length).1, .errNoSpace) := by
  have hvalidKept : kvsValid kept = true := by
    rw [hkept]
    exact kvsValid_take hvalid _
  have hlen : sizeofEventHdr + name.len + (kept.map kvSize).sum = item.bytes.length := by
    rw [hitem, event_bytes_length hname hvalidKept]
  obtain ⟨hnone, -⟩ := R.alloc_fail (w := w) (R.ended_lt V) s .event hroom
  simp only [addEvent, hopen, if_neg hlimit, ← hkept, hlen, hnone, if_true]

theorem Rep.eventLimit_iff (R : Rep st S cs ch) (V : S.Valid) (hs : s < st.slotCount)
    (he : S.entry s = some e) :
    st.maxEvents ≤ (getSlot st s).eventCount ↔ S.maxEvents.toNat ≤ e.events.length := by
  rw [UInt16.le_iff_toNat_le, R.eventCount V hs he]
  have hmax : st.maxEvents = S.maxEvents := congrArg LeafParams.maxEvents R.params
  rw [hmax]

theorem Rep.addEvent (R : Rep st S cs ch) (V : S.Valid) (env : Callbacks) (span : Handle)
    (name : Slice UInt8) (attrs : Slice Kv) :
    Refines (addEvent w st env span name attrs) (S.addEvent env span name attrs) ∧
      Leaf.addEvent w st env span name attrs = Leaf.addEvent ω st env span name attrs := by
  cases hopen : S.openSpan (name.readable && attrs.readable && kvsValid attrs.data) span with
  | error status =>
      have hopen' := R.openSpan_error hopen
      simp only [Leaf.addEvent, Store.addEvent, hopen, hopen', Refines, true_and, and_true]
      exact ⟨cs, ch, R⟩
  | ok p =>
      obtain ⟨s, e⟩ := p
      obtain ⟨hargs, hres, -⟩ := Store.openSpan_spec hopen
      obtain ⟨he, hlt, -, -⟩ := Store.resolve_spec hres
      have hs : s < st.slotCount := by rw [R.count]; exact hlt
      have hopen' := R.openSpan_ok hopen
      have hiff := R.eventLimit_iff V hs he
      simp only [Bool.and_eq_true] at hargs
      by_cases hlimit : S.maxEvents.toNat ≤ e.events.length
      · have hlimit' := hiff.mpr hlimit
        simp only [Leaf.addEvent, Store.addEvent, hopen, hopen', if_pos hlimit, if_pos hlimit',
          and_true]
        exact ⟨rfl, cs, ch, R.dropEvent⟩
      · have hlimit' : ¬ st.maxEvents ≤ (getSlot st s).eventCount := fun h => hlimit (hiff.mp h)
        obtain ⟨kept, hkept⟩ : ∃ kept, kept = attrs.data.take st.maxEventAttrs.toNat := ⟨_, rfl⟩
        obtain ⟨item, hitem⟩ : ∃ item, item =
          Item.event (readClock st.toLeafParams env) name.data (kept.map Kv.attr) := ⟨_, rfl⟩
        have hitem' : Item.event (readClock S.toLeafParams env) name.data
            ((attrs.data.take S.maxEventAttrs.toNat).map Kv.attr) = item := by
          rw [hitem, hkept, R.params]
        have hkeptLen : ((attrs.data.take S.maxEventAttrs.toNat).map Kv.attr).length =
            kept.length := by
          rw [hkept, R.params, List.length_map]
        have halloc := allocChunk_word (w := w) (ω := ω) R.heap R.clean s .event
          item.bytes.length
        simp only [Store.addEvent, hopen, if_neg hlimit, hitem', hkeptLen]
        by_cases hroom : sizeofChunkHdr + item.bytes.length ≤ S.room
        · rw [if_pos hroom,
            addEvent_eq R V hopen' hargs.1.1 hargs.2 hlimit' hkept hitem hroom,
            addEvent_eq R V hopen' hargs.1.1 hargs.2 hlimit' hkept hitem hroom, halloc]
          refine ⟨⟨rfl, ?_⟩, rfl⟩
          have hkind : item.kind = .event := by rw [hitem]; rfl
          obtain ⟨cs', ch', L⟩ := R.append (w := ω) hs he item hroom
          rw [hkind] at L
          refine ⟨cs', ch', ?_⟩
          have R' := R.rewritten V hs he
            ({ e with cells := e.cells ++ [⟨item, item.bytes.length⟩] }) L
            (fun r => { r with eventCount := r.eventCount + 1 }) (fun _ => Iff.rfl)
            (fun _ => rfl) (fun _ => rfl) (fun _ => rfl)
            (by
              intro n
              simp [Entry.toRec, Entry.attrs, Entry.events, pick_append, pick_cons, Item.attr?,
                Item.event?, UInt16.ofNat_add, hitem])
          dsimp only at R' ⊢
          exact R'.dropAttributes (UInt32.ofNat (attrs.len - kept.length))
        · rw [if_neg hroom,
            addEvent_fail R V hopen' hargs.1.1 hargs.2 hlimit' hkept hitem hroom,
            addEvent_fail R V hopen' hargs.1.1 hargs.2 hlimit' hkept hitem hroom, halloc]
          obtain ⟨-, cs', ch', R'⟩ := R.alloc_fail (w := ω) (R.ended_lt V) s .event hroom
          exact ⟨⟨rfl, cs', ch', R'.dropEvent⟩, rfl⟩

/-! ### Status -/

variable {message : Slice UInt8}

/-- The store's list of slot `s`, when its status message is looked up. -/
theorem Rep.findStatus (R : Rep st S cs ch) (hs : s < st.slotCount) (he : S.entry s = some e) :
    (∃ l₁ o l₂ c₁ c c₂, ch s = l₁ ++ o :: l₂ ∧ e.cells = c₁ ++ c :: c₂ ∧
      (∀ x ∈ c₁, x.isStatus = false) ∧ c.isStatus = true ∧
      List.Forall₂ Holds (l₁.map (coreAt st)) c₁ ∧ Holds (coreAt st o) c ∧
      List.Forall₂ Holds (l₂.map (coreAt st)) c₂ ∧
      findChunk w st s .status none = (o, last none32 l₁)) ∨
    ((∀ x ∈ e.cells, x.isStatus = false) ∧ (findChunk w st s .status none).1 = none32) :=
  SlotHolds.find R.heap (R.used hs he) (R.held s hs e he).cells .status none Cell.isStatus
    fun _ _ h => chunkMatches_status h

/-- The end of `set_status_message`: the second lookup, the unlink of the old
message and the link of the new one. -/
def relinkStatus (w : Word32) (st : LeafState) (slot : UInt16) (repl : UInt32) : LeafState :=
  let (old, prev) := findChunk w st slot .status none
  let st := if old ≠ none32 then unlinkChunk st slot prev old else st
  linkChunk st slot repl

theorem relinkStatus_word (st : LeafState) (s : UInt16) (repl : UInt32) :
    relinkStatus w st s repl = relinkStatus ω st s repl := rfl

/-- A message that needs a chunk of its own: the allocation, the second lookup,
the unlink of the old message and the link of the new one. -/
theorem Rep.renewStatus_alloc (R : Rep st S cs ch) (hs : s < st.slotCount)
    (he : S.entry s = some e) (hread : message.readable = true)
    (hroom : sizeofChunkHdr + message.len ≤ S.room) :
    let a := allocChunk w st s .status message.len
    let st' := a.1.poke (chunkPayload a.2) message.data
    ∃ cs' ch', Relisted st (relinkStatus w st' s a.2) ch cs' ch' [] s
      (e.cells.eraseP Cell.isStatus ++ [⟨.status message.data, message.len⟩]) := by
  have hlen := Slice.data_length_of_readable hread
  obtain ⟨cs₁, ch₁, F⟩ : ∃ cs₁ ch₁,
      Filled st ((allocChunk w st s .status message.len).1.poke
        (chunkPayload (allocChunk w st s .status message.len).2) message.data) ch ch₁ cs₁
        (allocChunk w st s .status message.len).2 s (.status message.data) := by
    have hfill := R.fill (w := w) s (.status message.data)
      (by change sizeofChunkHdr + message.data.length ≤ S.room; rw [hlen]; exact hroom)
    change ∃ cs₁ ch₁, Filled st ((allocChunk w st s .status message.data.length).1.poke
      (chunkPayload (allocChunk w st s .status message.data.length).2) message.data) ch ch₁ cs₁
      (allocChunk w st s .status message.data.length).2 s (.status message.data) at hfill
    rw [hlen] at hfill
    exact hfill
  dsimp only
  generalize (allocChunk w st s .status message.len).2 = o at F ⊢
  generalize (allocChunk w st s .status message.len).1.poke (chunkPayload o) message.data = st₁
    at F ⊢
  have hused := R.used hs he
  have hused₁ := (F.used_iff s).mpr hused
  have hcells₁ := (R.held s hs e he).cells
  rw [← F.contents s hused] at hcells₁
  have hnew : ([⟨.status message.data, message.len⟩] : List Cell) =
      [⟨.status message.data, (Item.status message.data).bytes.length⟩] := by
    rw [← hlen]
    rfl
  rw [hnew]
  rcases SlotHolds.find (w := w) F.toPending.heap hused₁ hcells₁ .status none Cell.isStatus
      (fun o c h => chunkMatches_status h) with
    ⟨l₁, old, l₂, c₁, c, c₂, hsplit, hcells, hfirst, hc, h₁, hold, h₂, hfind⟩ | ⟨hnone, hfind⟩
  · have holdne : old ≠ none32 := F.toPending.heap.arena.mem_ne_none
      (F.toPending.heap.mem_cs (s := s) (by rw [hsplit]; simp))
    unfold relinkStatus
    rw [hfind, hcells, eraseP_append_of_first hfirst hc]
    simp only [ne_eq, holdne, not_false_eq_true, if_true]
    obtain ⟨ch₂, L, P⟩ := F.toPending.unlink hused₁ hsplit h₁ h₂
    obtain ⟨ch₃, L'⟩ := P.link ((L.used_iff s).mpr hused₁) L.cells
    exact ⟨cs₁, ch₃, Relisted.of_moved F.toMoved (L.trans L')⟩
  · have herase : e.cells.eraseP Cell.isStatus = e.cells :=
      List.eraseP_of_forall_not (by simpa using hnone)
    unfold relinkStatus
    rw [herase]
    simp only [hfind, ne_eq, not_true_eq_false, if_false]
    obtain ⟨ch₂, L⟩ := F.toPending.link hused₁ hcells₁
    exact ⟨cs₁, ch₂, Relisted.of_moved F.toMoved L⟩

theorem allocString_eq (R : Rep st S cs ch) (hpos : 0 < message.len) (kind : ChunkKind)
    (hroom : sizeofChunkHdr + message.len ≤ S.room) :
    allocString w st s kind message =
      ((allocChunk w st s kind message.len).1.poke
        (chunkPayload (allocChunk w st s kind message.len).2) message.data,
        (allocChunk w st s kind message.len).2) := by
  have hne := R.alloc_ne_none (w := w) s kind hroom
  simp only [allocString, if_pos (And.intro hne hpos)]

theorem allocString_fail (R : Rep st S cs ch) (V : S.Valid) (kind : ChunkKind)
    (hroom : ¬ sizeofChunkHdr + message.len ≤ S.room) :
    allocString w st s kind message = ((allocChunk w st s kind message.len).1, none32) := by
  obtain ⟨hnone, -⟩ := R.alloc_fail (w := w) (R.ended_lt V) s kind hroom
  simp [allocString, hnone]

/-- What is left of `set_status_message` when the message cannot be written in
place. -/
def renewMessage (w : Word32) (st : LeafState) (slot : UInt16) (old prev : UInt32)
    (message : Slice UInt8) : LeafState × Status :=
  if message.len = 0 then
    (if old ≠ none32 then unlinkChunk st slot prev old else st, .ok)
  else
    let (st, repl) := allocString w st slot .status message
    if repl = none32 then (st, .errNoSpace) else (relinkStatus w st slot repl, .ok)

theorem setStatusMessage_eq (w : Word32) (st : LeafState) (s : UInt16) (message : Slice UInt8) :
    setStatusMessage w st s message =
      let found := findChunk w st s .status none
      if found.1 ≠ none32 ∧ 0 < message.len ∧
          message.len ≤ (getChunk st found.1).size.toNat - sizeofChunkHdr then
        (putChunk (st.poke (chunkPayload found.1) message.data) found.1
          { getChunk st found.1 with used := w.cast message.len }, .ok)
      else renewMessage w st s found.1 found.2 message := rfl

/-- A change of the list of slot `s`, or none and no room. -/
def Outcome.Relists (st : LeafState) (S : Store) (ch : UInt16 → List UInt32) (s : UInt16)
    (r : LeafState × Status) : Option (List Cell) → Prop
  | some cells => r.2 = .ok ∧ ∃ cs' ch', Relisted st r.1 ch cs' ch' [] s cells
  | none => r.2 = .errNoSpace ∧ ∃ cs' ch', Rep r.1 S cs' ch'

theorem Rep.renewMessage (R : Rep st S cs ch) (V : S.Valid) (hs : s < st.slotCount)
    (he : S.entry s = some e) (hread : message.readable = true) :
    Outcome.Relists st S ch s
        (renewMessage w st s (findChunk w st s .status none).1 (findChunk w st s .status none).2
          message) (S.renewStatus e.cells message) ∧
      Leaf.renewMessage w st s (findChunk w st s .status none).1
          (findChunk w st s .status none).2 message =
        Leaf.renewMessage ω st s (findChunk w st s .status none).1
          (findChunk w st s .status none).2 message := by
  by_cases hzero : message.len = 0
  · simp only [Leaf.renewMessage, Store.renewStatus, if_pos hzero, and_true]
    refine ⟨rfl, ?_⟩
    rcases R.findStatus (w := w) hs he with
      ⟨l₁, old, l₂, c₁, c, c₂, hsplit, hcells, hfirst, hc, h₁, hold, h₂, hfind⟩ | ⟨hnone, hfind⟩
    · have holdne : old ≠ none32 := R.heap.arena.mem_ne_none
        (R.heap.mem_cs (s := s) (by rw [hsplit]; simp))
      rw [hfind, if_pos holdne, hcells, eraseP_append_of_first hfirst hc]
      obtain ⟨ch', L, -, -⟩ := R.heap.unlinked R.clean (R.used hs he) hsplit h₁ h₂
      exact ⟨cs, ch', L⟩
    · have herase : e.cells.eraseP Cell.isStatus = e.cells :=
        List.eraseP_of_forall_not (by simpa using hnone)
      rw [hfind, if_neg (by simp), herase]
      exact ⟨cs, ch, Keeps.refl st, R.heap, R.clean, fun _ _ _ => rfl, (R.held s hs e he).cells⟩
  · have halloc := allocChunk_word (w := w) (ω := ω) R.heap R.clean s .status message.len
    by_cases hroom : sizeofChunkHdr + message.len ≤ S.room
    · have hne := R.alloc_ne_none (w := ω) s .status hroom
      have hstring := allocString_eq (w := w) (s := s) R (by omega : 0 < message.len) .status hroom
      have hstring' := allocString_eq (w := ω) (s := s) R (by omega : 0 < message.len) .status hroom
      rw [halloc] at hstring
      simp only [Leaf.renewMessage, Store.renewStatus, if_neg hzero, if_pos hroom,
        hstring, hstring', if_neg hne]
      have hmain := R.renewStatus_alloc (w := ω) hs he hread hroom
      rw [relinkStatus_word (w := w) (ω := ω)]
      dsimp only [Outcome.Relists] at hmain ⊢
      refine ⟨⟨rfl, ?_⟩, rfl⟩
      exact hmain
    · have hstring := allocString_fail (w := w) (s := s) R V .status hroom
      have hstring' := allocString_fail (w := ω) (s := s) R V .status hroom
      rw [halloc] at hstring
      simp only [Leaf.renewMessage, Store.renewStatus, if_neg hzero, if_neg hroom,
        hstring, hstring', if_true, and_true]
      obtain ⟨-, cs', ch', R'⟩ := R.alloc_fail (w := ω) (R.ended_lt V) s .status hroom
      exact ⟨rfl, cs', ch', R'⟩

theorem Rep.setStatusMessage (R : Rep st S cs ch) (V : S.Valid) (hs : s < st.slotCount)
    (he : S.entry s = some e) (hread : message.readable = true) :
    Outcome.Relists st S ch s (setStatusMessage w st s message) (S.statusCells e.cells message) ∧
      Leaf.setStatusMessage w st s message = Leaf.setStatusMessage ω st s message := by
  have hlen := Slice.data_length_of_readable hread
  have hrenew := R.renewMessage (w := w) (ω := ω) V hs he hread
  rw [setStatusMessage_eq, setStatusMessage_eq, ← findChunk_word (w := w) (ω := ω)]
  dsimp only
  rcases R.findStatus (w := w) hs he with
    ⟨l₁, old, l₂, c₁, c, c₂, hsplit, hcells, hfirst, hc, h₁, hold, h₂, hfind⟩ | ⟨hnone, hfind⟩
  · have holdne : old ≠ none32 := R.heap.arena.mem_ne_none
      (R.heap.mem_cs (s := s) (by rw [hsplit]; simp))
    have hsize : (getChunk st old).size.toNat = sizeofChunkHdr + c.cap := hold.size
    have hlt : (getChunk st old).size.toNat < 2 ^ 32 := UInt32.toNat_lt _
    have hfind' : e.cells.find? Cell.isStatus = some c := by
      rw [hcells]
      exact find?_append_of_first hfirst hc
    have hcells' : S.statusCells e.cells message =
        if 0 < message.len ∧ message.len ≤ c.cap then
          some (c₁ ++ ⟨.status message.data, c.cap⟩ :: c₂)
        else S.renewStatus e.cells message := by
      unfold Store.statusCells
      rw [hfind']
      dsimp only
      rw [hcells, replaceFirst_append hfirst hc]
    rw [hfind] at hrenew ⊢
    rw [hcells']
    have hcap : message.len ≤ (getChunk st old).size.toNat - sizeofChunkHdr ↔
        message.len ≤ c.cap := by omega
    dsimp only at hrenew ⊢
    simp only [ne_eq, holdne, not_false_eq_true, true_and, hcap]
    by_cases hfits : 0 < message.len ∧ message.len ≤ c.cap
    · have hcast : w.cast message.len = UInt32.ofNat message.data.length := by
        rw [hlen]
        exact Word32.cast_eq (by omega)
      have hcast' : ω.cast message.len = UInt32.ofNat message.data.length := by
        rw [hlen]
        exact Word32.cast_eq (by omega)
      simp only [if_pos hfits, hcast, hcast', and_true]
      obtain ⟨text, htext⟩ := Cell.isStatus_iff.mp hc
      refine ⟨rfl, cs, ch, ?_⟩
      exact R.heap.overwritten (.status message.data) R.clean (R.used hs he) hsplit
        h₁ hold h₂ (by rw [htext]; rfl)
        (by change message.data.length ≤ c.cap; omega)
    · simp only [if_neg hfits]
      exact hrenew
  · have hfind' : e.cells.find? Cell.isStatus = none := by
      rw [List.find?_eq_none]
      simpa using hnone
    have hcells' : S.statusCells e.cells message = S.renewStatus e.cells message := by
      unfold Store.statusCells
      rw [hfind']
    rw [hcells']
    simp only [hfind, ne_eq, not_true_eq_false, false_and, if_false] at hrenew ⊢
    exact hrenew

/-- `microtel_leaf_span_set_status`. -/
theorem Rep.setStatus (R : Rep st S cs ch) (V : S.Valid) (span : Handle)
    (code : Option StatusCode) (message : Slice UInt8) :
    Refines (setStatus w st span code message) (S.setStatus span code message) ∧
      Leaf.setStatus w st span code message = Leaf.setStatus ω st span code message := by
  cases hopen : S.openSpan (code.isSome && message.readable) span with
  | error status =>
      have hopen' := R.openSpan_error hopen
      simp only [Leaf.setStatus, Store.setStatus, hopen, hopen', Refines, true_and, and_true]
      exact ⟨cs, ch, R⟩
  | ok p =>
      obtain ⟨s, e⟩ := p
      obtain ⟨hargs, hres, -⟩ := Store.openSpan_spec hopen
      obtain ⟨he, hlt, -, -⟩ := Store.resolve_spec hres
      have hs : s < st.slotCount := by rw [R.count]; exact hlt
      have hopen' := R.openSpan_ok hopen
      simp only [Bool.and_eq_true] at hargs
      obtain ⟨hmsg, hword⟩ := R.setStatusMessage (w := w) (ω := ω) V hs he hargs.2
      simp only [Leaf.setStatus, Store.setStatus, hopen, hopen', ← hword, and_true]
      cases hcells : S.statusCells e.cells message with
      | none =>
          rw [hcells] at hmsg
          obtain ⟨hstatus, cs', ch', R'⟩ := hmsg
          rw [hstatus, if_neg (by simp)]
          exact ⟨rfl, cs', ch', R'⟩
      | some cells =>
          rw [hcells] at hmsg
          obtain ⟨hstatus, cs', ch', L⟩ := hmsg
          rw [hstatus, if_pos rfl]
          refine ⟨rfl, cs', ch', ?_⟩
          obtain ⟨hother, -⟩ := Store.statusCells_spec hcells (V.entries s e he).statuses_le
          refine R.rewritten V hs he
            ({ e with cells := cells, statusCode := code.getD .unset }) L
            (fun r => { r with statusCode := (code.getD .unset).code }) (fun _ => Iff.rfl)
            (fun _ => rfl) (fun _ => rfl) (fun _ => rfl) ?_
          intro n
          have hattrs := hother Item.attr? fun _ => rfl
          have hevents := hother Item.event? fun _ => rfl
          simp only [Entry.toRec, Entry.attrs, Entry.events, hattrs, hevents]

/-! ### Ending a span, and the clock -/

/-- `microtel_leaf_clock_sync`. -/
theorem Rep.clockSync (R : Rep st S cs ch) (env : Callbacks) (unixNs leafNowNs : UInt64) :
    Refines (clockSync st env unixNs leafNowNs) (S.clockSync env unixNs leafNowNs) := by
  have hclock : st.hasClock = S.hasClock := congrArg LeafParams.hasClock R.params
  have hcheck := R.checkLeaf
  have hread : readClock st.toLeafParams env = readClock S.toLeafParams env := by rw [R.params]
  unfold Leaf.clockSync Store.clockSync
  rw [hcheck, hclock, hread]
  simp only [ne_eq, not_true_eq_false, if_false]
  split
  · exact ⟨rfl, cs, ch, R⟩
  · refine ⟨rfl, cs, ch, ?_⟩
    have hst : ({ st with syncUnix := unixNs, syncLeaf := leafNowNs, synced := true } :
        LeafState) = { st with toLeafVars :=
          { S.toLeafVars with syncUnix := unixNs, syncLeaf := leafNowNs, synced := true } } := by
      rw [← R.vars]
    dsimp only
    rw [hst]
    exact R.withVars _

theorem Rep.ended_length_lt (R : Rep st S cs ch) (V : S.Valid) : S.ended.length < 65536 := by
  have hsub : S.ended ⊆ slots st := fun t ht => mem_slots.mpr (R.ended_lt V t ht)
  have hle := (List.subperm_of_subset V.ended_nodup hsub).length_le
  have hlen : (slots st).length = st.slotCount.toNat := by simp [slots]
  have hlt := st.slotCount.toNat_lt
  omega

/-- The record of the ending span, and of the span that ended before it. -/
theorem spanEnd_eq {env : Callbacks} {span : Handle} (hopen : openSpan st true span = .ok s)
    (hne : s ≠ st.endedTail) :
    spanEnd st env span =
      ({ (if st.endedTail = none16 then
            { putSlot st s { getSlot st s with
                state := .ended, finish := readClock st.toLeafParams env, nextEnded := none16 } with
              endedHead := s }
          else putSlot (putSlot st s { getSlot st s with
                state := .ended, finish := readClock st.toLeafParams env, nextEnded := none16 })
            st.endedTail { getSlot st st.endedTail with nextEnded := s }) with
          endedTail := s
          endedCount := st.endedCount + 1 }, .ok) := by
  have hother : getSlot (putSlot st s { getSlot st s with
      state := .ended, finish := readClock st.toLeafParams env, nextEnded := none16 })
      st.endedTail = getSlot st st.endedTail := getSlot_putSlot_of_ne st _ (Ne.symm hne)
  unfold spanEnd
  rw [hopen]
  dsimp only
  have htail : (putSlot st s { getSlot st s with
      state := .ended, finish := readClock st.toLeafParams env, nextEnded := none16 }).endedTail =
      st.endedTail := rfl
  rw [htail, hother]
  split <;> rfl

theorem slot_ne_none {s : UInt16} (hs : s < st.slotCount) : s ≠ none16 := by
  rintro rfl
  have h1 := UInt16.lt_iff_toNat_lt.mp hs
  have h2 := st.slotCount.toNat_lt
  have h3 : none16.toNat = 65535 := rfl
  omega

/-- The buffer after a span ended: its record, and the link to it from the
span that ended before. -/
theorem Rep.finish {st' : LeafState} {now : UInt64} (R : Rep st S cs ch) (V : S.Valid)
    (hs : s < st.slotCount) (he : S.entry s = some e) (hopen : e.ended = false)
    (H : Heap st' cs ch []) (C : Clean st' ch) (hcore : ∀ o ∈ cs, coreAt st' o = coreAt st o)
    (hslot : ∀ t < st.slotCount, getSlot st' t =
      if t = s then { getSlot st s with state := .ended, finish := now, nextEnded := none16 }
      else if t = st.endedTail then { getSlot st t with nextEnded := s } else getSlot st t)
    (hscalars : st' = { st with
      mem := st'.mem
      high := st'.high
      endedHead := if st.endedTail = none16 then s else st.endedHead
      endedTail := s
      endedCount := st.endedCount + 1 })
    (hpersist : ∀ b, Mem.AgreeOn st'.mem st.mem st.persistOff.toNat b) :
    Rep st' { S.put s { e with ended := true, finish := now } with ended := S.ended ++ [s] }
      cs ch := by
  have hcount : st'.slotCount = st.slotCount := by rw [hscalars]
  have hsame : ∀ t, (ch t).map (coreAt st') = (ch t).map (coreAt st) := by
    intro t
    apply List.map_congr_left
    intro x hx
    exact hcore x (R.heap.mem_cs hx)
  have hnot : s ∉ S.ended := by
    intro hmem
    obtain ⟨e', he', hended⟩ := (V.ended_iff s).mp hmem
    rw [he] at he'
    obtain rfl := Option.some.inj he'
    simp [hopen] at hended
  have hne_none := R.endedList.ne_nil
  have htailNone : st.endedTail = none16 ↔ S.ended = [] := by
    rw [R.endedTail]
    exact last_eq_nil_iff hne_none
  constructor
  · exact H
  · exact C
  · intro t ht x hx
    rw [hcount] at ht
    have hslot_t := hslot t ht
    by_cases hts : t = s
    · subst hts
      rw [if_pos rfl] at hslot_t
      have hxe : { e with ended := true, finish := now } = x := by
        have hx' : (S.put t { e with ended := true, finish := now }).entry t = some x := hx
        rw [Store.put_entry, if_pos rfl] at hx'
        exact Option.some.inj hx'
      subst hxe
      have hheld := R.held t ht e he
      refine ⟨?_, by rw [hsame]; exact hheld.cells⟩
      rw [hslot_t]
      have hbody := hheld.body
      have hlift : ({ getSlot st t with state := .ended, finish := now, nextEnded := none16 } :
          SpanRec).body =
          { (getSlot st t).body with state := .ended, finish := now, nextEnded := none16 } := rfl
      rw [hlift, hbody]
      rfl
    · rw [if_neg hts] at hslot_t
      have hx' : S.entry t = some x := by
        have hx' : (S.put s { e with ended := true, finish := now }).entry t = some x := hx
        rwa [Store.put_entry, if_neg hts] at hx'
      have hheld := R.held t ht x hx'
      refine ⟨?_, by rw [hsame]; exact hheld.cells⟩
      rw [hslot_t]
      split
      · have hlift : ({ getSlot st t with nextEnded := s } : SpanRec).body =
            { (getSlot st t).body with nextEnded := s } := rfl
        rw [hlift, hheld.body]
        rfl
      · exact hheld.body
  · intro t ht hnone
    rw [hcount] at ht
    have hts : t ≠ s := by
      rintro rfl
      have hx' : (S.put t { e with ended := true, finish := now }).entry t = none := hnone
      rw [Store.put_entry, if_pos rfl] at hx'
      simp at hx'
    have hnone' : S.entry t = none := by
      have hx' : (S.put s { e with ended := true, finish := now }).entry t = none := hnone
      rwa [Store.put_entry, if_neg hts] at hx'
    rw [hslot t ht, if_neg hts]
    split
    · exact R.free t ht hnone'
    · exact R.free t ht hnone'
  · have hhead : st'.endedHead = if S.ended = [] then s else st.endedHead := by
      rw [hscalars]
      simp only [htailNone]
    refine R.endedList.append (slot_ne_none hs) ?_ ?_ ?_ hhead
    · intro t ht hlast
      have hts : t ≠ s := by
        rintro rfl
        exact hnot ht
      rw [hslot t (R.ended_lt V t ht), if_neg hts, if_neg]
      rw [R.endedTail]
      exact hlast
    · intro hnonempty
      have hmem : last none16 S.ended ∈ S.ended := by
        rcases last_mem none16 S.ended with h | h
        · exact absurd ((last_eq_nil_iff hne_none).mp h) hnonempty
        · exact h
      have hts : last none16 S.ended ≠ s := by
        intro h
        rw [h] at hmem
        exact hnot hmem
      rw [hslot _ (R.ended_lt V _ hmem), if_neg hts, if_pos R.endedTail.symm]
    · rw [hslot s hs, if_pos rfl]
  · rw [hscalars]
    exact (last_concat none16 s S.ended).symm
  · have hlt := R.ended_length_lt V
    have hcnt : st'.endedCount = st.endedCount + 1 := by rw [hscalars]
    rw [hcnt, UInt32.toNat_add, R.endedCount]
    change (S.ended.length + 1) % 4294967296 = (S.ended ++ [s]).length
    rw [List.length_append, List.length_singleton, Nat.mod_eq_of_lt (by omega)]
  · refine R.persistent.congr ?_ hpersist
    rw [hscalars]
    exact ⟨rfl, rfl, rfl, rfl, rfl, rfl, rfl, rfl⟩
  · rw [hscalars]
    exact R.magic
  · have h : st'.toLeafParams = st.toLeafParams := by rw [hscalars]
    rw [h]
    exact R.params
  · have h : st'.toLeafVars = st.toLeafVars := by rw [hscalars]
    rw [h]
    exact R.vars
  · rw [hscalars]
    exact R.nextGen
  · rw [hcount]
    exact R.count
  · rw [hscalars]
    exact R.capacity

theorem Heap.withEnded {st : LeafState} {cs : List UInt32} {ch : UInt16 → List UInt32}
    (H : Heap st cs ch []) (head tail : UInt16) (count : UInt32) :
    Heap { st with endedHead := head, endedTail := tail, endedCount := count } cs ch [] := by
  refine H.congr ?_ rfl (fun _ _ => ⟨Iff.rfl, rfl, rfl⟩) fun _ _ => ⟨rfl, rfl, rfl⟩
  exact ⟨H.arena.bufSize_le, H.arena.persist_le, H.arena.table_le,
    H.arena.tiles.congr fun _ _ => rfl, H.arena.high_le⟩

theorem Clean.withEnded {st : LeafState} {ch : UInt16 → List UInt32} (C : Clean st ch)
    (head tail : UInt16) (count : UInt32) :
    Clean { st with endedHead := head, endedTail := tail, endedCount := count } ch := C

theorem coreAt_withEnded (st : LeafState) (head tail : UInt16) (count : UInt32) (o : UInt32) :
    coreAt { st with endedHead := head, endedTail := tail, endedCount := count } o =
      coreAt st o := rfl

theorem getSlot_withEnded (st : LeafState) (head tail : UInt16) (count : UInt32) (t : UInt16) :
    getSlot { st with endedHead := head, endedTail := tail, endedCount := count } t =
      getSlot st t := rfl

/-- `microtel_leaf_span_end`. -/
theorem Rep.spanEnd (R : Rep st S cs ch) (V : S.Valid) (env : Callbacks) (span : Handle) :
    Refines (spanEnd st env span) (S.spanEnd env span) := by
  cases hopen : S.openSpan true span with
  | error status =>
      have hopen' := R.openSpan_error hopen
      simp only [Leaf.spanEnd, Store.spanEnd, hopen, hopen', Refines, true_and]
      exact ⟨cs, ch, R⟩
  | ok p =>
      obtain ⟨s, e⟩ := p
      obtain ⟨-, hres, hended⟩ := Store.openSpan_spec hopen
      obtain ⟨he, hlt, -, -⟩ := Store.resolve_spec hres
      have hs : s < st.slotCount := by rw [R.count]; exact hlt
      have hopen' := R.openSpan_ok hopen
      have htailmem : st.endedTail = none16 ∨ st.endedTail ∈ S.ended := by
        rw [R.endedTail]
        exact last_mem none16 S.ended
      have hne : s ≠ st.endedTail := by
        intro h
        rcases htailmem with hnone | hmem
        · exact slot_ne_none hs (h.trans hnone)
        · rw [← h] at hmem
          obtain ⟨e', he', hend⟩ := (V.ended_iff s).mp hmem
          rw [he] at he'
          obtain rfl := Option.some.inj he'
          simp [hended] at hend
      have hstate := (R.held s hs e he).state
      obtain ⟨H₁, C₁, hcore₁, hpersist₁⟩ := R.heap.putRecord R.clean hs
        (r := { getSlot st s with
          state := .ended, finish := readClock st.toLeafParams env, nextEnded := none16 })
        (by rw [hstate, hended]; simp) rfl rfl
      have hfinal : S.spanEnd env span =
          ({ S.put s { e with ended := true, finish := readClock st.toLeafParams env } with
              ended := S.ended ++ [s] }, .ok) := by
        simp only [Store.spanEnd, hopen, R.params]
      rw [hfinal, spanEnd_eq hopen' hne]
      refine ⟨rfl, cs, ch, ?_⟩
      dsimp only
      by_cases htail : st.endedTail = none16
      · rw [if_pos htail]
        refine R.finish V hs he hended (H₁.withEnded _ _ _) C₁ hcore₁ ?_ ?_ hpersist₁
        · intro t ht
          have hnot : t ≠ st.endedTail := by
            rw [htail]
            exact slot_ne_none ht
          rw [if_neg hnot]
          exact getSlot_putSlot st s t _
        · rw [if_pos htail]
          rfl
      · rw [if_neg htail]
        have hq : st.endedTail < st.slotCount :=
          R.ended_lt V _ (htailmem.resolve_left htail)
        have hother : getSlot (putSlot st s { getSlot st s with
            state := .ended, finish := readClock st.toLeafParams env, nextEnded := none16 })
            st.endedTail = getSlot st st.endedTail := getSlot_putSlot_of_ne st _ (Ne.symm hne)
        obtain ⟨H₂, C₂, hcore₂, hpersist₂⟩ := H₁.putRecord C₁ (s := st.endedTail) hq
          (r := { getSlot st st.endedTail with nextEnded := s })
          (by rw [hother]) (by rw [hother]) (by rw [hother])
        refine R.finish V hs he hended (H₂.withEnded _ _ _) (C₂.withEnded _ _ _) ?_ ?_ ?_ ?_
        · intro o ho
          exact (coreAt_withEnded _ _ _ _ o).trans ((hcore₂ o ho).trans (hcore₁ o ho))
        · intro t ht
          refine (getSlot_withEnded _ _ _ _ t).trans ((getSlot_putSlot _ st.endedTail t _).trans ?_)
          by_cases hts : t = s
          · subst hts
            rw [if_neg hne, if_pos rfl, getSlot_putSlot_self]
          · rw [if_neg hts]
            by_cases htq : t = st.endedTail
            · rw [if_pos htq, if_pos htq, htq]
            · rw [if_neg htq, if_neg htq, getSlot_putSlot_of_ne st _ hts]
        · rw [if_neg htail]
          rfl
        · intro b
          exact (hpersist₂ b).trans (hpersist₁ b)

end

end Microtel.Leaf
