import Microtel.Leaf.BackendNanopb
import Microtel.Leaf.Readings

/-!
`microtel_leaf_encoded_size` (`leaf/src/leaf_core.c`, from `bound_field`), and what a caller
that encodes into a buffer of that size can rely on. Its sums are of `size_t`, so they are
taken modulo `sizeMax` at the end.
-/

namespace Microtel.Leaf

open ProtoWire (encodeMessage)

def boundTag : Nat := 2
def boundLen : Nat := 5
def boundVarint : Nat := 10
def boundFixed64 : Nat := 8

/-- `MICROTEL_LEAF_INTERNAL_MAX_RESERVED`. -/
def maxReserved : Nat := 7

def boundField (len : Nat) : Nat := boundTag + boundLen + len

def boundValue : AttrValue → Nat
  | .string s => boundField s.length
  | _ => boundTag + boundVarint

def boundKv (kv : Attr) : Nat :=
  boundField (boundField kv.key.length + boundField (boundValue kv.value))

def boundEvent (ev : EventView) : Nat :=
  boundField (boundTag + boundFixed64 + boundField ev.name.length + (ev.attrs.map boundKv).sum)

def boundSpan (s : SpanView) : Nat :=
  boundField (boundField 16 + 2 * boundField 8 + boundField s.name.length +
    3 * (boundTag + boundVarint) +
    boundField (boundField s.statusMessage.length + boundTag + boundVarint) +
    (s.attrs.map boundKv).sum + (s.events.map boundEvent).sum)

/-- A batch without reserved attributes, with the times as they are stored. -/
def sizeBatch (st : LeafState) : Batch where
  core := st
  scopeName := []
  scopeVersion := []
  spanCount := 0
  reserved := []
  timeOffset := 0

/-- Seven of the longest stand for the reserved attributes. -/
def boundBatch (st : LeafState) (v : BatchView) : Nat :=
  let resource :=
    (v.resource.map boundKv).sum + maxReserved * boundKv ⟨keyDroppedSpans, .bool false⟩
  let spans := (v.spans.map boundSpan).sum
  let scope := boundField (boundField st.scopeNameLen.toNat + boundField st.scopeVersionLen.toNat)
  boundField (boundField resource + boundField (scope + spans))

/-- `microtel_leaf_encoded_size`. -/
def encodedSize (sizeMax : Nat) (w : Word32) (st : LeafState) : Nat :=
  if checkLeaf st ≠ .ok then 0 else boundBatch st (viewOf w (sizeBatch st)) % sizeMax

/-! ### The text keeps within the bounds -/

/-- At most this long, as long as a length takes no more than five bytes. -/
def Within (text : Bytes) (bound : Nat) : Prop := bound < 2 ^ 35 → text.length ≤ bound

theorem within_nil (bound : Nat) : Within [] bound := fun _ => Nat.zero_le _

theorem Within.mono {text : Bytes} {bound more : Nat} (h : Within text bound)
    (hle : bound ≤ more) : Within text more :=
  fun hless => (h (by omega)).trans hle

theorem Within.append {text rest : Bytes} {bound more : Nat} (h : Within text bound)
    (h' : Within rest more) : Within (text ++ rest) (bound + more) := by
  intro hless
  have hfirst := h (by omega)
  have hsecond := h' (by omega)
  rw [List.length_append]
  omega

/-- A number below 2048 has a tag of at most two bytes. -/
theorem field_length {number : Nat} (hnumber : number < 2048) (content : ProtoWire.Content) :
    (encodeMessage [⟨number, content⟩]).length ≤ boundTag + content.text.length := by
  have htype := content.wireType_lt
  have htag : (ProtoWire.encodeVarint (8 * number + content.wireType)).length ≤ boundTag :=
    ProtoWire.encodeVarint_length_le (by omega)
  rw [encodeMessage, List.flatMap_singleton, ProtoWire.Field.text, List.length_append]
  exact Nat.add_le_add_right htag _

theorem within_len {number bound : Nat} {octets : Bytes} (hnumber : number < 2048)
    (h : Within octets bound) :
    Within (encodeMessage [⟨number, .len octets⟩]) (boundField bound) := by
  intro hless
  rw [boundField] at hless ⊢
  have hoctets := h (by omega)
  have hfield := field_length hnumber (.len octets)
  have hlen : (ProtoWire.encodeVarint octets.length).length ≤ boundLen :=
    ProtoWire.encodeVarint_length_le (by omega)
  rw [ProtoWire.Content.text, List.length_append] at hfield
  omega

theorem within_octets (octets : Bytes) : Within octets octets.length := fun _ => Nat.le_refl _

theorem within_varint {number : Nat} (hnumber : number < 2048) (v : UInt64) :
    Within (encodeMessage [⟨number, .varint v⟩]) (boundTag + boundVarint) := by
  intro _
  have hv := v.toNat_lt
  have hlen : (ProtoWire.encodeVarint v.toNat).length ≤ boundVarint :=
    ProtoWire.encodeVarint_length_le (by omega)
  exact (field_length hnumber (.varint v)).trans (Nat.add_le_add_left hlen _)

theorem within_fixed64 {number : Nat} (hnumber : number < 2048) (v : UInt64) :
    Within (encodeMessage [⟨number, Wire.Upb.fixed64Content v⟩]) (boundTag + boundFixed64) := by
  intro _
  have hlen : (ByteMemory.Layout.leBytes 8 v.toNat).length = boundFixed64 :=
    ByteMemory.Layout.leBytes_length 8 v.toNat
  have hfield := field_length hnumber (Wire.Upb.fixed64Content v)
  rwa [Wire.Upb.fixed64Content, ProtoWire.Content.text, hlen] at hfield

theorem within_bytesField (number : Nat) (hnumber : number < 2048) (v : Bytes) :
    Within (encodeMessage (Wire.Upb.bytesField number v)) (boundField v.length) := by
  rw [Wire.Upb.bytesField]
  split
  · exact within_nil _
  · exact within_len hnumber (within_octets v)

theorem within_int32Field (number : Nat) (hnumber : number < 2048) (v : Int32) :
    Within (encodeMessage (Wire.Upb.int32Field number v)) (boundTag + boundVarint) := by
  rw [Wire.Upb.int32Field, Wire.Upb.varintField]
  split
  · exact within_nil _
  · exact within_varint hnumber _

theorem within_fixed64Field (number : Nat) (hnumber : number < 2048) (v : UInt64) :
    Within (encodeMessage (Wire.Upb.fixed64Field number v)) (boundTag + boundFixed64) := by
  rw [Wire.Upb.fixed64Field]
  split
  · exact within_nil _
  · exact within_fixed64 hnumber v

/-- A repeated submessage, item by item. -/
theorem within_messageFields {α M : Type} {number : Nat} {message : α → M}
    {text : M → Bytes} {bound : α → Nat} {items : List α}
    (h : ∀ x ∈ items, Within (encodeMessage [⟨number, .len (text (message x))⟩]) (bound x)) :
    Within (encodeMessage (Wire.Upb.messageFields number text (items.map message)))
      (items.map bound).sum := by
  induction items with
  | nil => exact within_nil _
  | cons x items ih =>
      obtain ⟨hx, hitems⟩ := List.forall_mem_cons.mp h
      have hcons := hx.append (ih hitems)
      rw [← encodeMessage_append] at hcons
      rw [List.map_cons, List.map_cons, List.sum_cons]
      exact hcons

/-! ### The messages -/

theorem fixed64_le : boundTag + boundFixed64 ≤ boundTag + boundVarint := by decide

theorem within_value (value : AttrValue) :
    Within (Wire.leafValue value).text (boundValue value) := by
  cases value with
  | bool b => exact within_varint (by omega) _
  | int64 i => exact within_varint (by omega) _
  | double bits => exact (within_fixed64 (by omega) bits).mono fixed64_le
  | string s => exact within_len (by omega) (within_octets s)

theorem within_kv {number : Nat} (hnumber : number < 2048) (kv : Attr) :
    Within (encodeMessage [⟨number, .len (Wire.leafAttribute kv).text⟩]) (boundKv kv) := by
  refine within_len hnumber ?_
  rw [Wire.Upb.KeyValueOf.text, Wire.Upb.KeyValueOf.fields, encodeMessage_append]
  exact (within_bytesField 1 (by omega) kv.key).append
    (within_len (by omega) (within_value kv.value))

theorem within_attrs (number : Nat) (hnumber : number < 2048) (attrs : List Attr) :
    Within (encodeMessage (Wire.Upb.messageFields number Wire.Upb.KeyValueOf.text
      (attrs.map Wire.leafAttribute))) (attrs.map boundKv).sum :=
  within_messageFields fun kv _ => within_kv hnumber kv

theorem within_event {number : Nat} (hnumber : number < 2048) (ev : EventView) :
    Within (encodeMessage [⟨number, .len (Wire.leafEvent ev).text⟩]) (boundEvent ev) := by
  refine within_len hnumber ?_
  rw [Wire.Upb.Event.text, Wire.Upb.Event.fields, encodeMessage_append, encodeMessage_append]
  exact ((within_fixed64Field 1 (by omega) _).append
    (within_bytesField 2 (by omega) ev.name)).append
    (within_attrs 3 (by omega) ev.attrs)

theorem within_status (s : SpanView) :
    Within (encodeMessage (Wire.Upb.messageFields 15 Wire.Upb.Status.text
        (Wire.leafStatus s).toList))
      (boundField (boundField s.statusMessage.length + boundTag + boundVarint)) := by
  rw [Wire.leafStatus]
  split
  · refine within_len (by omega) ?_
    rw [Wire.Upb.Status.text, Wire.Upb.Status.fields, encodeMessage_append, Nat.add_assoc]
    exact (within_bytesField 2 (by omega) _).append (within_int32Field 3 (by omega) _)
  · exact within_nil _

theorem within_span {number : Nat} (hnumber : number < 2048) (s : SpanView) :
    Within (encodeMessage [⟨number, .len (Wire.leafSpan s).text⟩]) (boundSpan s) := by
  rw [boundSpan]
  refine within_len hnumber ?_
  have hparent : Within (encodeMessage (Wire.Upb.bytesField 4 (Wire.leafSpan s).parentSpanId))
      (boundField 8) := by
    refine (within_bytesField 4 (by omega) _).mono (Nat.add_le_add_left ?_ _)
    change ((s.parentSpanId.map Vector.toList).getD []).length ≤ 8
    cases s.parentSpanId with
    | none => exact Nat.zero_le _
    | some id => simp
  have htrace : Within (encodeMessage (Wire.Upb.bytesField 1 (Wire.leafSpan s).traceId))
      (boundField 16) :=
    (within_bytesField 1 (by omega) _).mono (by simp [Wire.leafSpan])
  have hid : Within (encodeMessage (Wire.Upb.bytesField 2 (Wire.leafSpan s).spanId))
      (boundField 8) :=
    (within_bytesField 2 (by omega) _).mono (by simp [Wire.leafSpan])
  have hevents : Within (encodeMessage (Wire.Upb.messageFields 11 Wire.Upb.Event.text
      (s.events.map Wire.leafEvent))) (s.events.map boundEvent).sum :=
    within_messageFields fun ev _ => within_event (by omega) ev
  have htimes := fun (number : Nat) (hnumber : number < 2048) (v : UInt64) =>
    (within_fixed64Field number hnumber v).mono fixed64_le
  rw [Wire.Upb.Span.text, Wire.Upb.Span.fields]
  simp only [encodeMessage_append]
  have hfixed := (((htrace.append hid).append hparent).append
    (within_bytesField 5 (by omega) s.name)).append
      (within_int32Field 6 (by omega) (Wire.leafSpan s).kind)
  have hall := (((((hfixed.append (htimes 7 (by omega) (Wire.leafSpan s).startTimeUnixNano)).append
    (htimes 8 (by omega) (Wire.leafSpan s).endTimeUnixNano)).append
      (within_attrs 9 (by omega) s.attrs)).append hevents).append
        (within_nil 0)).append (within_status s)
  exact hall.mono (by omega)

/-! ### The batch -/

/-- The times do not count. -/
theorem boundSpan_view (e : Entry) (offset : UInt64) :
    boundSpan (e.view offset) = boundSpan (e.view 0) := by
  have hevents : ∀ time : UInt64, ((e.events.map fun ev : UInt64 × Bytes × List Attr =>
      (⟨ev.1 + time, ev.2.1, ev.2.2⟩ : EventView)).map boundEvent).sum =
        (e.events.map fun ev => boundEvent ⟨0, ev.2.1, ev.2.2⟩).sum := by
    intro time
    rw [List.map_map]
    rfl
  unfold boundSpan Entry.view
  dsimp only
  rw [hevents offset, hevents 0]

/-- The keys `build_batch` gives its attributes. -/
def reservedKeys : List Bytes :=
  [keyProto, keyTimeMode, keyEncodeTime, keySyncAge, keyBootId, keyDroppedSpans, keyDroppedItems]

theorem reservedAttrs_int {p : LeafParams} {v : LeafVars} {env : Callbacks} {a : Attr}
    (h : a ∈ reservedAttrs p v env) : ∃ key ∈ reservedKeys, ∃ i, a = intAttr key i := by
  have hone : ∀ (c : Prop) [Decidable c] (key : Bytes) (i : Int64), key ∈ reservedKeys →
      a ∈ (if c then [intAttr key i] else []) → ∃ key ∈ reservedKeys, ∃ i, a = intAttr key i := by
    intro c _ key i hkey ha
    split at ha
    · exact ⟨key, hkey, i, List.mem_singleton.mp ha⟩
    · exact absurd ha List.not_mem_nil
  simp only [reservedAttrs, List.mem_append, List.mem_cons, List.not_mem_nil, or_false] at h
  obtain ((((((rfl | rfl) | h) | h) | h) | h) | h) := h
  · exact ⟨keyProto, by simp [reservedKeys], _, rfl⟩
  · exact ⟨keyTimeMode, by simp [reservedKeys], _, rfl⟩
  · exact hone _ _ _ (by simp [reservedKeys]) h
  · exact hone _ _ _ (by simp [reservedKeys]) h
  · exact hone _ _ _ (by simp [reservedKeys]) h
  · exact hone _ _ _ (by simp [reservedKeys]) h
  · exact hone _ _ _ (by simp [reservedKeys]) h

theorem reservedKeys_length : ∀ key ∈ reservedKeys,
    0 < key.length ∧ key.length ≤ keyDroppedSpans.length := by
  decide

theorem boundKv_reserved {p : LeafParams} {v : LeafVars} {env : Callbacks} {a : Attr}
    (h : a ∈ reservedAttrs p v env) :
    a.key ≠ [] ∧ boundKv a ≤ boundKv ⟨keyDroppedSpans, .bool false⟩ := by
  obtain ⟨key, hkey, i, rfl⟩ := reservedAttrs_int h
  obtain ⟨hpos, hlength⟩ := reservedKeys_length key hkey
  refine ⟨List.ne_nil_of_length_pos hpos, ?_⟩
  simp only [boundKv, boundValue, boundField, intAttr]
  omega

theorem boundKv_reserved_sum (p : LeafParams) (v : LeafVars) (env : Callbacks) :
    ((reservedAttrs p v env).map boundKv).sum ≤
      maxReserved * boundKv ⟨keyDroppedSpans, .bool false⟩ := by
  have hsum := List.sum_le_card_nsmul ((reservedAttrs p v env).map boundKv)
    (boundKv ⟨keyDroppedSpans, .bool false⟩) (by
      intro n hn
      obtain ⟨a, ha, rfl⟩ := List.mem_map.mp hn
      exact (boundKv_reserved ha).2)
  rw [List.length_map, smul_eq_mul] at hsum
  exact hsum.trans (Nat.mul_le_mul_right _ (reservedAttrs_length p v env))

section

variable {st : LeafState} {S : Store} {cs : List UInt32} {ch : UInt16 → List UInt32}
  {w : Word32}

theorem Rep.viewOf_size (R : Rep st S cs ch) (V : S.Valid) :
    (viewOf w (sizeBatch st)).resource = S.resource ∧
      (viewOf w (sizeBatch st)).spans = S.endedEntries.map fun e => e.view 0 := by
  have hres : resourceList w (sizeBatch st) = S.resource ++ (sizeBatch st).reserved :=
    resourceList_eq R.persistent R.heap.arena.bufSize_le (Nat.zero_le _)
  have hspans := Rep.spanViews (w := w) (b := sizeBatch st) R V
  refine ⟨?_, hspans⟩
  change resourceList w (sizeBatch st) = S.resource
  rw [hres]
  exact List.append_nil _

/-- The bound of a store: what `encoded_size` sums up, from what the buffer holds. -/
def Store.bound (S : Store) : Nat :=
  boundField (boundField ((S.resource.map boundKv).sum +
      maxReserved * boundKv ⟨keyDroppedSpans, .bool false⟩) +
    boundField (boundField (boundField S.scopeName.length + boundField S.scopeVersion.length) +
      (S.endedEntries.map fun e => boundSpan (e.view 0)).sum))

theorem Rep.boundBatch (R : Rep st S cs ch) (V : S.Valid) :
    boundBatch st (viewOf w (sizeBatch st)) = S.bound := by
  obtain ⟨hresource, hspans⟩ := R.viewOf_size (w := w) V
  have hname : st.scopeNameLen.toNat = S.scopeName.length := by
    rw [← R.persistent.nameRead, ByteMemory.Mem.read_length]
  have hversion : st.scopeVersionLen.toNat = S.scopeVersion.length := by
    rw [← R.persistent.versionRead, ByteMemory.Mem.read_length]
  unfold Leaf.boundBatch Store.bound
  rw [hresource, hspans, hname, hversion, List.map_map]
  rfl

/-- The text of every batch of the store keeps within its bound. -/
theorem Store.within_bound (S : Store) (env : Callbacks) :
    Within (Wire.leafMessage (S.view env)).text S.bound := by
  have hresource : Within
      (Wire.Upb.resourceText ((S.view env).resource.map Wire.leafAttribute))
      ((S.resource.map boundKv).sum + maxReserved * boundKv ⟨keyDroppedSpans, .bool false⟩) := by
    refine (within_attrs 1 (by omega) (S.view env).resource).mono ?_
    have hreserved := boundKv_reserved_sum S.toLeafParams S.toLeafVars env
    change ((S.resource ++ reservedAttrs S.toLeafParams S.toLeafVars env).map boundKv).sum ≤ _
    rw [List.map_append, List.sum_append]
    omega
  have hspans : Within (encodeMessage (Wire.Upb.messageFields 2 Wire.Upb.Span.text
      ((S.view env).spans.map Wire.leafSpan)))
      (S.endedEntries.map fun e => boundSpan (e.view 0)).sum := by
    have heach : ∀ s ∈ (S.view env).spans,
        Within (encodeMessage [⟨2, .len (Wire.leafSpan s).text⟩]) (boundSpan s) :=
      fun s _ => within_span (by omega) s
    have hview : (S.view env).spans =
        S.endedEntries.map fun e => e.view (timeOffset S.toLeafParams S.toLeafVars) := rfl
    refine (within_messageFields heach).mono (Nat.le_of_eq ?_)
    rw [hview, List.map_map]
    exact congrArg List.sum (List.map_congr_left fun e _ => boundSpan_view e _)
  have hscope : Within (encodeMessage [⟨1, .len (Wire.Upb.Scope.text
        { name := S.scopeName, version := S.scopeVersion })⟩])
      (boundField (boundField S.scopeName.length + boundField S.scopeVersion.length)) := by
    refine within_len (by omega) ?_
    rw [Wire.Upb.Scope.text, Wire.Upb.Scope.fields, encodeMessage_append]
    exact (within_bytesField 1 (by omega) _).append (within_bytesField 2 (by omega) _)
  have hscopeSpans : Within (leafScopeSpans (S.view env)).text
      (boundField (boundField S.scopeName.length + boundField S.scopeVersion.length) +
        (S.endedEntries.map fun e => boundSpan (e.view 0)).sum) := by
    rw [Wire.Upb.ScopeSpans.text, Wire.Upb.ScopeSpans.fields, encodeMessage_append]
    exact hscope.append hspans
  have hresourceSpans : Within (leafResourceSpans (S.view env)).text
      (boundField ((S.resource.map boundKv).sum +
          maxReserved * boundKv ⟨keyDroppedSpans, .bool false⟩) +
        boundField (boundField (boundField S.scopeName.length + boundField S.scopeVersion.length) +
          (S.endedEntries.map fun e => boundSpan (e.view 0)).sum)) := by
    rw [Wire.Upb.ResourceSpans.text, Wire.Upb.ResourceSpans.fields, encodeMessage_append]
    exact (within_len (by omega) hresource).append (within_len (by omega) hscopeSpans)
  exact within_len (by omega) hresourceSpans

/-! ### The bound and the buffer -/

/-- What an item adds to the bound of its span. -/
def Item.bound : Item → Nat
  | .name text => text.length
  | .attr a => boundKv a
  | .event _ title attrs => boundEvent ⟨0, title, attrs⟩
  | .status text => text.length

/-- The bytes a span record and an item take make up for what their text adds. -/
theorem boundKv_le (a : Attr) : boundKv a ≤ 2 * a.bytes.length := by
  have hbytes := Attr.bytes_length a
  obtain ⟨key, value⟩ := a
  have hhdr : sizeofKvHdr = 24 := rfl
  cases value with
  | string s =>
      simp only [boundKv, boundValue, boundField, boundTag, boundLen, AttrValue.text] at hbytes ⊢
      omega
  | bool b =>
      simp only [boundKv, boundValue, boundField, boundTag, boundLen, boundVarint] at hbytes ⊢
      omega
  | int64 i =>
      simp only [boundKv, boundValue, boundField, boundTag, boundLen, boundVarint] at hbytes ⊢
      omega
  | double bits =>
      simp only [boundKv, boundValue, boundField, boundTag, boundLen, boundVarint] at hbytes ⊢
      omega

theorem boundKv_sum_le (attrs : List Attr) :
    (attrs.map boundKv).sum ≤ 2 * (attrs.flatMap Attr.bytes).length := by
  induction attrs with
  | nil => exact Nat.zero_le _
  | cons a attrs ih =>
      have ha := boundKv_le a
      rw [List.map_cons, List.sum_cons, List.flatMap_cons, List.length_append]
      omega

theorem Item.bound_le (item : Item) : item.bound ≤ 2 * (sizeofChunkHdr + item.bytes.length) := by
  have hhdr : sizeofChunkHdr = 24 := rfl
  cases item with
  | name text => simp only [Item.bound, Item.bytes]; omega
  | attr a =>
      have ha := boundKv_le a
      simp only [Item.bound, Item.bytes]
      omega
  | event time title attrs =>
      have hattrs := boundKv_sum_le attrs
      have henc := EventHdr.layout.enc_length
        ⟨time, UInt32.ofNat title.length, UInt32.ofNat attrs.length⟩
      have hevent : sizeofEventHdr = 16 := rfl
      simp only [Item.bound, Item.bytes, boundEvent, boundField, boundTag, boundLen, boundFixed64,
        List.length_append, henc, EventHdr.layout_size]
      omega
  | status text => simp only [Item.bound, Item.bytes]; omega

/-- What the events of a list of items add. -/
def eventsBound (cells : List Cell) : Nat :=
  ((pick Item.event? cells).map fun ev => boundEvent ⟨0, ev.2.1, ev.2.2⟩).sum

theorem cells_bound (cells : List Cell) :
    ((pick Item.name? cells).map List.length).sum +
      ((pick Item.status? cells).map List.length).sum +
      ((pick Item.attr? cells).map boundKv).sum + eventsBound cells =
      (cells.map fun c => c.item.bound).sum := by
  unfold eventsBound
  induction cells with
  | nil => rfl
  | cons c cells ih =>
      obtain ⟨item, cap⟩ := c
      simp only [pick_cons, List.map_cons, List.sum_cons, ← ih]
      cases item with
      | name text =>
          simp only [Item.name?, Item.status?, Item.attr?, Item.event?, Item.bound]
          simp
          omega
      | attr a =>
          simp only [Item.name?, Item.status?, Item.attr?, Item.event?, Item.bound]
          simp
          omega
      | event time title attrs =>
          simp only [Item.name?, Item.status?, Item.attr?, Item.event?, Item.bound]
          simp
          omega
      | status text =>
          simp only [Item.name?, Item.status?, Item.attr?, Item.event?, Item.bound]
          simp
          omega

theorem getLast_length_le (texts : List Bytes) :
    (texts.getLast?.getD []).length ≤ (texts.map List.length).sum := by
  cases h : texts.getLast? with
  | none => exact Nat.zero_le _
  | some text =>
      exact List.single_le_sum (fun _ _ => Nat.zero_le _) _
        (List.mem_map_of_mem (List.mem_of_getLast? h))

theorem Entry.bound_le {e : Entry} (h : ∀ c ∈ e.cells, c.item.bytes.length ≤ c.cap) :
    boundSpan (e.view 0) ≤ 2 * (sizeofSpanRec + e.bytes) := by
  have hrec : sizeofSpanRec = 72 := rfl
  have hnames := getLast_length_le e.names
  have hstatuses := getLast_length_le e.statuses
  have hcells := cells_bound e.cells
  have hevents : ((e.view 0).events.map boundEvent).sum = eventsBound e.cells := by
    change ((e.events.map fun ev : UInt64 × Bytes × List Attr =>
      (⟨ev.1 + 0, ev.2.1, ev.2.2⟩ : EventView)).map boundEvent).sum = _
    rw [List.map_map]
    rfl
  have hsum : (e.cells.map fun c => c.item.bound).sum ≤ 2 * e.bytes := by
    rw [Entry.bytes, ← List.sum_map_mul_left]
    refine List.sum_le_sum fun c hc => ?_
    have hitem := c.item.bound_le
    have hfits := h c hc
    rw [Cell.bytes]
    omega
  unfold boundSpan
  rw [hevents]
  simp only [Entry.view, Entry.names, Entry.statuses, Entry.attrs, boundField, boundTag, boundLen,
    boundVarint] at hnames hstatuses ⊢
  omega

theorem SlotHolds.fits {s : UInt16} {e : Entry} (h : SlotHolds st ch s e) :
    ∀ c ∈ e.cells, c.item.bytes.length ≤ c.cap := by
  have hcells := h.cells
  generalize (ch s).map (coreAt st) = cores at hcells
  generalize e.cells = cells at hcells
  induction hcells with
  | nil => exact List.forall_mem_nil _
  | cons hc _ ih => exact List.forall_mem_cons.mpr ⟨hc.fits, ih⟩

/-- The ended spans are among the slots of the table. -/
theorem Rep.ended_bound_le (R : Rep st S cs ch) (V : S.Valid) :
    (S.endedEntries.map fun e => boundSpan (e.view 0)).sum ≤ 2 * S.usedBytes := by
  have hslots : S.ended ⊆ slotsOf S.count := by
    intro s hs
    obtain ⟨e, he, -⟩ := (V.ended_iff s).mp hs
    exact Store.mem_slotsOf.mpr (V.bound s e he)
  obtain ⟨ended, hperm, hsub⟩ := List.subperm_of_subset V.ended_nodup hslots
  have hentry : ∀ s ∈ S.ended, ∃ e, S.entry s = some e ∧
      boundSpan (e.view 0) ≤ 2 * (sizeofSpanRec + Store.entryBytes (S.entry s)) := by
    intro s hs
    obtain ⟨e, he, -⟩ := (V.ended_iff s).mp hs
    have hlt : s < st.slotCount := by
      rw [R.count]
      exact V.bound s e he
    have hfits := (R.held s hlt e he).fits
    refine ⟨e, he, ?_⟩
    rw [he]
    exact Entry.bound_le hfits
  have hended : (S.endedEntries.map fun e => boundSpan (e.view 0)).sum ≤
      (S.ended.map fun s => 2 * (sizeofSpanRec + Store.entryBytes (S.entry s))).sum := by
    unfold Store.endedEntries
    generalize S.ended = slots at hentry
    induction slots with
    | nil => exact Nat.le_refl 0
    | cons s slots ih =>
        obtain ⟨⟨e, he, hle⟩, hrest⟩ := List.forall_mem_cons.mp hentry
        have htail := ih hrest
        rw [List.filterMap_cons_some he, List.map_cons, List.sum_cons, List.map_cons,
          List.sum_cons]
        omega
  have htable : (S.ended.map fun s => 2 * (sizeofSpanRec + Store.entryBytes (S.entry s))).sum ≤
      ((slotsOf S.count).map fun s => 2 * (sizeofSpanRec + Store.entryBytes (S.entry s))).sum := by
    rw [← (hperm.map _).sum_eq]
    exact (hsub.map _).sum_le_sum fun _ _ => Nat.zero_le _
  have hused : ((slotsOf S.count).map fun s =>
      2 * (sizeofSpanRec + Store.entryBytes (S.entry s))).sum = 2 * S.usedBytes := by
    have hcount : (slotsOf S.count).length = S.count.toNat := by simp [slotsOf]
    rw [List.sum_map_mul_left, List.sum_map_add, List.map_const', List.sum_replicate, hcount]
    rfl
  omega

/-- The bound is at most twice the record buffer, and the reserved attributes. -/
theorem Rep.bound_le (R : Rep st S cs ch) (V : S.Valid) :
    S.bound ≤ 2 * st.bufSize.toNat + 512 := by
  have hended := R.ended_bound_le V
  have hused := R.usedBytes_le
  have hcapacity := R.capacity
  have hfits := R.persistent.fits
  have hresource := boundKv_sum_le S.resource
  have hreserved : maxReserved * boundKv ⟨keyDroppedSpans, .bool false⟩ = 420 := by decide
  unfold Store.bound
  rw [hreserved]
  simp only [boundField, boundTag, boundLen]
  omega

/-- No key of a batch is empty. -/
theorem Store.Valid.keyed (V : S.Valid) (env : Callbacks) : (S.view env).Keyed where
  resource a ha := by
    rcases List.mem_append.mp ha with ha | ha
    · exact (V.resource_keys a ha).1
    · exact (boundKv_reserved ha).1
  spans s hs := by
    obtain ⟨e, he, rfl⟩ := List.mem_map.mp hs
    obtain ⟨slot, -, hentry⟩ := List.mem_filterMap.mp he
    have E := V.entries slot e hentry
    refine ⟨E.keys_ne, fun ev hev => ?_⟩
    obtain ⟨event, hevent, rfl⟩ := List.mem_map.mp hev
    exact E.event_keys_ne event hevent

/-! ### Encoding within the bound -/

/-- What the buffer of a leaf bounds, for counters that hold more than twice its size. -/
theorem encodedSize_spec (R : Rep st S cs ch) (V : S.Valid) {sizeMax : Nat}
    (hroom : 2 * st.bufSize.toNat + 512 < sizeMax) (env : Callbacks) :
    (batchView w st env).Keyed ∧
      (Wire.leafMessage (batchView w st env)).text.length ≤ encodedSize sizeMax w st ∧
      encodedSize sizeMax w st < sizeMax := by
  have hlive : checkLeaf st = .ok := by simp [checkLeaf, R.magic]
  have hbuf := R.heap.arena.bufSize_le
  have hmax : maxBuffer = 0xfffffff0 := rfl
  have hbound := R.bound_le V
  have hsize : encodedSize sizeMax w st = S.bound := by
    rw [encodedSize, if_neg (not_not.mpr hlive), R.boundBatch V, Nat.mod_eq_of_lt (by omega)]
  rw [R.batchView V env, hsize]
  exact ⟨V.keyed env, S.within_bound env (by omega), by omega⟩

end

section

variable {w : Word32} {leaf st₀ st : LeafState} {leafSize bufferSize : Nat} {config : Option Config}
  {buffer buffer' : Option ByteMemory.Mem} {calls : List (Callbacks × Call)} {os : List Outcome}

/-- What a live leaf's store says of the batch of an encode. -/
theorem batch_of_run
    (hinit : init w leaf leafSize config buffer bufferSize = (.ok, st₀, buffer'))
    (hrun : run w st₀ calls = some (st, os)) (hlive : checkLeaf st = .ok) {sizeMax : Nat}
    (hroom : 2 * st.bufSize.toNat + 512 < sizeMax) (env : Callbacks) :
    (batchView w st env).Keyed ∧
      (Wire.leafMessage (batchView w st env)).text.length ≤ encodedSize sizeMax w st ∧
      encodedSize sizeMax w st < sizeMax := by
  obtain ⟨c, S?, -, -, -, hfinal⟩ := run_tracks hinit hrun
  cases S? with
  | none =>
      have hmagic : st.magic ≠ leafMagic := hfinal
      simp [checkLeaf, hmagic] at hlive
  | some S =>
      obtain ⟨V, cs, ch, R⟩ := hfinal
      exact encodedSize_spec R V hroom env

theorem encode_live (hlive : checkLeaf st = .ok) (env : Callbacks) (backend : BatchView → Status) :
    encode w st env true backend =
      if backend (batchView w st env) = .ok then (releaseEnded w st, backend (batchView w st env))
      else (st, backend (batchView w st env)) := by
  simp [encode, hlive, encodeWith]

/-- After any run, an encode into a buffer of `encoded_size` bytes writes the text of the batch
and succeeds, whatever the clock reads by then. -/
theorem encode_into_bound
    (hinit : init w leaf leafSize config buffer bufferSize = (.ok, st₀, buffer'))
    (hrun : run w st₀ calls = some (st, os)) (hlive : checkLeaf st = .ok) {sizeMax : Nat}
    (hsize : sizeMax ≤ 2 ^ 64) (hroom : 2 * st.bufSize.toNat + 512 < sizeMax) (env : Callbacks)
    {cap : Nat} (hcap : encodedSize sizeMax w st ≤ cap) :
    let text := (Wire.leafMessage (batchView w st env)).text
    let encoded := encodeNanopb sizeMax (batchView w st env) (.buffer cap)
    encoded.status = .ok ∧ encoded.pieces.flatten = text ∧ encoded.written = text.length ∧
      text.length ≤ encodedSize sizeMax w st ∧
      (encode w st env true fun v => (encodeNanopb sizeMax v (.buffer cap)).status) =
        (releaseEnded w st, .ok) := by
  obtain ⟨hkeyed, hle, hless⟩ := batch_of_run hinit hrun hlive hroom env
  obtain ⟨hwritten, hfits, -⟩ := encodeNanopb_buffer hsize hkeyed (by omega) cap
  obtain ⟨hstatus, htext⟩ := hfits (by omega)
  refine ⟨hstatus, htext, hwritten, hle, ?_⟩
  rw [encode_live hlive, hstatus, if_pos rfl]

/-- After any run, an encode into a buffer that is too small reports the size of the text,
leaves a beginning of it in the buffer, and keeps the leaf as it is. -/
theorem encode_buffer_small
    (hinit : init w leaf leafSize config buffer bufferSize = (.ok, st₀, buffer'))
    (hrun : run w st₀ calls = some (st, os)) (hlive : checkLeaf st = .ok) {sizeMax : Nat}
    (hsize : sizeMax ≤ 2 ^ 64) (hroom : 2 * st.bufSize.toNat + 512 < sizeMax) (env : Callbacks)
    {cap : Nat} (hcap : cap < (Wire.leafMessage (batchView w st env)).text.length) :
    let text := (Wire.leafMessage (batchView w st env)).text
    let encoded := encodeNanopb sizeMax (batchView w st env) (.buffer cap)
    encoded.written = text.length ∧ encoded.pieces.flatten <+: text ∧
      encoded.pieces.flatten.length ≤ cap ∧
      (encode w st env true fun v => (encodeNanopb sizeMax v (.buffer cap)).status) =
        (st, .errBufferSmall) ∧
      (encode w st env true fun v => (encodeNanopb sizeMax v (.buffer text.length)).status) =
        (releaseEnded w st, .ok) := by
  obtain ⟨hkeyed, hle, hless⟩ := batch_of_run hinit hrun hlive hroom env
  obtain ⟨hwritten, -, hsmall⟩ := encodeNanopb_buffer hsize hkeyed (by omega) cap
  obtain ⟨hstatus, hprefix, hlength⟩ := hsmall hcap
  obtain ⟨-, hfits, -⟩ := encodeNanopb_buffer hsize hkeyed (by omega)
    (Wire.leafMessage (batchView w st env)).text.length
  refine ⟨hwritten, hprefix, hlength, ?_, ?_⟩
  · rw [encode_live hlive, hstatus, if_neg (by decide)]
  · rw [encode_live hlive, (hfits (Nat.le_refl _)).1, if_pos rfl]

/-- After any run, `microtel_leaf_encode_to` offers every callback the same pieces, in the same
order. The spans are released when all are taken; a callback that refuses one sees no more of
them, and the leaf keeps its spans. -/
theorem encode_to_pieces
    (hinit : init w leaf leafSize config buffer bufferSize = (.ok, st₀, buffer'))
    (hrun : run w st₀ calls = some (st, os)) (hlive : checkLeaf st = .ok) {sizeMax : Nat}
    (hsize : sizeMax ≤ 2 ^ 64) (hroom : 2 * st.bufSize.toNat + 512 < sizeMax) (env : Callbacks) :
    ∃ pieces : List Bytes,
      pieces.flatten = (Wire.leafMessage (batchView w st env)).text ∧ [] ∉ pieces ∧
      ∀ takes : List Bytes → Bytes → Bool,
        (OutStream.Taken takes [] pieces ∧
          encodeNanopb sizeMax (batchView w st env) (.write takes) =
            ⟨.ok, pieces.flatten.length, pieces⟩ ∧
          (encode w st env true fun v => (encodeNanopb sizeMax v (.write takes)).status) =
            (releaseEnded w st, .ok)) ∨
        ∃ part piece more, pieces = part ++ piece :: more ∧ OutStream.Taken takes [] part ∧
          takes part piece = false ∧
          encodeNanopb sizeMax (batchView w st env) (.write takes) = ⟨.errEncode, 0, part⟩ ∧
          (encode w st env true fun v => (encodeNanopb sizeMax v (.write takes)).status) =
            (st, .errEncode) := by
  obtain ⟨hkeyed, hle, hless⟩ := batch_of_run hinit hrun hlive hroom env
  obtain ⟨pieces, htext, hnonempty, hsink⟩ := encodeNanopb_write hsize hkeyed (by omega)
  refine ⟨pieces, htext, hnonempty, fun takes => ?_⟩
  obtain ⟨hall, hrefused⟩ := hsink takes
  by_cases htaken : OutStream.Taken takes [] pieces
  · have hencoded := hall htaken
    refine .inl ⟨htaken, by rw [hencoded, htext], ?_⟩
    rw [encode_live hlive, hencoded, if_pos rfl]
  · obtain ⟨part, piece, more, hsplit, hpart, hpiece, hencoded⟩ := hrefused htaken
    refine .inr ⟨part, piece, more, hsplit, hpart, hpiece, hencoded, ?_⟩
    rw [encode_live hlive, hencoded, if_neg (by simp)]

theorem AbstractLeaf.step_isSome (A : AbstractLeaf) (env : Callbacks) {call : Call} (o : Outcome)
    (h : call ≠ .free) : ∃ A', A.step env call o = some A' := by
  cases call with
  | free => exact absurd rfl h
  | spanStart | spanStartRemote => exact ⟨_, rfl⟩
  | setAttribute | addEvent =>
      simp only [AbstractLeaf.step]
      split <;> exact ⟨_, rfl⟩
  | setStatus | spanEnd | clockSync | encode | encodeTo =>
      simp only [AbstractLeaf.step]
      split <;> exact ⟨_, rfl⟩

theorem AbstractLeaf.run_isSome (A : AbstractLeaf) (calls : List (Callbacks × Call))
    (os : List Outcome) (h : ∀ x ∈ calls, x.2 ≠ .free) :
    ∃ A', AbstractLeaf.run (some A) calls os = some A' := by
  induction calls generalizing A os with
  | nil => exact ⟨A, rfl⟩
  | cons x calls ih =>
      obtain ⟨hcall, hcalls⟩ := List.forall_mem_cons.mp h
      cases os with
      | nil => exact ⟨A, rfl⟩
      | cons o os =>
          obtain ⟨A', hstep⟩ := A.step_isSome x.1 o hcall
          rw [AbstractLeaf.run, hstep]
          exact ih A' os hcalls

/-- Only `free` ends a leaf. -/
theorem live_of_run {c : Config}
    (hinit : init w leaf leafSize (some c) buffer bufferSize = (.ok, st₀, buffer'))
    (hrun : run w st₀ calls = some (st, os)) (hfree : ∀ x ∈ calls, x.2 ≠ .free) :
    checkLeaf st = .ok := by
  obtain ⟨c', S?, hc, hvalid, hstore, hfinal⟩ := run_tracks hinit hrun
  obtain rfl := Option.some.inj hc
  have hrel := (Models.init c (min bufferSize maxBuffer)).run (Store.init_valid hvalid _) hstore
  obtain ⟨A, hA⟩ := (AbstractLeaf.init c).run_isSome calls os hfree
  rw [hA] at hrel
  cases hrel with
  | some M =>
      obtain ⟨V, cs, ch, R⟩ := hfinal
      exact R.checkLeaf

end

theorem leafMessage_text_pos (v : BatchView) : 0 < (Wire.leafMessage v).text.length := by
  have htag := (ProtoWire.encodeVarint_text (8 * 1 + 2)).ne_nil
  have hlength := List.length_pos_of_ne_nil htag
  rw [Wire.Upb.Request.text]
  change 0 < (ProtoWire.encodeVarint (8 * 1 + 2) ++ _ ++ _).length
  rw [List.length_append, List.length_append]
  omega

theorem pump_reached :
    ∃ st os, run Word32.wrap pumpInit.2.1 pumpCalls = some (st, os) ∧ checkLeaf st = .ok ∧
      2 * st.bufSize.toNat + 512 < 2 ^ 64 := by
  obtain ⟨⟨st, os⟩, hrun⟩ := pumpRun_some
  have hfree : ∀ x ∈ pumpCalls, x.2 ≠ .free := by
    simp [pumpCalls]
  have hsize := st.bufSize.toNat_lt
  exact ⟨st, os, hrun, live_of_run pumpInit_ok hrun hfree, by omega⟩

theorem encode_into_bound_pump :
    ∃ st os, run Word32.wrap pumpInit.2.1 pumpCalls = some (st, os) ∧
      let text := (Wire.leafMessage (batchView Word32.wrap st pumpEnv)).text
      let encoded := encodeNanopb (2 ^ 64) (batchView Word32.wrap st pumpEnv)
        (.buffer (encodedSize (2 ^ 64) Word32.wrap st))
      encoded.status = .ok ∧ encoded.pieces.flatten = text ∧ encoded.written = text.length ∧
        text.length ≤ encodedSize (2 ^ 64) Word32.wrap st ∧
        (encode Word32.wrap st pumpEnv true fun v => (encodeNanopb (2 ^ 64) v
          (.buffer (encodedSize (2 ^ 64) Word32.wrap st))).status) =
          (releaseEnded Word32.wrap st, .ok) := by
  obtain ⟨st, os, hrun, hlive, hroom⟩ := pump_reached
  exact ⟨st, os, hrun, encode_into_bound pumpInit_ok hrun hlive (Nat.le_refl _) hroom pumpEnv
    (Nat.le_refl _)⟩

/-- A span that is started and ended. -/
def endedCalls : List (Callbacks × Call) :=
  [(pumpEnv, .spanStart false (.items (ascii "read")) (some .internal) none),
    (pumpEnv, .spanEnd 0x10000)]

theorem encode_buffer_small_pump :
    ∃ st os, run Word32.wrap pumpInit.2.1 endedCalls = some (st, os) ∧
      let text := (Wire.leafMessage (batchView Word32.wrap st pumpEnv)).text
      let encoded := encodeNanopb (2 ^ 64) (batchView Word32.wrap st pumpEnv) (.buffer 64)
      64 < text.length ∧
        encoded.written = text.length ∧ encoded.pieces.flatten <+: text ∧
        encoded.pieces.flatten.length ≤ 64 ∧
        (encode Word32.wrap st pumpEnv true fun v =>
          (encodeNanopb (2 ^ 64) v (.buffer 64)).status) = (st, .errBufferSmall) ∧
        (encode Word32.wrap st pumpEnv true fun v =>
          (encodeNanopb (2 ^ 64) v (.buffer text.length)).status) =
          (releaseEnded Word32.wrap st, .ok) := by
  have hlong : ((run Word32.wrap pumpInit.2.1 endedCalls).map fun r =>
      decide (64 < (Wire.leafMessage (batchView Word32.wrap r.1 pumpEnv)).text.length)) =
        some true := by
    decide +kernel
  obtain ⟨⟨st, os⟩, hrun, hcap⟩ := Option.map_eq_some_iff.mp hlong
  have hfree : ∀ x ∈ endedCalls, x.2 ≠ .free := by
    simp [endedCalls]
  have hsize := st.bufSize.toNat_lt
  refine ⟨st, os, hrun, of_decide_eq_true hcap, ?_⟩
  exact encode_buffer_small pumpInit_ok hrun (live_of_run pumpInit_ok hrun hfree)
    (Nat.le_refl _) (by omega) pumpEnv (of_decide_eq_true hcap)

theorem encode_to_pieces_pump :
    ∃ st os, run Word32.wrap pumpInit.2.1 pumpCalls = some (st, os) ∧
      ∃ pieces : List Bytes,
        pieces.flatten = (Wire.leafMessage (batchView Word32.wrap st pumpEnv)).text ∧
        (encode Word32.wrap st pumpEnv true fun v =>
          (encodeNanopb (2 ^ 64) v (.write fun _ _ => false)).status) = (st, .errEncode) := by
  obtain ⟨st, os, hrun, hlive, hroom⟩ := pump_reached
  obtain ⟨pieces, htext, -, hsink⟩ :=
    encode_to_pieces pumpInit_ok hrun hlive (Nat.le_refl _) hroom pumpEnv
  refine ⟨st, os, hrun, pieces, htext, ?_⟩
  rcases hsink fun _ _ => false with ⟨htaken, -, -⟩ | ⟨-, -, -, -, -, -, -, hkept⟩
  · -- a callback that takes nothing takes all pieces only when there are none
    have hpos := leafMessage_text_pos (batchView Word32.wrap st pumpEnv)
    cases pieces with
    | nil => rw [← htext] at hpos; exact absurd hpos (Nat.lt_irrefl 0)
    | cons piece pieces => exact absurd htaken.1 Bool.false_ne_true
  · exact hkept

end Microtel.Leaf
