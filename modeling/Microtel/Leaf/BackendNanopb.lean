import Microtel.Leaf.PbEncode
import Microtel.Wire.LeafMessage
import Microtel.Wire.RequestText

/-!
The nanopb backend (`leaf/src/backend_nanopb.c`): the message structs it fills, as fields in
the order of their descriptors, with the callbacks that walk the batch, and its entry point.
-/

namespace Microtel.Leaf

open OutStream Pb

section

variable (sizeMax : Nat)

/-! ### Strings -/

def writeString (octets : Bytes) (tag : UInt16) : Encoder :=
  (encodeTag sizeMax .string tag).andThen (encodeString sizeMax octets)

def encodeStr (s : Bytes) (tag : UInt16) : Encoder :=
  if s.length = 0 then done else writeString sizeMax s tag

/-- `set_str`: the string behind a callback. -/
def strField (tag : UInt16) (s : Bytes) : Field :=
  ⟨tag, .singular, .callback (some (encodeStr sizeMax s))⟩

/-- A string that is not set. -/
def noString (tag : UInt16) : Field := ⟨tag, .singular, .callback none⟩

def noList (tag : UInt16) : Field := ⟨tag, .repeated, .callback none⟩

def encodeKvKey (kv : Attr) (tag : UInt16) : Encoder := writeString sizeMax kv.key tag

/-! ### Attributes -/

/-- `opentelemetry_proto_common_v1_AnyValue`: the members `fill_kv` sets. -/
structure AnyValueMsg where
  whichValue : UInt16
  stringValue : Option (UInt16 → Encoder) := none
  boolValue : Bool := false
  intValue : Int64 := 0
  doubleValue : UInt64 := 0

def AnyValueMsg.fields (m : AnyValueMsg) : List Field :=
  [⟨1, .oneof m.whichValue, .callback m.stringValue⟩,
   ⟨2, .oneof m.whichValue, .static (.bool m.boolValue)⟩,
   ⟨3, .oneof m.whichValue, .static (.varint m.intValue)⟩,
   ⟨4, .oneof m.whichValue, .static (.fixed64 m.doubleValue)⟩,
   ⟨5, .oneof m.whichValue, .static (.submessage [noList 1])⟩,
   ⟨6, .oneof m.whichValue, .static (.submessage [noList 1])⟩,
   ⟨7, .oneof m.whichValue, .callback none⟩,
   ⟨8, .oneof m.whichValue, .static (.varint 0)⟩]

def fillValue : AttrValue → AnyValueMsg
  | .bool b => { whichValue := 2, boolValue := b }
  | .int64 i => { whichValue := 3, intValue := i }
  | .double bits => { whichValue := 4, doubleValue := bits }
  | .string s => { whichValue := 1, stringValue := some (writeString sizeMax s) }

def fillKv (kv : Attr) : List Field :=
  [⟨1, .singular, .callback (some (encodeKvKey sizeMax kv))⟩,
   ⟨2, .optional true, .static (.submessage (fillValue sizeMax kv.value).fields)⟩,
   ⟨3, .singular, .static (.varint 0)⟩]

/-- A repeated field: `fill` makes the message of an item, and the loop ends at the first that
is not written. -/
def encodeEach {α : Type} (fill : α → List Field) (items : List α) (tag : UInt16) : Encoder :=
  inOrder (items.map fun item =>
    (encodeTag sizeMax .string tag).andThen
      (encodeSubmessage sizeMax (pbEncode sizeMax (fill item))))

def encodeAttrs (attrs : List Attr) (tag : UInt16) : Encoder :=
  encodeEach sizeMax (fillKv sizeMax) attrs tag

/-! ### Events and spans -/

def fillEvent (ev : EventView) : List Field :=
  [⟨1, .singular, .static (.fixed64 ev.timeUnixNano)⟩,
   strField sizeMax 2 ev.name,
   ⟨3, .repeated, .callback (some (encodeAttrs sizeMax ev.attrs))⟩,
   ⟨4, .singular, .static (.uvarint 0)⟩]

def encodeEvents (events : List EventView) (tag : UInt16) : Encoder :=
  encodeEach sizeMax (fillEvent sizeMax) events tag

def fillStatus (s : SpanView) : List Field :=
  [strField sizeMax 2 s.statusMessage,
   ⟨3, .singular, .static (.uvarint s.statusCode.toUInt64)⟩]

def fillSpan (s : SpanView) : List Field :=
  [⟨1, .singular, .static (.fixedLengthBytes s.traceId.toList)⟩,
   ⟨2, .singular, .static (.fixedLengthBytes s.spanId.toList)⟩,
   noString 3,
   ⟨4, .singular, .static (.bytes ((s.parentSpanId.map Vector.toList).getD []))⟩,
   strField sizeMax 5 s.name,
   ⟨6, .singular, .static (.uvarint s.kind.toUInt64)⟩,
   ⟨7, .singular, .static (.fixed64 s.startTimeUnixNano)⟩,
   ⟨8, .singular, .static (.fixed64 s.endTimeUnixNano)⟩,
   ⟨9, .repeated, .callback (some (encodeAttrs sizeMax s.attrs))⟩,
   ⟨10, .singular, .static (.uvarint 0)⟩,
   ⟨11, .repeated, .callback (some (encodeEvents sizeMax s.events))⟩,
   ⟨12, .singular, .static (.uvarint 0)⟩,
   noList 13,
   ⟨14, .singular, .static (.uvarint 0)⟩,
   ⟨15, .optional s.hasStatus, .static (.submessage (fillStatus sizeMax s))⟩,
   ⟨16, .singular, .static (.fixed32 0)⟩]

def encodeSpans (spans : List SpanView) (tag : UInt16) : Encoder :=
  encodeEach sizeMax (fillSpan sizeMax) spans tag

/-! ### The single ResourceSpans and ScopeSpans -/

def fillScope (v : BatchView) : List Field :=
  [strField sizeMax 1 v.scopeName, strField sizeMax 2 v.scopeVersion, noList 3,
   ⟨4, .singular, .static (.uvarint 0)⟩]

def fillScopeSpans (v : BatchView) : List Field :=
  [⟨1, .optional true, .static (.submessage (fillScope sizeMax v))⟩,
   ⟨2, .repeated, .callback (some (encodeSpans sizeMax v.spans))⟩,
   noString 3]

def encodeScopeSpans (v : BatchView) (tag : UInt16) : Encoder :=
  encodeEach sizeMax (fillScopeSpans sizeMax) [v] tag

def fillResource (v : BatchView) : List Field :=
  [⟨1, .repeated, .callback (some (encodeAttrs sizeMax v.resource))⟩,
   ⟨2, .singular, .static (.uvarint 0)⟩,
   noList 3]

def fillResourceSpans (v : BatchView) : List Field :=
  [⟨1, .optional true, .static (.submessage (fillResource sizeMax v))⟩,
   ⟨2, .repeated, .callback (some (encodeScopeSpans sizeMax v))⟩,
   noString 3]

def encodeResourceSpans (v : BatchView) (tag : UInt16) : Encoder :=
  encodeEach sizeMax (fillResourceSpans sizeMax) [v] tag

/-! ### Entry point -/

/-- `ExportTraceServiceRequest`. -/
def fillRequest (v : BatchView) : List Field :=
  [⟨1, .repeated, .callback (some (encodeResourceSpans sizeMax v))⟩]

/-- A buffer of this capacity, or a callback that may refuse a piece. -/
inductive Sink
  | buffer (cap : Nat)
  | write (takes : List Bytes → Bytes → Bool)

/-- The status, `*written`, and the pieces the buffer or the callback was given. -/
structure Encoded where
  status : Status
  written : Nat
  pieces : List Bytes

/-- The stream a sink stands for; `SIZE_MAX` is the limit of a callback. -/
def Sink.stream : Sink → OutStream.Stream UInt8
  | .buffer cap => { consumer := some fun _ _ => true, limit := cap }
  | .write takes => { consumer := some takes, limit := sizeMax - 1 }

def encodeNanopb (v : BatchView) (sink : Sink) : Encoded :=
  let body := pbEncode sizeMax (fillRequest sizeMax v)
  let (ok, stream) := body (sink.stream sizeMax)
  if ok then ⟨.ok, stream.written, stream.pieces⟩
  else
    match sink with
    | .buffer _ =>
        let (ok, sizing) := body {}
        if ok then ⟨.errBufferSmall, sizing.written, stream.pieces⟩
        else ⟨.errEncode, 0, stream.pieces⟩
    | .write _ => ⟨.errEncode, 0, stream.pieces⟩

/-! ### What the fields offer -/

variable {sizeMax : Nat}

theorem encodeMessage_append (fs gs : List ProtoWire.Field) :
    ProtoWire.encodeMessage (fs ++ gs) =
      ProtoWire.encodeMessage fs ++ ProtoWire.encodeMessage gs :=
  List.flatMap_append

theorem emits_writeString (hsize : sizeMax ≤ 2 ^ 64) (octets : Bytes) (tag : UInt16) :
    Emits sizeMax (writeString sizeMax octets tag)
      (ProtoWire.encodeMessage [⟨tag.toNat, .len octets⟩]) := by
  rw [ProtoWire.encodeMessage, List.flatMap_singleton]
  exact (emits_tag .string tag).andThen (emits_string hsize octets)

theorem emits_strField (hsize : sizeMax ≤ 2 ^ 64) (tag : UInt16) (s : Bytes) :
    Emits sizeMax (encodeField sizeMax (strField sizeMax tag s))
      (ProtoWire.encodeMessage (Wire.Upb.bytesField tag.toNat s)) := by
  refine emits_callback rfl ?_
  rw [encodeStr, Wire.Upb.bytesField]
  by_cases h : s = []
  · subst h
    exact emits_done
  · rw [if_neg (by simpa using h), if_neg h]
    exact emits_writeString hsize s tag

/-- A repeated field offers the texts of the messages its items stand for. -/
theorem emits_each (hsize : sizeMax ≤ 2 ^ 64) {α M : Type} {fill : α → List Field}
    {message : α → M} {text : M → Bytes} {items : List α}
    (h : ∀ x ∈ items, Emits sizeMax (pbEncode sizeMax (fill x)) (text (message x)))
    (tag : UInt16) :
    Emits sizeMax (encodeField sizeMax
        ⟨tag, .repeated, .callback (some (encodeEach sizeMax fill items))⟩)
      (ProtoWire.encodeMessage
        (Wire.Upb.messageFields tag.toNat text (items.map message))) := by
  refine emits_callback rfl ?_
  rw [Wire.Upb.messageFields, List.map_map, ProtoWire.encodeMessage, List.flatMap_map]
  exact emits_inOrder fun x hx => emits_message hsize tag (h x hx)

/-- A static field without presence: its text, or nothing where it has its default. -/
theorem emits_singular (hsize : sizeMax ≤ 2 ^ 64) (tag : UInt16) (data : Data)
    {content : ProtoWire.Content} (hcontent : data.content = some content) :
    Emits sizeMax (encodeField sizeMax ⟨tag, .singular, .static data⟩)
      (ProtoWire.encodeMessage (if checkDefault data then [] else [⟨tag.toNat, content⟩])) := by
  by_cases h : checkDefault data = true
  · rw [if_pos h]
    exact emits_silent (by simp [silent, present, checkProto3Default, h])
  · rw [if_neg h]
    exact emits_scalar hsize hcontent (by simp [present, checkProto3Default, h])

theorem emits_bytes (hsize : sizeMax ≤ 2 ^ 64) (tag : UInt16) (v : Bytes) :
    Emits sizeMax (encodeField sizeMax ⟨tag, .singular, .static (.bytes v)⟩)
      (ProtoWire.encodeMessage (Wire.Upb.bytesField tag.toNat v)) := by
  have h := emits_singular hsize tag (.bytes v) rfl
  simpa [checkDefault, Wire.Upb.bytesField] using h

theorem emits_fixed64 (hsize : sizeMax ≤ 2 ^ 64) (tag : UInt16) (v : UInt64) :
    Emits sizeMax (encodeField sizeMax ⟨tag, .singular, .static (.fixed64 v)⟩)
      (ProtoWire.encodeMessage (Wire.Upb.fixed64Field tag.toNat v)) := by
  have h := emits_singular hsize tag (.fixed64 v) rfl
  simpa [checkDefault, Wire.Upb.fixed64Field, Wire.Upb.fixed64Content] using h

/-- A code of an enumeration, which no sign extends. -/
theorem toUInt64_code (code : UInt8) :
    (Int32.ofNat code.toNat).toInt64.toUInt64 = code.toUInt64 := by
  have hcode := code.toNat_lt
  rw [Int32.toInt64_ofNat' (by rw [Int32.toInt_maxValue]; omega)]
  apply UInt64.toNat_inj.mp
  rw [UInt8.toNat_toUInt64]
  exact UInt64.toNat_ofNat_of_lt' (Nat.lt_trans hcode (by decide))

theorem emits_code (hsize : sizeMax ≤ 2 ^ 64) (tag : UInt16) (code : UInt8) :
    Emits sizeMax (encodeField sizeMax ⟨tag, .singular, .static (.uvarint code.toUInt64)⟩)
      (ProtoWire.encodeMessage
        (Wire.Upb.int32Field tag.toNat (Int32.ofNat code.toNat))) := by
  have h := emits_singular hsize tag (.uvarint code.toUInt64) rfl
  rw [Wire.Upb.int32Field, toUInt64_code, Wire.Upb.varintField]
  simpa only [checkDefault, decide_eq_true_eq] using h

/-! ### What the messages offer -/

theorem AnyValueMsg.fields_oneof (m : AnyValueMsg) :
    ∀ f ∈ m.fields, f.htype = .oneof m.whichValue := by
  simp [AnyValueMsg.fields]

theorem AnyValueMsg.fields_tags (m : AnyValueMsg) : (m.fields.map FieldOf.tag).Nodup := by
  change [(1 : UInt16), 2, 3, 4, 5, 6, 7, 8].Nodup
  decide

/-- The member `fill_kv` sets is the one that is written. -/
theorem AnyValueMsg.emits {m : AnyValueMsg} {field : Field} {text : Bytes}
    (hfield : field ∈ m.fields) (htag : field.tag = m.whichValue)
    (h : Emits sizeMax (encodeField sizeMax field) text) :
    Emits sizeMax (pbEncode sizeMax m.fields) text :=
  emits_oneof m.fields_oneof m.fields_tags hfield htag h

theorem emits_value (hsize : sizeMax ≤ 2 ^ 64) (value : AttrValue) :
    Emits sizeMax (pbEncode sizeMax (fillValue sizeMax value).fields)
      (Wire.leafValue value).text := by
  cases value with
  | bool b =>
      have hfield : Emits sizeMax (encodeField sizeMax ⟨2, .oneof 2, .static (.bool b)⟩)
          (Wire.leafValue (.bool b)).text := emits_scalar hsize rfl rfl
      exact AnyValueMsg.emits (by simp [fillValue, AnyValueMsg.fields]) rfl hfield
  | int64 i =>
      have hfield : Emits sizeMax (encodeField sizeMax ⟨3, .oneof 3, .static (.varint i)⟩)
          (Wire.leafValue (.int64 i)).text := emits_scalar hsize rfl rfl
      exact AnyValueMsg.emits (by simp [fillValue, AnyValueMsg.fields]) rfl hfield
  | double bits =>
      have hfield : Emits sizeMax (encodeField sizeMax ⟨4, .oneof 4, .static (.fixed64 bits)⟩)
          (Wire.leafValue (.double bits)).text := emits_scalar hsize rfl rfl
      exact AnyValueMsg.emits (by simp [fillValue, AnyValueMsg.fields]) rfl hfield
  | string s =>
      have hfield : Emits sizeMax
          (encodeField sizeMax ⟨1, .oneof 1, .callback (some (writeString sizeMax s))⟩)
          (Wire.leafValue (.string s)).text := emits_callback rfl (emits_writeString hsize s 1)
      exact AnyValueMsg.emits (by simp [fillValue, AnyValueMsg.fields]) rfl hfield

/-- Keys are written even when they are empty, which upb would leave out. -/
def Keyed (attrs : List Attr) : Prop := ∀ a ∈ attrs, a.key ≠ []

theorem emits_kv (hsize : sizeMax ≤ 2 ^ 64) {kv : Attr} (hkey : kv.key ≠ []) :
    Emits sizeMax (pbEncode sizeMax (fillKv sizeMax kv)) (Wire.leafAttribute kv).text := by
  have hfirst : Emits sizeMax
      (encodeField sizeMax ⟨1, .singular, .callback (some (encodeKvKey sizeMax kv))⟩)
      (ProtoWire.encodeMessage (Wire.Upb.bytesField 1 kv.key)) := by
    rw [Wire.Upb.bytesField, if_neg hkey]
    exact emits_callback rfl (emits_writeString hsize kv.key 1)
  rw [Wire.Upb.KeyValueOf.text, Wire.Upb.KeyValueOf.fields, encodeMessage_append]
  refine emits_cons hfirst (emits_last ?_ (List.forall_mem_singleton.mpr rfl))
  exact emits_optional hsize (emits_value hsize kv.value)

theorem emits_attrs (hsize : sizeMax ≤ 2 ^ 64) (tag : UInt16) {attrs : List Attr}
    (h : Keyed attrs) :
    Emits sizeMax (encodeField sizeMax
        ⟨tag, .repeated, .callback (some (encodeAttrs sizeMax attrs))⟩)
      (ProtoWire.encodeMessage (Wire.Upb.messageFields tag.toNat Wire.Upb.KeyValueOf.text
        (attrs.map Wire.leafAttribute))) :=
  emits_each hsize (fun kv hkv => emits_kv hsize (h kv hkv)) tag

theorem emits_event (hsize : sizeMax ≤ 2 ^ 64) {ev : EventView} (h : Keyed ev.attrs) :
    Emits sizeMax (pbEncode sizeMax (fillEvent sizeMax ev)) (Wire.leafEvent ev).text := by
  rw [Wire.Upb.Event.text, Wire.Upb.Event.fields, encodeMessage_append, encodeMessage_append,
    List.append_assoc]
  exact emits_cons (emits_fixed64 hsize 1 ev.timeUnixNano)
    (emits_cons (emits_strField hsize 2 ev.name)
      (emits_last (emits_attrs hsize 3 h) (List.forall_mem_singleton.mpr rfl)))

theorem emits_status (hsize : sizeMax ≤ 2 ^ 64) (s : SpanView) :
    Emits sizeMax (pbEncode sizeMax (fillStatus sizeMax s))
      (Wire.Upb.Status.text
        { message := s.statusMessage, code := Int32.ofNat s.statusCode.toNat }) := by
  rw [Wire.Upb.Status.text, Wire.Upb.Status.fields, encodeMessage_append]
  exact emits_cons (emits_strField hsize 2 s.statusMessage)
    (emits_last (emits_code hsize 3 s.statusCode) (List.forall_mem_nil _))

theorem emits_id (hsize : sizeMax ≤ 2 ^ 64) (tag : UInt16) {n : Nat} (id : Vector UInt8 (n + 1)) :
    Emits sizeMax (encodeField sizeMax ⟨tag, .singular, .static (.fixedLengthBytes id.toList)⟩)
      (ProtoWire.encodeMessage (Wire.Upb.bytesField tag.toNat id.toList)) := by
  have hid : id.toList ≠ [] := by
    intro hnil
    have hlength := congrArg List.length hnil
    simp at hlength
  have h := emits_singular hsize tag (.fixedLengthBytes id.toList) rfl
  rw [Wire.Upb.bytesField, if_neg hid]
  simpa [checkDefault] using h

theorem emits_span (hsize : sizeMax ≤ 2 ^ 64) {s : SpanView} (hattrs : Keyed s.attrs)
    (hevents : ∀ ev ∈ s.events, Keyed ev.attrs) :
    Emits sizeMax (pbEncode sizeMax (fillSpan sizeMax s)) (Wire.leafSpan s).text := by
  have hlist : Emits sizeMax (encodeField sizeMax
        ⟨11, .repeated, .callback (some (encodeEvents sizeMax s.events))⟩)
      (ProtoWire.encodeMessage (Wire.Upb.messageFields 11 Wire.Upb.Event.text
        (s.events.map Wire.leafEvent))) :=
    emits_each hsize (fun ev hev => emits_event hsize (hevents ev hev)) 11
  have hstatus : Emits sizeMax (encodeField sizeMax
        ⟨15, .optional s.hasStatus, .static (.submessage (fillStatus sizeMax s))⟩)
      (ProtoWire.encodeMessage (Wire.Upb.messageFields 15 Wire.Upb.Status.text
        (Wire.leafStatus s).toList)) := by
    rw [Wire.leafStatus]
    cases s.hasStatus with
    | false => exact emits_silent rfl
    | true => exact emits_optional hsize (emits_status hsize s)
  rw [Wire.Upb.Span.text, Wire.Upb.Span.fields]
  simp only [encodeMessage_append, List.append_assoc]
  refine emits_cons (emits_id hsize 1 s.traceId) (emits_cons (emits_id hsize 2 s.spanId)
    (emits_silent_cons rfl ?_))
  refine emits_cons (emits_bytes hsize 4 _) (emits_cons (emits_strField hsize 5 s.name)
    (emits_cons (emits_code hsize 6 s.kind) ?_))
  refine emits_cons (emits_fixed64 hsize 7 _) (emits_cons (emits_fixed64 hsize 8 _)
    (emits_cons (emits_attrs hsize 9 hattrs) (emits_silent_cons rfl ?_)))
  refine emits_cons hlist (emits_silent_cons rfl (emits_silent_cons rfl
    (emits_silent_cons rfl ?_)))
  exact emits_last hstatus (List.forall_mem_singleton.mpr rfl)

/-- No attribute of the batch has an empty key. -/
structure BatchView.Keyed (v : BatchView) : Prop where
  resource : Leaf.Keyed v.resource
  spans : ∀ s ∈ v.spans, Leaf.Keyed s.attrs ∧ ∀ ev ∈ s.events, Leaf.Keyed ev.attrs

theorem emits_scope (hsize : sizeMax ≤ 2 ^ 64) (v : BatchView) :
    Emits sizeMax (pbEncode sizeMax (fillScope sizeMax v))
      (Wire.Upb.Scope.text { name := v.scopeName, version := v.scopeVersion }) := by
  rw [Wire.Upb.Scope.text, Wire.Upb.Scope.fields, encodeMessage_append]
  refine emits_cons (emits_strField hsize 1 v.scopeName)
    (emits_last (emits_strField hsize 2 v.scopeVersion) ?_)
  exact List.forall_mem_cons.mpr ⟨rfl, List.forall_mem_singleton.mpr rfl⟩

/-- The single `ScopeSpans` of a batch. -/
def leafScopeSpans (v : BatchView) : Wire.Upb.ScopeSpans where
  scope := some { name := v.scopeName, version := v.scopeVersion }
  spans := v.spans.map Wire.leafSpan

theorem emits_scopeSpans (hsize : sizeMax ≤ 2 ^ 64) {v : BatchView} (h : v.Keyed) :
    Emits sizeMax (pbEncode sizeMax (fillScopeSpans sizeMax v)) (leafScopeSpans v).text := by
  have hspans : Emits sizeMax (encodeField sizeMax
        ⟨2, .repeated, .callback (some (encodeSpans sizeMax v.spans))⟩)
      (ProtoWire.encodeMessage (Wire.Upb.messageFields 2 Wire.Upb.Span.text
        (v.spans.map Wire.leafSpan))) :=
    emits_each hsize (fun s hs => emits_span hsize (h.spans s hs).1 (h.spans s hs).2) 2
  rw [Wire.Upb.ScopeSpans.text, Wire.Upb.ScopeSpans.fields, encodeMessage_append]
  refine emits_cons (emits_optional hsize (emits_scope hsize v)) (emits_last hspans ?_)
  exact List.forall_mem_singleton.mpr rfl

/-- The single `ResourceSpans` of a batch. -/
def leafResourceSpans (v : BatchView) : Wire.Upb.ResourceSpans where
  resource := some (v.resource.map Wire.leafAttribute)
  scopeSpans := [leafScopeSpans v]

theorem emits_resourceSpans (hsize : sizeMax ≤ 2 ^ 64) {v : BatchView} (h : v.Keyed) :
    Emits sizeMax (pbEncode sizeMax (fillResourceSpans sizeMax v))
      (leafResourceSpans v).text := by
  have hresource : Emits sizeMax (pbEncode sizeMax (fillResource sizeMax v))
      (Wire.Upb.resourceText (v.resource.map Wire.leafAttribute)) :=
    emits_last (emits_attrs hsize 1 h.resource)
      (List.forall_mem_cons.mpr ⟨rfl, List.forall_mem_singleton.mpr rfl⟩)
  have hscopes : Emits sizeMax (encodeField sizeMax
        ⟨2, .repeated, .callback (some (encodeScopeSpans sizeMax v))⟩)
      (ProtoWire.encodeMessage
        (Wire.Upb.messageFields 2 Wire.Upb.ScopeSpans.text ([v].map leafScopeSpans))) :=
    emits_each hsize (List.forall_mem_singleton.mpr (emits_scopeSpans hsize h)) 2
  rw [Wire.Upb.ResourceSpans.text, Wire.Upb.ResourceSpans.fields, encodeMessage_append]
  exact emits_cons (emits_optional hsize hresource)
    (emits_last hscopes (List.forall_mem_singleton.mpr rfl))

/-- The backend writes the text of the message. -/
theorem emits_request (hsize : sizeMax ≤ 2 ^ 64) {v : BatchView} (h : v.Keyed) :
    Emits sizeMax (pbEncode sizeMax (fillRequest sizeMax v)) (Wire.leafMessage v).text := by
  have hresources : Emits sizeMax (encodeField sizeMax
        ⟨1, .repeated, .callback (some (encodeResourceSpans sizeMax v))⟩)
      (ProtoWire.encodeMessage
        (Wire.Upb.messageFields 1 Wire.Upb.ResourceSpans.text ([v].map leafResourceSpans))) :=
    emits_each hsize (List.forall_mem_singleton.mpr (emits_resourceSpans hsize h)) 1
  exact emits_last hresources (List.forall_mem_nil _)

/-! ### What the sink gets -/

/-- Into a buffer: the text if it fits; otherwise its size, and a beginning of it. -/
theorem encodeNanopb_buffer (hsize : sizeMax ≤ 2 ^ 64) {v : BatchView} (h : v.Keyed)
    (hlength : (Wire.leafMessage v).text.length < sizeMax) (cap : Nat) :
    (encodeNanopb sizeMax v (.buffer cap)).written = (Wire.leafMessage v).text.length ∧
      ((Wire.leafMessage v).text.length ≤ cap →
        (encodeNanopb sizeMax v (.buffer cap)).status = .ok ∧
        (encodeNanopb sizeMax v (.buffer cap)).pieces.flatten = (Wire.leafMessage v).text) ∧
      (cap < (Wire.leafMessage v).text.length →
        (encodeNanopb sizeMax v (.buffer cap)).status = .errBufferSmall ∧
        (encodeNanopb sizeMax v (.buffer cap)).pieces.flatten <+: (Wire.leafMessage v).text ∧
        (encodeNanopb sizeMax v (.buffer cap)).pieces.flatten.length ≤ cap) := by
  obtain ⟨pieces, htext, -, hwrites⟩ := emits_request hsize h hlength
  have hpieces : size pieces = (Wire.leafMessage v).text.length := by rw [size, htext]
  have htaken : Taken (fun _ _ => true) [] pieces := taken_of_all (fun _ _ => rfl) [] pieces
  by_cases hfits : (Wire.leafMessage v).text.length ≤ cap
  · have hrun := hwrites.writes (Sink.stream sizeMax (.buffer cap)) _ rfl
      (by change 0 + size pieces < sizeMax; omega) (by change 0 + size pieces ≤ cap; omega) htaken
    have hresult : encodeNanopb sizeMax v (.buffer cap) =
        ⟨.ok, (Wire.leafMessage v).text.length, pieces⟩ := by
      rw [encodeNanopb]
      simp only [hrun]
      simp [Sink.stream, hpieces]
    rw [hresult]
    exact ⟨rfl, fun _ => ⟨rfl, htext⟩, fun hless => absurd hfits (Nat.not_le.mpr hless)⟩
  · obtain ⟨stream, hrun, part, piece, more, hsplit, hstream, -, hroom, -⟩ := hwrites.fails
      (Sink.stream sizeMax (.buffer cap)) _ rfl (by change 0 + size pieces < sizeMax; omega)
      (Nat.zero_le _) (fun hall => hfits (by
        have hle : 0 + size pieces ≤ cap := hall.1
        omega))
    have hcount := hwrites.counts {} rfl (by change 0 < sizeMax; omega)
    have hmod : size pieces % sizeMax = (Wire.leafMessage v).text.length := by
      rw [Nat.mod_eq_of_lt (by omega), hpieces]
    have hresult : encodeNanopb sizeMax v (.buffer cap) =
        ⟨.errBufferSmall, (Wire.leafMessage v).text.length, part⟩ := by
      rw [encodeNanopb]
      simp only [hrun, hcount]
      simp [Sink.stream, OutStream.Stream.count, hmod, hstream]
    have hpart : part.flatten.length ≤ cap := by
      change 0 + size part ≤ cap at hroom
      rwa [Nat.zero_add] at hroom
    rw [hresult]
    refine ⟨rfl, fun hle => absurd hle hfits, fun _ => ⟨rfl, ?_, hpart⟩⟩
    rw [← htext, hsplit, List.flatten_append]
    exact List.prefix_append _ _

/-- Into a callback: the pieces are the same for every callback and make up the text; the
encode succeeds when all are taken, and otherwise ends at the first that is refused. -/
theorem encodeNanopb_write (hsize : sizeMax ≤ 2 ^ 64) {v : BatchView} (h : v.Keyed)
    (hlength : (Wire.leafMessage v).text.length < sizeMax) :
    ∃ pieces : List Bytes, pieces.flatten = (Wire.leafMessage v).text ∧ [] ∉ pieces ∧
      ∀ takes : List Bytes → Bytes → Bool,
        (Taken takes [] pieces →
          encodeNanopb sizeMax v (.write takes) =
            ⟨.ok, (Wire.leafMessage v).text.length, pieces⟩) ∧
        (¬ Taken takes [] pieces →
          ∃ part piece more, pieces = part ++ piece :: more ∧ Taken takes [] part ∧
            takes part piece = false ∧
            encodeNanopb sizeMax v (.write takes) = ⟨.errEncode, 0, part⟩) := by
  obtain ⟨pieces, htext, hnonempty, hwrites⟩ := emits_request hsize h hlength
  have hpieces : size pieces = (Wire.leafMessage v).text.length := by rw [size, htext]
  refine ⟨pieces, htext, hnonempty, fun takes => ⟨fun htaken => ?_, fun htaken => ?_⟩⟩
  · have hrun := hwrites.writes (Sink.stream sizeMax (.write takes)) _ rfl
      (by change 0 + size pieces < sizeMax; omega)
      (by change 0 + size pieces ≤ sizeMax - 1; omega) htaken
    rw [encodeNanopb]
    simp only [hrun]
    simp [Sink.stream, hpieces]
  · obtain ⟨stream, hrun, part, piece, more, hsplit, hstream, hpart, -, hstop⟩ := hwrites.fails
      (Sink.stream sizeMax (.write takes)) _ rfl (by change 0 + size pieces < sizeMax; omega)
      (Nat.zero_le _) (fun hall => htaken hall.2)
    refine ⟨part, piece, more, hsplit, hpart, ?_, ?_⟩
    · refine hstop.resolve_left fun hless => ?_
      change sizeMax - 1 < 0 + size pieces at hless
      omega
    · rw [encodeNanopb]
      simp only [hrun]
      simp [Sink.stream, hstream]

end

end Microtel.Leaf
