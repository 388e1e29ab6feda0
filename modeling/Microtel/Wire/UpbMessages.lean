import Microtel.Wire.RequestText
import Microtel.Wire.UpbEncode

/-!
The messages of an export request by their MiniTables (`gen/opentelemetry`): all fields of
each, those without a member here at their defaults. What the encoder writes of them is the
text of the request, and none is too deep for it.
-/

namespace Microtel.Wire.Upb

open UpbEncode

/-! ### MiniTables -/

/-- `AnyValue`, whose members share their memory. -/
structure AnyValueMembers where
  which : FieldNumber := 0
  stringValue : Bytes := []
  boolValue : Bool := false
  intValue : UInt64 := 0
  doubleValue : UInt64 := 0
  arrayValue : Option Message := none
  kvlistValue : Option Message := none
  bytesValue : Bytes := []
  stringIndex : Int32 := 0

def AnyValueMembers.toMessage (m : AnyValueMembers) : Message :=
  .mk
    [⟨1, .oneof m.which, .string m.stringValue⟩,
     ⟨2, .oneof m.which, .bool m.boolValue⟩,
     ⟨3, .oneof m.which, .uint64 m.intValue⟩,
     ⟨4, .oneof m.which, .fixed64 m.doubleValue⟩,
     ⟨5, .oneof m.which, .message m.arrayValue⟩,
     ⟨6, .oneof m.which, .message m.kvlistValue⟩,
     ⟨7, .oneof m.which, .string m.bytesValue⟩,
     ⟨8, .oneof m.which, .int32 m.stringIndex⟩]

/-- `ArrayValue` and `KeyValueList`. -/
def listMessage (values : List Message) : Message := .mk [⟨1, .implicit, .messages values⟩]

def keyValueMessage (key : Bytes) (value : Option Message) : Message :=
  .mk
    [⟨1, .implicit, .string key⟩,
     ⟨2, .hasbit value.isSome, .message value⟩,
     ⟨3, .implicit, .int32 0⟩]

mutual

def AnyValue.toMessage : AnyValue → Message
  | .notSet => AnyValueMembers.toMessage {}
  | .string v => AnyValueMembers.toMessage { which := 1, stringValue := v }
  | .bool v => AnyValueMembers.toMessage { which := 2, boolValue := v }
  | .int v => AnyValueMembers.toMessage { which := 3, intValue := v.toUInt64 }
  | .double bits => AnyValueMembers.toMessage { which := 4, doubleValue := bits }
  | .array values =>
      AnyValueMembers.toMessage
        { which := 5, arrayValue := some (listMessage (AnyValue.arrayMessages values)) }
  | .kvlist values =>
      AnyValueMembers.toMessage
        { which := 6, kvlistValue := some (listMessage (AnyValue.kvlistMessages values)) }
  | .bytes v => AnyValueMembers.toMessage { which := 7, bytesValue := v }
  | .stringIndex v => AnyValueMembers.toMessage { which := 8, stringIndex := v }

def AnyValue.arrayMessages : List AnyValue → List Message
  | [] => []
  | v :: vs => v.toMessage :: AnyValue.arrayMessages vs

def AnyValue.kvlistMessages : List (KeyValueOf AnyValue) → List Message
  | [] => []
  | ⟨key, none⟩ :: kvs => keyValueMessage key none :: AnyValue.kvlistMessages kvs
  | ⟨key, some v⟩ :: kvs => keyValueMessage key (some v.toMessage) :: AnyValue.kvlistMessages kvs

end

def KeyValueOf.toMessage (kv : KeyValue) : Message :=
  keyValueMessage kv.key (kv.value.map AnyValue.toMessage)

def Scope.toMessage (s : Scope) : Message :=
  .mk
    [⟨1, .implicit, .string s.name⟩,
     ⟨2, .implicit, .string s.version⟩,
     ⟨3, .implicit, .messages []⟩,
     ⟨4, .implicit, .uint32 0⟩]

def Event.toMessage (e : Event) : Message :=
  .mk
    [⟨1, .implicit, .fixed64 e.timeUnixNano⟩,
     ⟨2, .implicit, .string e.name⟩,
     ⟨3, .implicit, .messages (e.attributes.map KeyValueOf.toMessage)⟩,
     ⟨4, .implicit, .uint32 0⟩]

def Link.toMessage (l : Link) : Message :=
  .mk
    [⟨1, .implicit, .string l.traceId⟩,
     ⟨2, .implicit, .string l.spanId⟩,
     ⟨3, .implicit, .string []⟩,
     ⟨4, .implicit, .messages (l.attributes.map KeyValueOf.toMessage)⟩,
     ⟨5, .implicit, .uint32 0⟩,
     ⟨6, .implicit, .fixed32 0⟩]

def Status.toMessage (s : Status) : Message :=
  .mk [⟨2, .implicit, .string s.message⟩, ⟨3, .implicit, .int32 s.code⟩]

def Span.toMessage (s : Span) : Message :=
  .mk
    [⟨1, .implicit, .string s.traceId⟩,
     ⟨2, .implicit, .string s.spanId⟩,
     ⟨3, .implicit, .string []⟩,
     ⟨4, .implicit, .string s.parentSpanId⟩,
     ⟨5, .implicit, .string s.name⟩,
     ⟨6, .implicit, .int32 s.kind⟩,
     ⟨7, .implicit, .fixed64 s.startTimeUnixNano⟩,
     ⟨8, .implicit, .fixed64 s.endTimeUnixNano⟩,
     ⟨9, .implicit, .messages (s.attributes.map KeyValueOf.toMessage)⟩,
     ⟨10, .implicit, .uint32 0⟩,
     ⟨11, .implicit, .messages (s.events.map Event.toMessage)⟩,
     ⟨12, .implicit, .uint32 0⟩,
     ⟨13, .implicit, .messages (s.links.map Link.toMessage)⟩,
     ⟨14, .implicit, .uint32 0⟩,
     ⟨15, .hasbit s.status.isSome, .message (s.status.map Status.toMessage)⟩,
     ⟨16, .implicit, .fixed32 0⟩]

def ScopeSpans.toMessage (s : ScopeSpans) : Message :=
  .mk
    [⟨1, .hasbit s.scope.isSome, .message (s.scope.map Scope.toMessage)⟩,
     ⟨2, .implicit, .messages (s.spans.map Span.toMessage)⟩,
     ⟨3, .implicit, .string []⟩]

def resourceMessage (attributes : List KeyValue) : Message :=
  .mk
    [⟨1, .implicit, .messages (attributes.map KeyValueOf.toMessage)⟩,
     ⟨2, .implicit, .uint32 0⟩,
     ⟨3, .implicit, .messages []⟩]

def ResourceSpans.toMessage (rs : ResourceSpans) : Message :=
  .mk
    [⟨1, .hasbit rs.resource.isSome, .message (rs.resource.map resourceMessage)⟩,
     ⟨2, .implicit, .messages (rs.scopeSpans.map ScopeSpans.toMessage)⟩,
     ⟨3, .implicit, .string []⟩]

def Request.toMessage (req : Request) : Message :=
  .mk [⟨1, .implicit, .messages (req.resourceSpans.map ResourceSpans.toMessage)⟩]

/-! ### Their fields -/

@[simp] theorem bytesField_nil (number : Nat) : bytesField number [] = [] := rfl

section

variable (number : FieldNumber)

@[simp] theorem fieldOf_noMessages : fieldOf ⟨number, .implicit, .messages []⟩ = [] := rfl

@[simp] theorem fieldOf_noCount : fieldOf ⟨number, .implicit, .uint32 0⟩ = [] := rfl

@[simp] theorem fieldOf_noFlags : fieldOf ⟨number, .implicit, .fixed32 0⟩ = [] := rfl

end

theorem fieldOf_string (number : FieldNumber) (v : Bytes) :
    fieldOf ⟨number, .implicit, .string v⟩ = bytesField number v := by
  cases v <;> rfl

theorem fieldOf_fixed64 (number : FieldNumber) (v : UInt64) :
    fieldOf ⟨number, .implicit, .fixed64 v⟩ = fixed64Field number v := by
  rw [fieldOf, fixed64Field]
  by_cases h : v = 0 <;> simp [shouldEncode, ValueOf.nonzero, valueFields, fixed64Content, h]

/-- The sign of an `int32` is extended, and its zeros are kept. -/
theorem toUInt64_eq_zero (v : Int32) : v.toInt64.toUInt64 = 0 ↔ v = 0 := by
  constructor
  · intro h
    have hlong : v.toInt64 = 0 := congrArg UInt64.toInt64 h
    have hvalue : v.toInt64.toInt = 0 := by rw [hlong]; rfl
    rw [Int32.toInt_toInt64] at hvalue
    exact Int32.toInt_inj.mp hvalue
  · rintro rfl
    rfl

theorem fieldOf_int32 (number : FieldNumber) (v : Int32) :
    fieldOf ⟨number, .implicit, .int32 v⟩ = int32Field number v := by
  have hzero := toUInt64_eq_zero v
  rw [fieldOf, int32Field, varintField]
  by_cases h : v = 0
  · rw [if_pos (hzero.mpr h)]
    simp [shouldEncode, ValueOf.nonzero, h]
  · rw [if_neg fun hlong => h (hzero.mp hlong)]
    simp [shouldEncode, ValueOf.nonzero, valueFields, h]

/-- A repeated field: the texts of the messages that its items stand for. -/
theorem fieldOf_messages {α : Type} {message : α → Message} {text : α → Bytes}
    (number : FieldNumber) {items : List α} (h : ∀ x ∈ items, (message x).text = text x) :
    fieldOf ⟨number, .implicit, .messages (items.map message)⟩ =
      messageFields number text items := by
  cases items with
  | nil => rfl
  | cons x xs =>
      change messagesFields number ((x :: xs).map message) = _
      rw [messagesFields_eq, List.map_map, messageFields]
      exact List.map_congr_left fun y hy => by rw [Function.comp_apply, h y hy]

/-- A submessage with a hasbit. -/
theorem fieldOf_optional {α : Type} {message : α → Message} {text : α → Bytes}
    (number : FieldNumber) {item : Option α} (h : ∀ x ∈ item, (message x).text = text x) :
    fieldOf ⟨number, .hasbit item.isSome, .message (item.map message)⟩ =
      messageFields number text item.toList := by
  cases item with
  | none => rfl
  | some x =>
      change [(⟨number, .len (message x).text⟩ : ProtoWire.Field)] = [⟨number, .len (text x)⟩]
      rw [h x rfl]

theorem keyValueMessage_none (key : Bytes) :
    (keyValueMessage key none).fields = bytesField 1 key := by
  change fieldOf ⟨1, .implicit, .string key⟩ ++ [] = _
  rw [fieldOf_string, List.append_nil]
  rfl

theorem keyValueMessage_some (key : Bytes) (m : Message) :
    (keyValueMessage key (some m)).fields = bytesField 1 key ++ [⟨2, .len m.text⟩] := by
  change fieldOf ⟨1, .implicit, .string key⟩ ++ [(⟨2, .len m.text⟩ : ProtoWire.Field)] = _
  rw [fieldOf_string]
  rfl

theorem listMessage_fields (values : List Message) :
    (listMessage values).fields = messagesFields 1 values := by
  cases values with
  | nil => rfl
  | cons m ms => exact List.append_nil _

mutual

theorem AnyValue.toMessage_fields (v : AnyValue) : v.toMessage.fields = v.fields := by
  cases v with
  | notSet => rfl
  | string v => rfl
  | bool v => rfl
  | int v => rfl
  | double bits => rfl
  | array values =>
      have hvalues := AnyValue.arrayMessages_fields values
      change [(⟨5, .len (listMessage (AnyValue.arrayMessages values)).text⟩ : ProtoWire.Field)] = _
      rw [Message.text, listMessage_fields, hvalues]
      rfl
  | kvlist values =>
      have hvalues := AnyValue.kvlistMessages_fields values
      change [(⟨6, .len (listMessage (AnyValue.kvlistMessages values)).text⟩ :
        ProtoWire.Field)] = _
      rw [Message.text, listMessage_fields, hvalues]
      rfl
  | bytes v => rfl
  | stringIndex v => rfl

theorem AnyValue.arrayMessages_fields (values : List AnyValue) :
    messagesFields 1 (AnyValue.arrayMessages values) = AnyValue.arrayFields values := by
  cases values with
  | nil => rfl
  | cons v vs =>
      rw [AnyValue.arrayMessages, messagesFields, AnyValue.toMessage_fields v,
        AnyValue.arrayMessages_fields vs]
      rfl

theorem AnyValue.kvlistMessages_fields (values : List (KeyValueOf AnyValue)) :
    messagesFields 1 (AnyValue.kvlistMessages values) = AnyValue.kvlistFields values := by
  cases values with
  | nil => rfl
  | cons kv kvs =>
      obtain ⟨key, value⟩ := kv
      cases value with
      | none =>
          rw [AnyValue.kvlistMessages, messagesFields, keyValueMessage_none,
            AnyValue.kvlistMessages_fields kvs]
          rfl
      | some v =>
          rw [AnyValue.kvlistMessages, messagesFields, keyValueMessage_some, Message.text,
            AnyValue.toMessage_fields v, AnyValue.kvlistMessages_fields kvs]
          rfl

end

theorem text_of_fields {m : Message} {fields : List ProtoWire.Field} (h : m.fields = fields) :
    m.text = ProtoWire.encodeMessage fields := by
  rw [Message.text, h]

theorem KeyValueOf.toMessage_text (kv : KeyValue) : kv.toMessage.text = kv.text := by
  apply text_of_fields
  obtain ⟨key, value⟩ := kv
  cases value with
  | none => exact (keyValueMessage_none key).trans (List.append_nil _).symm
  | some v =>
      refine (keyValueMessage_some key v.toMessage).trans ?_
      rw [text_of_fields (AnyValue.toMessage_fields v)]
      rfl

/-- The fields of a message one by one. -/
theorem fields_mk (fields : List (FieldOf Message)) :
    (Message.mk fields).fields = fields.flatMap fieldOf := by
  rw [Message.fields, fieldsOf_eq]

theorem Scope.toMessage_text (s : Scope) : s.toMessage.text = s.text := by
  apply text_of_fields
  rw [Scope.toMessage, fields_mk]
  simp [fieldOf_string, Scope.fields]

theorem Event.toMessage_text (e : Event) : e.toMessage.text = e.text := by
  apply text_of_fields
  have hattributes := fieldOf_messages 3 fun kv (_ : kv ∈ e.attributes) => kv.toMessage_text
  rw [Event.toMessage, fields_mk]
  simp [fieldOf_fixed64, fieldOf_string, hattributes, Event.fields]

theorem Link.toMessage_text (l : Link) : l.toMessage.text = l.text := by
  apply text_of_fields
  have hattributes := fieldOf_messages 4 fun kv (_ : kv ∈ l.attributes) => kv.toMessage_text
  rw [Link.toMessage, fields_mk]
  simp [fieldOf_string, hattributes, Link.fields]

theorem Status.toMessage_text (s : Status) : s.toMessage.text = s.text := by
  apply text_of_fields
  rw [Status.toMessage, fields_mk]
  simp [fieldOf_string, fieldOf_int32, Status.fields]

theorem Span.toMessage_text (s : Span) : s.toMessage.text = s.text := by
  apply text_of_fields
  have hattributes := fieldOf_messages 9 fun kv (_ : kv ∈ s.attributes) => kv.toMessage_text
  have hevents := fieldOf_messages 11 fun e (_ : e ∈ s.events) => e.toMessage_text
  have hlinks := fieldOf_messages 13 fun l (_ : l ∈ s.links) => l.toMessage_text
  have hstatus := fieldOf_optional 15 fun st (_ : st ∈ s.status) => st.toMessage_text
  rw [Span.toMessage, fields_mk]
  simp [fieldOf_string, fieldOf_int32, fieldOf_fixed64, hattributes, hevents, hlinks, hstatus,
    Span.fields]

theorem ScopeSpans.toMessage_text (s : ScopeSpans) : s.toMessage.text = s.text := by
  apply text_of_fields
  have hscope := fieldOf_optional 1 fun sc (_ : sc ∈ s.scope) => sc.toMessage_text
  have hspans := fieldOf_messages 2 fun sp (_ : sp ∈ s.spans) => sp.toMessage_text
  rw [ScopeSpans.toMessage, fields_mk]
  simp [fieldOf_string, hscope, hspans, ScopeSpans.fields]

theorem resourceMessage_text (attributes : List KeyValue) :
    (resourceMessage attributes).text = resourceText attributes := by
  apply text_of_fields
  have hattributes := fieldOf_messages 1 fun kv (_ : kv ∈ attributes) => kv.toMessage_text
  rw [resourceMessage, fields_mk]
  simp [hattributes]

theorem ResourceSpans.toMessage_text (rs : ResourceSpans) : rs.toMessage.text = rs.text := by
  apply text_of_fields
  have hresource := fieldOf_optional 1 fun kvs (_ : kvs ∈ rs.resource) => resourceMessage_text kvs
  have hscopes := fieldOf_messages 2 fun ss (_ : ss ∈ rs.scopeSpans) => ss.toMessage_text
  rw [ResourceSpans.toMessage, fields_mk]
  simp [fieldOf_string, hresource, hscopes, ResourceSpans.fields]

/-- What is written of a request by its MiniTables is its text. -/
theorem Request.toMessage_text (req : Request) : req.toMessage.text = req.text := by
  apply text_of_fields
  have hresources := fieldOf_messages 1 fun rs (_ : rs ∈ req.resourceSpans) => rs.toMessage_text
  rw [Request.toMessage, fields_mk]
  simp [hresources, Request.fields]

/-! ### Their depth -/

variable {depth : Nat}

theorem fits_mk {fields : List (FieldOf Message)}
    (h : ∀ m ∈ fields.flatMap fun f => f.value.submessages, Fits depth m) :
    Fits (depth + 1) (.mk fields) :=
  fun _ hf _ m hm => h m (List.mem_flatMap_of_mem hf hm)

theorem fits_each {α : Type} {message : α → Message} {items : List α}
    (h : ∀ x ∈ items, Fits depth (message x)) : ∀ m ∈ items.map message, Fits depth m := by
  rintro m hm
  obtain ⟨x, hx, rfl⟩ := List.mem_map.mp hm
  exact h x hx

theorem fits_optional {α : Type} {message : α → Message} {item : Option α}
    (h : ∀ x ∈ item, Fits depth (message x)) :
    ∀ m ∈ (item.map message).toList, Fits depth m := by
  cases item with
  | none => exact fun m hm => absurd hm List.not_mem_nil
  | some x => exact fun m hm => List.mem_singleton.mp hm ▸ h x rfl

/-- A value of this many levels: a scalar is one, an array of scalars three. -/
def KeyValueOf.Levels (depth : Nat) (kv : KeyValue) : Prop :=
  ∀ v ∈ kv.value, Fits depth v.toMessage

def Event.Levels (depth : Nat) (e : Event) : Prop := ∀ kv ∈ e.attributes, kv.Levels depth

def Link.Levels (depth : Nat) (l : Link) : Prop := ∀ kv ∈ l.attributes, kv.Levels depth

structure Span.Levels (depth : Nat) (s : Span) : Prop where
  attributes : ∀ kv ∈ s.attributes, kv.Levels depth
  events : ∀ e ∈ s.events, e.Levels depth
  links : ∀ l ∈ s.links, l.Levels depth

structure ResourceSpans.Levels (depth : Nat) (rs : ResourceSpans) : Prop where
  resource : ∀ kvs ∈ rs.resource, ∀ kv ∈ kvs, kv.Levels depth
  spans : ∀ ss ∈ rs.scopeSpans, ∀ s ∈ ss.spans, s.Levels depth

/-- No attribute value of the request has more levels. -/
def Request.Levels (depth : Nat) (req : Request) : Prop :=
  ∀ rs ∈ req.resourceSpans, rs.Levels depth

theorem KeyValueOf.fits {kv : KeyValue} (h : kv.Levels depth) :
    Fits (depth + 1) kv.toMessage := by
  have hvalue := fits_optional h
  refine fits_mk ?_
  simpa [ValueOf.submessages] using hvalue

theorem Event.fits {e : Event} (h : e.Levels depth) : Fits (depth + 2) e.toMessage := by
  have hattributes := fits_each fun kv hkv => KeyValueOf.fits (h kv hkv)
  refine fits_mk ?_
  simpa [ValueOf.submessages] using hattributes

theorem Link.fits {l : Link} (h : l.Levels depth) : Fits (depth + 2) l.toMessage := by
  have hattributes := fits_each fun kv hkv => KeyValueOf.fits (h kv hkv)
  refine fits_mk ?_
  simpa [ValueOf.submessages] using hattributes

theorem Scope.fits (s : Scope) : Fits (depth + 1) s.toMessage :=
  fits_mk fun _ hm => absurd hm List.not_mem_nil

theorem Status.fits (s : Status) : Fits (depth + 1) s.toMessage :=
  fits_mk fun _ hm => absurd hm List.not_mem_nil

theorem Span.fits {s : Span} (h : s.Levels depth) : Fits (depth + 3) s.toMessage := by
  have hattributes := fits_each fun kv hkv => (KeyValueOf.fits (h.attributes kv hkv)).step
  have hevents := fits_each fun e he => Event.fits (h.events e he)
  have hlinks := fits_each fun l hl => Link.fits (h.links l hl)
  have hstatus : ∀ m ∈ (s.status.map Status.toMessage).toList, Fits (depth + 2) m :=
    fits_optional fun st _ => st.fits
  refine fits_mk ?_
  simp only [List.flatMap_cons, List.flatMap_nil, ValueOf.submessages, List.nil_append,
    List.append_nil, List.forall_mem_append]
  exact ⟨hattributes, hevents, hlinks, hstatus⟩

theorem ScopeSpans.fits {ss : ScopeSpans} (h : ∀ s ∈ ss.spans, s.Levels depth) :
    Fits (depth + 4) ss.toMessage := by
  have hscope : ∀ m ∈ (ss.scope.map Scope.toMessage).toList, Fits (depth + 3) m :=
    fits_optional fun sc _ => sc.fits
  have hspans := fits_each fun s hs => Span.fits (h s hs)
  refine fits_mk ?_
  simp only [List.flatMap_cons, List.flatMap_nil, ValueOf.submessages, List.append_nil,
    List.forall_mem_append]
  exact ⟨hscope, hspans⟩

theorem resourceMessage_fits {attributes : List KeyValue} (h : ∀ kv ∈ attributes, kv.Levels depth) :
    Fits (depth + 2) (resourceMessage attributes) := by
  have hattributes := fits_each fun kv hkv => KeyValueOf.fits (h kv hkv)
  refine fits_mk ?_
  simpa [ValueOf.submessages] using hattributes

theorem ResourceSpans.fits {rs : ResourceSpans} (h : rs.Levels depth) :
    Fits (depth + 5) rs.toMessage := by
  have hresource := fits_optional fun kvs hkvs =>
    (resourceMessage_fits (h.resource kvs hkvs)).step.step
  have hscopes := fits_each fun ss hss => ScopeSpans.fits (h.spans ss hss)
  refine fits_mk ?_
  simp only [List.flatMap_cons, List.flatMap_nil, ValueOf.submessages, List.append_nil,
    List.forall_mem_append]
  exact ⟨hresource, hscopes⟩

/-- The messages of a request lie six levels above its attribute values. -/
theorem Request.fits {req : Request} (h : req.Levels depth) :
    Fits (depth + 6) req.toMessage := by
  have hresources := fits_each fun rs hrs => ResourceSpans.fits (h rs hrs)
  refine fits_mk ?_
  simpa [ValueOf.submessages] using hresources

end Microtel.Wire.Upb
