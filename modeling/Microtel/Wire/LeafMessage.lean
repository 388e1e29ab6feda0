import Microtel.Leaf.Batch
import Microtel.Wire.RoundTrip

/-!
The message an encoder backend writes for a batch of a leaf, by the rules of
`leaf/src/leaf_internal.h`, and what `OtlpTraceDecoder` makes of it.
-/

namespace Microtel.Wire

open Leaf (AttrValue Attr EventView SpanView BatchView)

/-! ### The message -/

def leafValue : AttrValue → Upb.AnyValue
  | .bool b => .bool b
  | .int64 i => .int i
  | .double bits => .double bits
  | .string s => .string s

def leafAttribute (a : Attr) : Upb.KeyValue := { key := a.key, value := some (leafValue a.value) }

def leafEvent (ev : EventView) : Upb.Event where
  timeUnixNano := ev.timeUnixNano
  name := ev.name
  attributes := ev.attrs.map leafAttribute

/-- `Span.status` is there only when `has_status` is set. -/
def leafStatus (s : SpanView) : Option Upb.Status :=
  if s.hasStatus then
    some { message := s.statusMessage, code := Int32.ofNat s.statusCode.toNat }
  else none

/-- `parent_span_id` is there only when it is not null. -/
def leafSpan (s : SpanView) : Upb.Span where
  traceId := s.traceId.toList
  spanId := s.spanId.toList
  parentSpanId := (s.parentSpanId.map Vector.toList).getD []
  name := s.name
  kind := Int32.ofNat s.kind.toNat
  startTimeUnixNano := s.startTimeUnixNano
  endTimeUnixNano := s.endTimeUnixNano
  attributes := s.attrs.map leafAttribute
  events := s.events.map leafEvent
  status := leafStatus s

/-- One `ResourceSpans` and one `ScopeSpans`; the Resource and the scope are always there. -/
def leafMessage (v : BatchView) : Upb.Request where
  resourceSpans :=
    [{ resource := some (v.resource.map leafAttribute)
       scopeSpans :=
        [{ scope := some { name := v.scopeName, version := v.scopeVersion }
           spans := v.spans.map leafSpan }] }]

/-! ### What it stands for -/

def attributeValue : AttrValue → AttributeValue
  | .bool b => .bool b
  | .int64 i => .int i
  | .double bits => .double bits
  | .string s => .string s

def keyValue (a : Attr) : KeyValue := ⟨a.key, attributeValue a.value⟩

def spanEvent (ev : EventView) : SpanEvent where
  name := ev.name
  timestamp := ev.timeUnixNano.toNat
  attributes := ev.attrs.map keyValue

def kindOf (code : UInt8) : SpanKind :=
  if code = 2 then .server
  else if code = 3 then .client
  else if code = 4 then .producer
  else if code = 5 then .consumer
  else .internal

def statusCodeOf (code : UInt8) : StatusCode :=
  if code = 1 then .ok else if code = 2 then .error else .unset

variable {ρ : Type}

/-- The span of a view: its ids, parent, name, kind, attributes, events, times and status. -/
def leafRecord (s : SpanView) : SpanRecord ρ where
  context := { traceId := ⟨s.traceId⟩, spanId := ⟨s.spanId⟩ }
  parentContext :=
    match s.parentSpanId with
    | some parent => { traceId := ⟨s.traceId⟩, spanId := ⟨parent⟩ }
    | none => {}
  name := s.name
  kind := kindOf s.kind
  statusCode := statusCodeOf s.statusCode
  statusDescription := s.statusMessage
  startTime := s.startTimeUnixNano.toNat
  endTime := s.endTimeUnixNano.toNat
  attributes := s.attrs.map keyValue
  events := s.events.map spanEvent

def leafSpans (v : BatchView) : DecodedResourceSpans ρ where
  resource := v.resource.map keyValue
  scopes :=
    [{ scope := ⟨v.scopeName, v.scopeVersion⟩
       spans := v.spans.map leafRecord }]

/-- What the decoder asks of a span: codes of the enumerations, and times it can hold. -/
structure Convertible (s : SpanView) : Prop where
  kind : ∃ kind : Leaf.SpanKind, s.kind = kind.code
  code : ∃ code : Leaf.StatusCode, s.statusCode = code.code
  plain : s.hasStatus = false → s.statusCode = 0 ∧ s.statusMessage = []
  start : s.startTimeUnixNano.toNat < 2 ^ 63
  finish : s.endTimeUnixNano.toNat < 2 ^ 63
  events : ∀ ev ∈ s.events, ev.timeUnixNano.toNat < 2 ^ 63

/-- Every time of a batch is one the decoder can hold. -/
def TimesFit (v : BatchView) : Prop :=
  ∀ s ∈ v.spans, s.startTimeUnixNano.toNat < 2 ^ 63 ∧ s.endTimeUnixNano.toNat < 2 ^ 63 ∧
    ∀ ev ∈ s.events, ev.timeUnixNano.toNat < 2 ^ 63

instance (v : BatchView) : Decidable (TimesFit v) :=
  inferInstanceAs (Decidable (∀ s ∈ v.spans, _ ∧ _ ∧ ∀ ev ∈ s.events, _))

/-! ### Its conversion -/

theorem convertAttributes_leaf (attrs : List Attr) :
    convertAttributes (attrs.map leafAttribute) = (attrs.map keyValue, 0) := by
  induction attrs with
  | nil => rfl
  | cons a attrs ih =>
      rw [List.map_cons, convertAttributes, ih]
      obtain ⟨key, value⟩ := a
      cases value with
      | bool b => rfl
      | int64 i => rfl
      | double bits => rfl
      | string s => rfl

theorem toTime_of_lt {t : UInt64} (h : t.toNat < 2 ^ 63) : toTime t = some (t.toNat : Int) := by
  rw [toTime, if_neg (by omega)]

theorem convertEvent_leaf {ev : EventView} (h : ev.timeUnixNano.toNat < 2 ^ 63) :
    convertEvent (leafEvent ev) = some (spanEvent ev, 0) := by
  unfold convertEvent leafEvent
  dsimp only
  rw [toTime_of_lt h, convertAttributes_leaf]
  rfl

theorem convertKind_leaf {code : UInt8} (h : ∃ kind : Leaf.SpanKind, code = kind.code) :
    convertKind (Int32.ofNat code.toNat) = some (kindOf code) := by
  obtain ⟨kind, rfl⟩ := h
  cases kind with
  | internal => rfl
  | server => rfl
  | client => rfl
  | producer => rfl
  | consumer => rfl

theorem convertStatus_leaf {s : SpanView} (h : Convertible s) :
    convertStatus (leafStatus s) = some (statusCodeOf s.statusCode, s.statusMessage) := by
  unfold leafStatus
  cases hstatus : s.hasStatus with
  | true =>
      obtain ⟨code, hcode⟩ := h.code
      rw [if_pos rfl, hcode]
      cases code with
      | unset => rfl
      | ok => rfl
      | error => rfl
  | false =>
      obtain ⟨hcode, hmessage⟩ := h.plain hstatus
      rw [hcode, hmessage]
      rfl

theorem convertParent_leaf (s : SpanView) :
    convertParent ⟨s.traceId⟩ (leafSpan s).parentSpanId =
      some (leafRecord s : SpanRecord ρ).parentContext := by
  unfold leafSpan leafRecord
  dsimp only
  cases s.parentSpanId with
  | none => rfl
  | some parent =>
      change convertParent ⟨s.traceId⟩ parent.toList = _
      rw [convertParent, if_neg (by simp), toId_toList]
      rfl

theorem convertHeader_leaf {s : SpanView} (h : Convertible s) :
    (convertHeader (leafSpan s) : Option (SpanRecord ρ)) =
      some { leafRecord s with attributes := [], events := [] } := by
  have hparent := convertParent_leaf (ρ := ρ) s
  have hstatus := convertStatus_leaf h
  unfold leafSpan at hparent
  unfold convertHeader leafSpan
  dsimp only at hparent ⊢
  rw [toId_toList, toId_toList, Option.bind_eq_bind, Option.bind_some, Option.bind_eq_bind,
    Option.bind_some, hparent, convertKind_leaf h.kind, toTime_of_lt h.start,
    toTime_of_lt h.finish, hstatus]
  rfl

theorem convertSpan_leaf {s : SpanView} (h : Convertible s) :
    (convertSpan (leafSpan s) : Option (SpanRecord ρ × UInt64)) = some (leafRecord s, 0) := by
  have hattributes : convertAttributes (leafSpan s).attributes = (s.attrs.map keyValue, 0) :=
    convertAttributes_leaf s.attrs
  have hevents : convertAll convertEvent (leafSpan s).events =
      some (s.events.map spanEvent, 0) :=
    convertAll_map fun ev hev => convertEvent_leaf (h.events ev hev)
  have hlinks : convertAll convertLink (leafSpan s).links = some ([], 0) := rfl
  unfold convertSpan
  rw [convertHeader_leaf h, hattributes, hevents, hlinks]
  rfl

/-- The decoder takes the message apart into what the batch holds, and drops nothing. -/
theorem convertResourceSpans_leaf {v : BatchView} (h : ∀ s ∈ v.spans, Convertible s) :
    ((leafMessage v).resourceSpans.mapM convertResourceSpans :
      Option (List (DecodedResourceSpans ρ))) = some [leafSpans v] := by
  have hspans : convertAll convertSpan (v.spans.map leafSpan) =
      some (v.spans.map (leafRecord : SpanView → SpanRecord ρ), 0) :=
    convertAll_map fun s hs => convertSpan_leaf (h s hs)
  unfold leafMessage
  simp only [List.mapM_cons, List.mapM_nil, convertResourceSpans, convertAttributes_leaf,
    convertAll, convertScopeSpans, hspans]
  rfl

/-! ### A message that was decoded -/

theorem toTime_lt {t : UInt64} {ns : Int} (h : toTime t = some ns) : t.toNat < 2 ^ 63 := by
  by_contra hnot
  rw [toTime, if_pos (by omega)] at h
  cases h

theorem convertAll_each {α β : Type} {convert : α → Option (β × UInt64)} {xs : List α}
    {ys : List β} {dropped : UInt64} (h : convertAll convert xs = some (ys, dropped)) :
    ∀ x ∈ xs, ∃ y, convert x = some y := by
  induction xs generalizing ys dropped with
  | nil => exact fun x hx => absurd hx List.not_mem_nil
  | cons x xs ih =>
      obtain ⟨y, hy, hrest⟩ := Option.bind_eq_some_iff.mp h
      obtain ⟨⟨zs, rest⟩, hzs, -⟩ := Option.bind_eq_some_iff.mp hrest
      exact List.forall_mem_cons.mpr ⟨⟨y, hy⟩, ih hzs⟩

theorem convertHeader_times {span : Upb.Span} {record : SpanRecord ρ}
    (h : convertHeader span = some record) :
    span.startTimeUnixNano.toNat < 2 ^ 63 ∧ span.endTimeUnixNano.toNat < 2 ^ 63 := by
  obtain ⟨traceId, -, h⟩ := Option.bind_eq_some_iff.mp h
  obtain ⟨spanId, -, h⟩ := Option.bind_eq_some_iff.mp h
  obtain ⟨parent, -, h⟩ := Option.bind_eq_some_iff.mp h
  obtain ⟨kind, -, h⟩ := Option.bind_eq_some_iff.mp h
  obtain ⟨start, hstart, h⟩ := Option.bind_eq_some_iff.mp h
  obtain ⟨finish, hfinish, -⟩ := Option.bind_eq_some_iff.mp h
  exact ⟨toTime_lt hstart, toTime_lt hfinish⟩

theorem convertSpan_times {s : SpanView} {r : SpanRecord ρ × UInt64}
    (h : convertSpan (leafSpan s) = some r) :
    s.startTimeUnixNano.toNat < 2 ^ 63 ∧ s.endTimeUnixNano.toNat < 2 ^ 63 ∧
      ∀ ev ∈ s.events, ev.timeUnixNano.toNat < 2 ^ 63 := by
  obtain ⟨record, hrecord, h⟩ := Option.bind_eq_some_iff.mp h
  obtain ⟨⟨events, ofEvents⟩, hevents, -⟩ := Option.bind_eq_some_iff.mp h
  obtain ⟨hstart, hfinish⟩ := convertHeader_times hrecord
  refine ⟨hstart, hfinish, fun ev hev => ?_⟩
  obtain ⟨out, hout⟩ := convertAll_each hevents _ (List.mem_map_of_mem hev)
  obtain ⟨time, htime, -⟩ := Option.bind_eq_some_iff.mp hout
  exact toTime_lt htime

/-- The decoder refuses a message with a time it cannot hold. -/
theorem timesFit_of_decoded {v : BatchView} {decoded : List (DecodedResourceSpans ρ)}
    (h : (leafMessage v).resourceSpans.mapM convertResourceSpans = some decoded) : TimesFit v := by
  obtain ⟨out, hout, -⟩ := Option.bind_eq_some_iff.mp h
  obtain ⟨⟨scopes, ofScopes⟩, hscopes, -⟩ := Option.bind_eq_some_iff.mp hout
  obtain ⟨scope, hscope⟩ := convertAll_each hscopes _ (List.mem_singleton.mpr rfl)
  obtain ⟨⟨spans, ofSpans⟩, hspans, -⟩ := Option.bind_eq_some_iff.mp hscope
  intro s hs
  obtain ⟨r, hr⟩ := convertAll_each hspans _ (List.mem_map_of_mem hs)
  exact convertSpan_times hr

end Microtel.Wire
