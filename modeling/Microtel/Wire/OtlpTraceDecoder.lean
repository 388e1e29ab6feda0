import Microtel.Api.Decoded
import Microtel.Wire.OtlpEncoder

/-!
`OtlpTraceDecoder::Decode` (`src/wire/encoder/otlp_trace_decoder.cpp`). A
conversion that returns `false` there is `none` here; what it wrote before that
is never looked at. Next to each converted part stands the number of attributes
dropped as unrepresentable.
-/

namespace Microtel.Wire

/-! ### Scalars -/

def hexDigit (n : UInt8) : UInt8 := if n < 10 then n + 48 else n + 87

def toHex (v : Bytes) : Bytes :=
  v.flatMap fun byte : UInt8 => [hexDigit (byte >>> 4), hexDigit (byte &&& 15)]

/-- A time point; none past the range of `system_clock`. -/
def toTime (ns : UInt64) : Option Int := if 2 ^ 63 - 1 < ns.toNat then none else some ns.toNat

theorem size_toArray_of_length {size : Nat} {v : Bytes} (h : v.length = size) :
    v.toArray.size = size := by
  simpa using h

def toId (size : Nat) (v : Bytes) : Option (Vector UInt8 size) :=
  if h : v.length = size then some ⟨v.toArray, size_toArray_of_length h⟩ else none

/-! ### Attribute values -/

def convertScalar : Upb.AnyValue → Option AttributeValue
  | .string v => some (.string v)
  | .bool v => some (.bool v)
  | .int v => some (.int v)
  | .double bits => some (.double bits)
  | .bytes v => some (.string (toHex v))
  | _ => none

/-- An array of one element type: `get` is `std::get_if` of it. -/
def collectArray {T : Type} (get : AttributeValue → Option T) (wrap : List T → AttributeValue)
    (values : List Upb.AnyValue) : Option AttributeValue :=
  (values.mapM fun v => (convertScalar v).bind get).map wrap

def getString : AttributeValue → Option Bytes
  | .string v => some v
  | _ => none

def getBool : AttributeValue → Option Bool
  | .bool v => some v
  | _ => none

def getInt : AttributeValue → Option Int64
  | .int v => some v
  | _ => none

def getDouble : AttributeValue → Option UInt64
  | .double bits => some bits
  | _ => none

/-- The first element decides the type. -/
def convertArray (values : List Upb.AnyValue) : Option AttributeValue :=
  match values with
  | [] => some (.strings [])
  | .string _ :: _ => collectArray getString .strings values
  | .bool _ :: _ => collectArray getBool .bools values
  | .int _ :: _ => collectArray getInt .ints values
  | .double _ :: _ => collectArray getDouble .doubles values
  | _ :: _ => none

def convertValue : Option Upb.AnyValue → Option AttributeValue
  | none => none
  | some (.array values) => convertArray values
  | some v => convertScalar v

def convertAttributes : List Upb.KeyValue → List KeyValue × UInt64
  | [] => ([], 0)
  | kv :: kvs =>
      let (out, dropped) := convertAttributes kvs
      match convertValue kv.value with
      | none => (out, dropped + 1)
      | some value => (⟨kv.key, value⟩ :: out, dropped)

/-! ### Spans -/

/-- Converts in order, up to the first that fails, and adds up what was dropped. -/
def convertAll {α β : Type} (convert : α → Option (β × UInt64)) : List α → Option (List β × UInt64)
  | [] => some ([], 0)
  | x :: xs => do
      let (y, dropped) ← convert x
      let (ys, rest) ← convertAll convert xs
      some (y :: ys, dropped + rest)

def convertEvent (ev : Upb.Event) : Option (SpanEvent × UInt64) := do
  let timestamp ← toTime ev.timeUnixNano
  let (attributes, dropped) := convertAttributes ev.attributes
  some ({ name := ev.name, timestamp, attributes }, dropped)

def convertLink (link : Upb.Link) : Option (SpanLink × UInt64) := do
  let traceId ← toId 16 link.traceId
  let spanId ← toId 8 link.spanId
  let (attributes, dropped) := convertAttributes link.attributes
  some ({ linkedContext := { traceId := ⟨traceId⟩, spanId := ⟨spanId⟩ }, attributes }, dropped)

/-- Kind 0 is `UNSPECIFIED`. -/
def convertKind (kind : Int32) : Option SpanKind :=
  if kind = 0 then some .internal
  else if kind = 1 then some .internal
  else if kind = 2 then some .server
  else if kind = 3 then some .client
  else if kind = 4 then some .producer
  else if kind = 5 then some .consumer
  else none

def convertStatusCode (code : Int32) : Option StatusCode :=
  if code = 0 then some .unset
  else if code = 1 then some .ok
  else if code = 2 then some .error
  else none

/-- The parent, if the span names one: in the span's own trace. -/
def convertParent (traceId : TraceId) (parent : Bytes) : Option SpanContext :=
  if parent.length = 0 then some {}
  else do
    let parentId ← toId 8 parent
    some { traceId, spanId := ⟨parentId⟩ }

def convertStatus : Option Upb.Status → Option (StatusCode × Bytes)
  | none => some (.unset, [])
  | some status => do
      let code ← convertStatusCode status.code
      some (code, status.message)

variable {ρ : Type}

/-- Everything but the repeated fields. -/
def convertHeader (span : Upb.Span) : Option (SpanRecord ρ) := do
  let traceId ← toId 16 span.traceId
  let spanId ← toId 8 span.spanId
  let parentContext ← convertParent ⟨traceId⟩ span.parentSpanId
  let kind ← convertKind span.kind
  let startTime ← toTime span.startTimeUnixNano
  let endTime ← toTime span.endTimeUnixNano
  let (statusCode, statusDescription) ← convertStatus span.status
  some
    { context := { traceId := ⟨traceId⟩, spanId := ⟨spanId⟩ }
      parentContext, kind, startTime, endTime, name := span.name, statusCode, statusDescription }

def convertSpan (span : Upb.Span) : Option (SpanRecord ρ × UInt64) := do
  let record ← convertHeader span
  let (attributes, dropped) := convertAttributes span.attributes
  let (events, droppedOfEvents) ← convertAll convertEvent span.events
  let (links, droppedOfLinks) ← convertAll convertLink span.links
  some ({ record with attributes, events, links }, dropped + droppedOfEvents + droppedOfLinks)

def convertScopeSpans (ss : Upb.ScopeSpans) : Option (DecodedScopeSpans ρ × UInt64) := do
  let scope : InstrumentationScope :=
    match ss.scope with
    | some scope => ⟨scope.name, scope.version⟩
    | none => ⟨[], []⟩
  let (spans, dropped) ← convertAll convertSpan ss.spans
  some ({ scope, spans }, dropped)

def convertResourceSpans (rs : Upb.ResourceSpans) : Option (DecodedResourceSpans ρ) := do
  let (resource, droppedResourceAttributes) :=
    match rs.resource with
    | some attributes => convertAttributes attributes
    | none => ([], 0)
  let (scopes, droppedSpanAttributes) ← convertAll convertScopeSpans rs.scopeSpans
  some { resource, scopes, droppedSpanAttributes, droppedResourceAttributes }

def countSpans (rss : List Upb.ResourceSpans) : Nat :=
  (rss.map fun rs => (rs.scopeSpans.map fun ss => ss.spans.length).sum).sum

/-- Both the arena cap and the depth limit are bounds the call was given. -/
def failureFor : DecodeStatus → DecodeFailure
  | .outOfMemory | .maxDepthExceeded => .tooLarge
  | _ => .malformed

def decode (upb : UpbRuntime) (payload : Bytes) (limits : DecodeLimits) :
    Except DecodeFailure (List (DecodedResourceSpans ρ)) :=
  match upb.decode payload limits.maxDepth limits.maxArenaBytes with
  | .error status => .error (failureFor status)
  | .ok req =>
      if limits.maxSpans.toNat < countSpans req.resourceSpans then .error .tooLarge
      else
        match req.resourceSpans.mapM convertResourceSpans with
        | none => .error .malformed
        | some out => .ok out

end Microtel.Wire
