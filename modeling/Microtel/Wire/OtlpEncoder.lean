import Microtel.Wire.Message

/-!
`OtlpEncoder::Encode` for traces (`src/wire/encoder/otlp_encoder.cpp`) and
`ConcatenateTraceRequests` (`src/wire/encoder/trace_request_concat.cpp`). An
`EncodedPayload` is its bytes, and upb's arena never runs out.
-/

namespace Microtel.Wire

/-- How `upb_Decode` ends when it does not succeed. -/
inductive DecodeStatus
  | malformed | outOfMemory | badUtf8 | maxDepthExceeded | missingRequired | unlinkedSubMessage
  deriving DecidableEq, Repr

/-- upb: `serialize` of a request, and `upb_Decode` with a depth limit into an
arena with a cap. -/
structure UpbRuntime where
  serialize : Upb.Request → Bytes
  decode : Bytes → (maxDepth : UInt16) → (maxArenaBytes : Nat) → Except DecodeStatus Upb.Request

def toNanos (t : Int) : UInt64 := UInt64.ofInt t

/-- OTLP has `UNSPECIFIED = 0` before microtel's kinds. -/
def mapKind : SpanKind → Int32
  | .internal => 0 + 1
  | .server => 1 + 1
  | .client => 2 + 1
  | .producer => 3 + 1
  | .consumer => 4 + 1

def mapStatusCode : StatusCode → Int32
  | .unset => 0
  | .ok => 1
  | .error => 2

/-! ### Attributes -/

def encodeAttrValue : AttributeValue → Upb.AnyValue
  | .bool v => .bool v
  | .int v => .int v
  | .double bits => .double bits
  | .string v => .string v
  | .bools vs => .array (vs.map .bool)
  | .ints vs => .array (vs.map .int)
  | .doubles vs => .array (vs.map .double)
  | .strings vs => .array (vs.map .string)

def encodeAttributes (attrs : List KeyValue) : List Upb.KeyValue :=
  attrs.map fun kv => { key := kv.key, value := some (encodeAttrValue kv.value) }

/-! ### Spans -/

def encodeEvent (ev : SpanEvent) : Upb.Event where
  name := ev.name
  timeUnixNano := toNanos ev.timestamp
  attributes := encodeAttributes ev.attributes

def encodeLink (lnk : SpanLink) : Upb.Link where
  traceId := lnk.linkedContext.traceId.bytes.toList
  spanId := lnk.linkedContext.spanId.bytes.toList
  attributes := encodeAttributes lnk.attributes

variable {ρ : Type}

def encodeStatus (record : SpanRecord ρ) : Option Upb.Status :=
  if record.statusCode = .unset then none
  else
    some
      { code := mapStatusCode record.statusCode
        message := if record.statusDescription.isEmpty then [] else record.statusDescription }

def encodeSpan (record : SpanRecord ρ) : Upb.Span where
  traceId := record.context.traceId.bytes.toList
  spanId := record.context.spanId.bytes.toList
  name := record.name
  kind := mapKind record.kind
  startTimeUnixNano := toNanos record.startTime
  endTimeUnixNano := toNanos record.endTime
  parentSpanId :=
    if record.parentContext.isValid then record.parentContext.spanId.bytes.toList else []
  attributes := encodeAttributes record.attributes
  events := record.events.map encodeEvent
  links := record.links.map encodeLink
  status := encodeStatus record

def encodeScope (scope : InstrumentationScope) : Upb.Scope where
  name := scope.name
  version := scope.version

/-- The message `Encode` builds of a batch with spans. -/
def encodeRequest (batch : BatchHandle (List KeyValue)) : Upb.Request where
  resourceSpans :=
    [{ resource := some (encodeAttributes batch.resource)
       scopeSpans :=
        [{ scope := some (encodeScope batch.scope)
           spans := batch.records.map encodeSpan }] }]

def encode (upb : UpbRuntime) (batch : BatchHandle (List KeyValue)) : Bytes :=
  if batch.records.isEmpty then [] else upb.serialize (encodeRequest batch)

/-- One request with the ResourceSpans of all parts, in order. -/
def concatenateTraceRequests : List Bytes → Bytes
  | [part] => part
  | parts => parts.flatten

theorem concatenateTraceRequests_eq (parts : List Bytes) :
    concatenateTraceRequests parts = parts.flatten := by
  unfold concatenateTraceRequests
  split
  · simp
  · rfl

end Microtel.Wire
