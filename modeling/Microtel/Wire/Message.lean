import Microtel.Api.Types

/-!
The OTLP trace messages as upb holds them
(`proto/opentelemetry/proto/{common,resource,trace}/v1`): a field without
presence is its value, a sub-message that may be absent is an `Option`, and a
repeated field is a list. The fields the encoder sets and the decoder reads are
there; the others stay at their defaults and are left out.
-/

namespace Microtel.Wire.Upb

/-- `KeyValue`, over the type of its value message. -/
structure KeyValueOf (V : Type) where
  key : Bytes := []
  value : Option V := none

/-- `AnyValue`: its oneof, with `notSet` for no case. -/
inductive AnyValue
  | notSet
  | string (v : Bytes)
  | bool (v : Bool)
  | int (v : Int64)
  | double (bits : UInt64)
  | array (values : List AnyValue)
  | kvlist (values : List (KeyValueOf AnyValue))
  | bytes (v : Bytes)
  | stringIndex (v : Int32)

abbrev KeyValue := KeyValueOf AnyValue

structure Scope where
  name : Bytes := []
  version : Bytes := []

structure Event where
  timeUnixNano : UInt64 := 0
  name : Bytes := []
  attributes : List KeyValue := []

structure Link where
  traceId : Bytes := []
  spanId : Bytes := []
  attributes : List KeyValue := []

structure Status where
  message : Bytes := []
  code : Int32 := 0

structure Span where
  traceId : Bytes := []
  spanId : Bytes := []
  parentSpanId : Bytes := []
  name : Bytes := []
  kind : Int32 := 0
  startTimeUnixNano : UInt64 := 0
  endTimeUnixNano : UInt64 := 0
  attributes : List KeyValue := []
  events : List Event := []
  links : List Link := []
  status : Option Status := none

structure ScopeSpans where
  scope : Option Scope := none
  spans : List Span := []

structure ResourceSpans where
  /-- The attributes of the Resource message, if there is one. -/
  resource : Option (List KeyValue) := none
  scopeSpans : List ScopeSpans := []

/-- `ExportTraceServiceRequest`. -/
structure Request where
  resourceSpans : List ResourceSpans := []

/-! ### The string fields -/

def isContinuation (b : UInt8) : Bool := 0x80 ≤ b && b ≤ 0xBF

/-- What upb accepts in a `string` field (`third_party/utf8_range`): UTF-8
without overlong forms, surrogates or code points past U+10FFFF. -/
def validUtf8 : Bytes → Bool
  | [] => true
  | a :: rest =>
      if a ≤ 0x7F then validUtf8 rest
      else
        match rest with
        | [] => false
        | b :: rest =>
            if 0xC2 ≤ a && a ≤ 0xDF then isContinuation b && validUtf8 rest
            else
              match rest with
              | [] => false
              | c :: rest =>
                  if 0xE0 ≤ a && a ≤ 0xEF then
                    (if a = 0xE0 then 0xA0 ≤ b && b ≤ 0xBF
                      else if a = 0xED then 0x80 ≤ b && b ≤ 0x9F
                      else isContinuation b) &&
                      isContinuation c && validUtf8 rest
                  else
                    match rest with
                    | [] => false
                    | d :: rest =>
                        (if a = 0xF0 then 0x90 ≤ b && b ≤ 0xBF
                          else if a = 0xF4 then 0x80 ≤ b && b ≤ 0x8F
                          else 0xF1 ≤ a && a ≤ 0xF3 && isContinuation b) &&
                          isContinuation c && isContinuation d && validUtf8 rest

mutual

/-- The `string` fields below a value; `bytes` fields are not among them. -/
def AnyValue.texts : AnyValue → List Bytes
  | .string v => [v]
  | .array values => AnyValue.arrayTexts values
  | .kvlist values => AnyValue.kvlistTexts values
  | _ => []

def AnyValue.arrayTexts : List AnyValue → List Bytes
  | [] => []
  | v :: vs => v.texts ++ AnyValue.arrayTexts vs

def AnyValue.kvlistTexts : List (KeyValueOf AnyValue) → List Bytes
  | [] => []
  | ⟨key, none⟩ :: kvs => key :: AnyValue.kvlistTexts kvs
  | ⟨key, some v⟩ :: kvs => key :: v.texts ++ AnyValue.kvlistTexts kvs

end

def Scope.texts (s : Scope) : List Bytes := [s.name, s.version]

def Event.texts (e : Event) : List Bytes := e.name :: AnyValue.kvlistTexts e.attributes

def Link.texts (l : Link) : List Bytes := AnyValue.kvlistTexts l.attributes

def Span.texts (s : Span) : List Bytes :=
  s.name :: AnyValue.kvlistTexts s.attributes ++ s.events.flatMap Event.texts ++
    s.links.flatMap Link.texts ++ (s.status.map Status.message).toList

def ScopeSpans.texts (s : ScopeSpans) : List Bytes :=
  (s.scope.map Scope.texts).getD [] ++ s.spans.flatMap Span.texts

def ResourceSpans.texts (rs : ResourceSpans) : List Bytes :=
  AnyValue.kvlistTexts (rs.resource.getD []) ++ rs.scopeSpans.flatMap ScopeSpans.texts

def Request.texts (req : Request) : List Bytes := req.resourceSpans.flatMap ResourceSpans.texts

theorem AnyValue.arrayTexts_eq (values : List AnyValue) :
    AnyValue.arrayTexts values = values.flatMap AnyValue.texts := by
  induction values with
  | nil => rfl
  | cons v vs ih => rw [AnyValue.arrayTexts, ih, List.flatMap_cons]

end Microtel.Wire.Upb
