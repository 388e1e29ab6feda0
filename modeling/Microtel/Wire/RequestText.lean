import Microtel.Lib.ByteMemory
import Microtel.Lib.ProtoWire
import Microtel.Wire.Message

/-!
The text of an export request in the protobuf wire format: the fields of each message by
number, a field without presence only where it is not its default, a member of a oneof and
a submessage wherever it is set.
-/

namespace Microtel.Wire.Upb

open ProtoWire
open ByteMemory.Layout (leBytes)

/-! ### Fields -/

def bytesField (number : Nat) (v : Bytes) : List Field :=
  if v = [] then [] else [⟨number, .len v⟩]

def varintField (number : Nat) (v : UInt64) : List Field :=
  if v = 0 then [] else [⟨number, .varint v⟩]

def fixed64Content (v : UInt64) : Content := .fixed64 (leBytes 8 v.toNat)

def fixed64Field (number : Nat) (v : UInt64) : List Field :=
  if v = 0 then [] else [⟨number, fixed64Content v⟩]

/-- An `int32` or an enumeration, extended to 64 bits. -/
def int32Field (number : Nat) (v : Int32) : List Field := varintField number v.toInt64.toUInt64

/-- Submessages, one field each. -/
def messageFields {M : Type} (number : Nat) (text : M → Bytes) (messages : List M) : List Field :=
  messages.map fun m => ⟨number, .len (text m)⟩

/-! ### Messages -/

mutual

/-- The member of the oneof that is set. -/
def AnyValue.fields : AnyValue → List Field
  | .notSet => []
  | .string v => [⟨1, .len v⟩]
  | .bool v => [⟨2, .varint (if v then 1 else 0)⟩]
  | .int v => [⟨3, .varint v.toUInt64⟩]
  | .double bits => [⟨4, fixed64Content bits⟩]
  | .array values => [⟨5, .len (encodeMessage (AnyValue.arrayFields values))⟩]
  | .kvlist values => [⟨6, .len (encodeMessage (AnyValue.kvlistFields values))⟩]
  | .bytes v => [⟨7, .len v⟩]
  | .stringIndex v => [⟨8, .varint v.toInt64.toUInt64⟩]

def AnyValue.arrayFields : List AnyValue → List Field
  | [] => []
  | v :: vs => ⟨1, .len (encodeMessage v.fields)⟩ :: AnyValue.arrayFields vs

def AnyValue.kvlistFields : List (KeyValueOf AnyValue) → List Field
  | [] => []
  | ⟨key, none⟩ :: kvs => ⟨1, .len (encodeMessage (bytesField 1 key))⟩ :: AnyValue.kvlistFields kvs
  | ⟨key, some v⟩ :: kvs =>
      ⟨1, .len (encodeMessage (bytesField 1 key ++ [⟨2, .len (encodeMessage v.fields)⟩]))⟩ ::
        AnyValue.kvlistFields kvs

end

def AnyValue.text (v : AnyValue) : Bytes := encodeMessage v.fields

def KeyValueOf.fields (kv : KeyValue) : List Field :=
  bytesField 1 kv.key ++ messageFields 2 AnyValue.text kv.value.toList

def KeyValueOf.text (kv : KeyValue) : Bytes := encodeMessage kv.fields

def Scope.fields (s : Scope) : List Field := bytesField 1 s.name ++ bytesField 2 s.version

def Scope.text (s : Scope) : Bytes := encodeMessage s.fields

def Event.fields (e : Event) : List Field :=
  fixed64Field 1 e.timeUnixNano ++ bytesField 2 e.name ++
    messageFields 3 KeyValueOf.text e.attributes

def Event.text (e : Event) : Bytes := encodeMessage e.fields

def Link.fields (l : Link) : List Field :=
  bytesField 1 l.traceId ++ bytesField 2 l.spanId ++ messageFields 4 KeyValueOf.text l.attributes

def Link.text (l : Link) : Bytes := encodeMessage l.fields

def Status.fields (s : Status) : List Field := bytesField 2 s.message ++ int32Field 3 s.code

def Status.text (s : Status) : Bytes := encodeMessage s.fields

def Span.fields (s : Span) : List Field :=
  bytesField 1 s.traceId ++ bytesField 2 s.spanId ++ bytesField 4 s.parentSpanId ++
    bytesField 5 s.name ++ int32Field 6 s.kind ++ fixed64Field 7 s.startTimeUnixNano ++
    fixed64Field 8 s.endTimeUnixNano ++ messageFields 9 KeyValueOf.text s.attributes ++
    messageFields 11 Event.text s.events ++ messageFields 13 Link.text s.links ++
    messageFields 15 Status.text s.status.toList

def Span.text (s : Span) : Bytes := encodeMessage s.fields

def ScopeSpans.fields (s : ScopeSpans) : List Field :=
  messageFields 1 Scope.text s.scope.toList ++ messageFields 2 Span.text s.spans

def ScopeSpans.text (s : ScopeSpans) : Bytes := encodeMessage s.fields

/-- The Resource message, of which only the attributes are set. -/
def resourceText (attributes : List KeyValue) : Bytes :=
  encodeMessage (messageFields 1 KeyValueOf.text attributes)

def ResourceSpans.fields (rs : ResourceSpans) : List Field :=
  messageFields 1 resourceText rs.resource.toList ++
    messageFields 2 ScopeSpans.text rs.scopeSpans

def ResourceSpans.text (rs : ResourceSpans) : Bytes := encodeMessage rs.fields

def Request.fields (req : Request) : List Field :=
  messageFields 1 ResourceSpans.text req.resourceSpans

def Request.text (req : Request) : Bytes := encodeMessage req.fields

end Microtel.Wire.Upb
