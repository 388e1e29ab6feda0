import Mathlib.Tactic

/-!
The records the signal pipelines carry (`include/microtel/attribute.hpp`,
`include/microtel/trace.hpp`, `include/microtel/internal/batch.hpp`). A
`std::string` is its bytes and a `double` its bit pattern.
-/

namespace Microtel

abbrev Bytes := List UInt8

instance Bytes.lawfulBEq : LawfulBEq Bytes := inferInstance

inductive AttributeValue
  | bool (v : Bool)
  | int (v : Int64)
  | double (bits : UInt64)
  | string (v : Bytes)
  | bools (v : List Bool)
  | ints (v : List Int64)
  | doubles (bits : List UInt64)
  | strings (v : List Bytes)
  deriving DecidableEq, Repr, Inhabited

structure KeyValue where
  key : Bytes
  value : AttributeValue
  deriving DecidableEq, Repr, Inhabited

/-- `TraceId`: 16 bytes. -/
structure TraceId where
  bytes : Vector UInt8 16
  deriving DecidableEq, Repr

instance : Inhabited TraceId := ⟨⟨Vector.replicate 16 0⟩⟩

/-- `SpanId`: 8 bytes. -/
structure SpanId where
  bytes : Vector UInt8 8
  deriving DecidableEq, Repr

instance : Inhabited SpanId := ⟨⟨Vector.replicate 8 0⟩⟩

def TraceId.isValid (id : TraceId) : Bool := id.bytes.toList.any (· ≠ 0)

def SpanId.isValid (id : SpanId) : Bool := id.bytes.toList.any (· ≠ 0)

structure SpanContext where
  traceId : TraceId := default
  spanId : SpanId := default
  traceFlags : UInt8 := 0
  traceState : List (Bytes × Bytes) := []
  remote : Bool := false
  deriving DecidableEq, Repr, Inhabited

def SpanContext.isValid (c : SpanContext) : Bool := c.traceId.isValid && c.spanId.isValid

inductive SpanKind
  | internal | server | client | producer | consumer
  deriving DecidableEq, Repr, Inhabited

inductive StatusCode
  | unset | ok | error
  deriving DecidableEq, Repr, Inhabited

structure InstrumentationScope where
  name : Bytes
  version : Bytes
  deriving DecidableEq, Repr, Inhabited

structure SpanEvent where
  name : Bytes := []
  /-- Nanoseconds since the epoch, as every time point below. -/
  timestamp : Int := 0
  attributes : List KeyValue := []
  deriving DecidableEq, Repr, Inhabited

structure SpanLink where
  linkedContext : SpanContext := {}
  attributes : List KeyValue := []
  deriving DecidableEq, Repr, Inhabited

/-- `SpanRecord`, over the type of Resource pointers. -/
structure SpanRecord (ρ : Type) where
  context : SpanContext := {}
  parentContext : SpanContext := {}
  name : Bytes := []
  kind : SpanKind := .internal
  statusCode : StatusCode := .unset
  statusDescription : Bytes := []
  startTime : Int := 0
  endTime : Int := 0
  attributes : List KeyValue := []
  events : List SpanEvent := []
  links : List SpanLink := []
  /-- The span's own Resource; `none` is the null pointer. -/
  resource : Option ρ := none
  deriving DecidableEq, Repr, Inhabited

structure BatchHandle (ρ : Type) where
  records : List (SpanRecord ρ)
  resource : ρ
  scope : InstrumentationScope
  deriving DecidableEq, Repr

/-- The drop counters the two trace workers write. -/
inductive DropReason
  | queueFull
  | recordTooLarge
  | postShutdown
  | partialSuccessRejection
  | nonRetryableFailure
  | retryableFailureRecovered
  | retryBudgetExhausted
  deriving DecidableEq, Repr

inductive Status
  | completed | timedOut | alreadyShutDown | failed | invalidArgument | unsupported
  deriving DecidableEq, Repr

end Microtel
