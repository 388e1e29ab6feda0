import Microtel.Api.Types

/-!
What the trace decoder hands its caller
(`include/microtel/internal/otlp_trace_decoder.hpp`).
-/

namespace Microtel

structure DecodeLimits where
  maxSpans : UInt32
  maxDepth : UInt16
  maxArenaBytes : Nat
  deriving DecidableEq, Repr

inductive DecodeFailure
  | malformed | tooLarge
  deriving DecidableEq, Repr

structure DecodedScopeSpans (ρ : Type) where
  scope : InstrumentationScope
  spans : List (SpanRecord ρ)
  deriving DecidableEq, Repr

structure DecodedResourceSpans (ρ : Type) where
  /-- As the payload carried them, reserved keys included. -/
  resource : List KeyValue
  scopes : List (DecodedScopeSpans ρ)
  droppedSpanAttributes : UInt64 := 0
  droppedResourceAttributes : UInt64 := 0
  deriving DecidableEq, Repr

end Microtel
