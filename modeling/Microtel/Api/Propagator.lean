import Microtel.Api.TraceState

/-!
`W3CTraceContextPropagator` (`src/api/propagator.cpp`) and the hex texts of the
ids (`src/api/trace.cpp`). A `std::function` that may be empty is an `Option`.
-/

namespace Microtel

/-! ### The texts of the ids -/

section ToHex

def kNibbleShift : UInt8 := 4
def kLowNibbleMask : UInt8 := 0x0F
def kDecimalDigitCount : UInt8 := 10
def kHexCharsPerByte : Nat := 2

def nibbleToHex (nibble : UInt8) : UInt8 :=
  if nibble < kDecimalDigitCount then 0x30 + nibble else 0x61 + (nibble - kDecimalDigitCount)

/-- One round of the loop in `BytesToLowerHex`. -/
def appendLowerHex (out : Bytes) (byte : UInt8) : Bytes :=
  out ++ [nibbleToHex (byte >>> kNibbleShift), nibbleToHex (byte &&& kLowNibbleMask)]

def bytesToLowerHex (bytes : Bytes) : Bytes := bytes.foldl appendLowerHex []

def TraceId.toHex (id : TraceId) : Bytes := bytesToLowerHex id.bytes.toList

def SpanId.toHex (id : SpanId) : Bytes := bytesToLowerHex id.bytes.toList

end ToHex

namespace Api

/-- A `SpanContext` as the propagator has it: with the trace state itself, where a
record has its entries. -/
structure SpanContext where
  traceId : TraceId := default
  spanId : SpanId := default
  traceFlags : UInt8 := 0
  traceState : TraceState := {}
  remote : Bool := false
  deriving DecidableEq, Repr

def SpanContext.isValid (c : SpanContext) : Bool := c.traceId.isValid && c.spanId.isValid

namespace Propagator

/-- `traceparent`. -/
def kTraceparentHeader : Bytes :=
  [0x74, 0x72, 0x61, 0x63, 0x65, 0x70, 0x61, 0x72, 0x65, 0x6E, 0x74]

/-- `tracestate`. -/
def kTracestateHeader : Bytes := [0x74, 0x72, 0x61, 0x63, 0x65, 0x73, 0x74, 0x61, 0x74, 0x65]

/-- `0123456789abcdef`. -/
def kLowerHexDigits : Bytes :=
  [0x30, 0x31, 0x32, 0x33, 0x34, 0x35, 0x36, 0x37, 0x38, 0x39, 0x61, 0x62, 0x63, 0x64, 0x65, 0x66]

/-- The dash. -/
def kFieldSeparator : UInt8 := 0x2D
def kSeparatorChars : Nat := 1
def kVersionOffset : Nat := 0
def kVersionChars : Nat := 2
def kTraceIdOffset : Nat := kVersionOffset + kVersionChars + kSeparatorChars
def kTraceIdChars : Nat := 16 * kHexCharsPerByte
def kSpanIdOffset : Nat := kTraceIdOffset + kTraceIdChars + kSeparatorChars
def kSpanIdChars : Nat := 8 * kHexCharsPerByte
def kFlagsOffset : Nat := kSpanIdOffset + kSpanIdChars + kSeparatorChars
def kFlagsChars : Nat := kHexCharsPerByte
def kTraceparentChars : Nat := kFlagsOffset + kFlagsChars

/-- `00`. -/
def kInjectedVersion : Bytes := [0x30, 0x30]
def kVersion00 : UInt8 := 0x00
def kForbiddenVersion : UInt8 := 0xFF

/-! ### Parsing -/

def isLowerHexDigit (c : UInt8) : Bool := (0x30 ≤ c && c ≤ 0x39) || (0x61 ≤ c && c ≤ 0x66)

def hexDigitValue (c : UInt8) : UInt8 :=
  if 0x30 ≤ c && c ≤ 0x39 then c - 0x30 else (c - 0x61) + kDecimalDigitCount

/-- The loop of `ParseLowerHexBytes`; `none` is its `false`. -/
def decodePairs : Bytes → Option Bytes
  | high :: low :: hex =>
      if !isLowerHexDigit high || !isLowerHexDigit low then none
      else (decodePairs hex).map
        (((hexDigitValue high <<< kNibbleShift) ||| hexDigitValue low) :: ·)
  | _ => some []

def parseLowerHexBytes (n : Nat) (hex : Bytes) : Option (Vector UInt8 n) :=
  if hex.length ≠ n * kHexCharsPerByte then none
  else
    (decodePairs hex).bind fun bytes =>
      if h : bytes.length = n then some ⟨bytes.toArray, by simpa using h⟩ else none

def substr (text : Bytes) (pos count : Nat) : Bytes := (text.drop pos).take count

def hasFixedSeparators (header : Bytes) : Bool :=
  header[kTraceIdOffset - kSeparatorChars]? = some kFieldSeparator &&
    header[kSpanIdOffset - kSeparatorChars]? = some kFieldSeparator &&
    header[kFlagsOffset - kSeparatorChars]? = some kFieldSeparator

def hasParsableLength (header : Bytes) (version : UInt8) : Bool :=
  if header.length = kTraceparentChars then true
  else version ≠ kVersion00 && header[kTraceparentChars]? = some kFieldSeparator

def hasParsableShape (header : Bytes) : Bool :=
  if header.length < kTraceparentChars then false
  else if !hasFixedSeparators header then false
  else
    match parseLowerHexBytes 1 (substr header kVersionOffset kVersionChars) with
    | none => false
    | some version =>
        if version[0] = kForbiddenVersion then false else hasParsableLength header version[0]

/-- `ParseTraceparent` on a context `out`; `none` is its `false`. -/
def parseTraceparent (header : Bytes) (out : SpanContext) : Option SpanContext :=
  if !hasParsableShape header then none
  else
    match parseLowerHexBytes 16 (substr header kTraceIdOffset kTraceIdChars),
      parseLowerHexBytes 8 (substr header kSpanIdOffset kSpanIdChars),
      parseLowerHexBytes 1 (substr header kFlagsOffset kFlagsChars) with
    | some traceBytes, some spanBytes, some flags =>
        let traceId : TraceId := ⟨traceBytes⟩
        let spanId : SpanId := ⟨spanBytes⟩
        if !traceId.isValid || !spanId.isValid then none
        else some { out with traceId := traceId, spanId := spanId, traceFlags := flags[0] }
    | _, _, _ => none

/-! ### The propagator -/

def formatTraceparent (c : SpanContext) : Bytes :=
  kInjectedVersion ++ [kFieldSeparator] ++ c.traceId.toHex ++ [kFieldSeparator] ++ c.spanId.toHex ++
    [kFieldSeparator] ++
    [kLowerHexDigits.getD ((c.traceFlags >>> kNibbleShift) &&& kLowNibbleMask).toNat 0,
      kLowerHexDigits.getD (c.traceFlags &&& kLowNibbleMask).toNat 0]

variable {σ : Type}

/-- `Inject`, with the carrier that the setter writes to. -/
def inject (c : SpanContext) (setter : Option (σ → Bytes → Bytes → σ)) (carrier : σ) : σ :=
  match setter with
  | none => carrier
  | some set =>
      if !c.isValid then carrier
      else
        let carrier := set carrier kTraceparentHeader (formatTraceparent c)
        let state := c.traceState.toHeader
        if state ≠ [] then set carrier kTracestateHeader state else carrier

def extract (getter : Option (Bytes → Option Bytes)) : SpanContext :=
  match getter with
  | none => {}
  | some get =>
      match get kTraceparentHeader with
      | none => {}
      | some traceparent =>
          match parseTraceparent traceparent {} with
          | none => {}
          | some c =>
              let c :=
                match get kTracestateHeader with
                | none => c
                | some tracestate => { c with traceState := TraceState.fromHeader tracestate }
              { c with remote := true }

end Propagator

end Api

end Microtel
