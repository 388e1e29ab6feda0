import Microtel.Pipeline.RetryArithmetic
import Microtel.Wire.Gzip

/-!
What `GrpcWireCodec` (`src/wire/grpc/grpc_wire_codec.cpp`) makes of an answer, with
the status table and the texts of `src/wire/grpc/grpc_status.cpp`, and the frames
it sends.
-/

namespace Microtel.Wire.Grpc

open Transport Concentrator Pipeline.RetryEngine

/-! ### grpc_status.cpp -/

structure GrpcStatusInfo where
  name : String
  retryable : Bool

def kStatusTable : List GrpcStatusInfo :=
  [⟨"OK", false⟩, ⟨"CANCELLED", true⟩, ⟨"UNKNOWN", false⟩, ⟨"INVALID_ARGUMENT", false⟩,
    ⟨"DEADLINE_EXCEEDED", true⟩, ⟨"NOT_FOUND", false⟩, ⟨"ALREADY_EXISTS", false⟩,
    ⟨"PERMISSION_DENIED", false⟩, ⟨"RESOURCE_EXHAUSTED", false⟩, ⟨"FAILED_PRECONDITION", false⟩,
    ⟨"ABORTED", true⟩, ⟨"OUT_OF_RANGE", true⟩, ⟨"UNIMPLEMENTED", false⟩, ⟨"INTERNAL", false⟩,
    ⟨"UNAVAILABLE", true⟩, ⟨"DATA_LOSS", true⟩, ⟨"UNAUTHENTICATED", false⟩]

def kGrpcStatusCount : Int := 17

def lookupGrpcStatus (code : Int) : Option GrpcStatusInfo :=
  if code < 0 ∨ kGrpcStatusCount ≤ code then none else kStatusTable[code.toNat]?

def hexValue (c : UInt8) : Option UInt8 :=
  if 0x30 ≤ c ∧ c ≤ 0x39 then some (c - 0x30)
  else if 0x61 ≤ c ∧ c ≤ 0x66 then some (c - 0x61 + 10)
  else if 0x41 ≤ c ∧ c ≤ 0x46 then some (c - 0x41 + 10)
  else none

def decodeEscapeAt : Bytes → Option UInt8
  | 0x25 :: high :: low :: _ =>
      match hexValue high, hexValue low with
      | some high, some low => some ((high <<< 4) ||| low)
      | _, _ => none
  | _ => none

/-- An escape that is none passes through. -/
def percentDecode : Bytes → Bytes
  | [] => []
  | c :: rest =>
      match decodeEscapeAt (c :: rest) with
      | some decoded => decoded :: percentDecode (rest.drop 2)
      | none => c :: percentDecode rest
termination_by text => text.length

def kMaxGrpcMessageChars : Nat := 256

/-- A `std::string` of any octets, one character an octet. -/
def textOf (octets : Bytes) : String := String.ofList (octets.map fun c => Char.ofNat c.toNat)

def formatGrpcError (code : Int) (decodedMessage : Bytes) : String :=
  let name := ((lookupGrpcStatus code).map (·.name)).getD "UNRECOGNIZED"
  let message := decodedMessage.take kMaxGrpcMessageChars
  let out := name ++ " (" ++ toString code ++ ")"
  if message = [] then out else out ++ ": " ++ textOf message

/-! ### Response DATA frames -/

inductive FrameError
  | malformed | tooLarge | unparseableMessage
  deriving DecidableEq, Repr

def kGrpcFrameHeaderSize : Nat := 5
def kGrpcUncompressedFlag : UInt8 := 0
def kGrpcCompressedFlag : UInt8 := 1
def kByteShift24 : Nat := 24
def kByteShift16 : Nat := 16
def kByteShift8 : Nat := 8

def readFrameLength (body : Bytes) : UInt32 :=
  ((body.getD 1 0).toUInt32 <<< UInt32.ofNat kByteShift24) |||
    ((body.getD 2 0).toUInt32 <<< UInt32.ofNat kByteShift16) |||
    ((body.getD 3 0).toUInt32 <<< UInt32.ofNat kByteShift8) |||
    (body.getD 4 0).toUInt32

def frameError : GzipDecompressError → FrameError
  | .tooLarge => .tooLarge
  | .corrupt => .malformed

def decodeResponseFrame (gzip : Gzip) (body : Bytes) (maxDecompressed : Nat) :
    Except FrameError Bytes :=
  if body = [] then .ok []
  else if body.length < kGrpcFrameHeaderSize then .error .malformed
  else
    let flag := body.getD 0 0
    let message := body.drop kGrpcFrameHeaderSize
    if (readFrameLength body).toNat ≠ message.length then .error .malformed
    else if flag = kGrpcUncompressedFlag then .ok message
    else if flag ≠ kGrpcCompressedFlag then .error .malformed
    else (gzip.decompress message maxDecompressed).mapError frameError

/-- The length is cut to its low 32 bits. -/
def framePayload (body : Bytes) (compressed : Bool) : Bytes :=
  let n := body.length
  [if compressed then kGrpcCompressedFlag else kGrpcUncompressedFlag,
    UInt8.ofNat (n >>> kByteShift24), UInt8.ofNat (n >>> kByteShift16),
    UInt8.ofNat (n >>> kByteShift8), UInt8.ofNat n] ++ body

def frameFailure (err : FrameError) : WireResult × List CodecDrop :=
  let message :=
    match err with
    | .tooLarge => "response exceeds max_decompressed_bytes"
    | .unparseableMessage => "unparseable export response message"
    | .malformed => "malformed gRPC response frame"
  ({ error := some { kind := .malformed, message } },
    [if err = .tooLarge then .decompressionTooLarge else .malformedResponse])

/-! ### Status classification -/

/-- The trailers first, then the headers. -/
def findStatusField (result : TransportResult) (name : Bytes) : Option Bytes :=
  match findHeaderValue result.responseTrailers name with
  | some value => some value
  | none => findHeaderValue result.responseHeaders name

def parseHttpStatus (headers : List HeaderField) : Int :=
  let codes := headers.filterMap fun h =>
    if h.name ≠ ascii ":status" then none else (fromCharsInt h.value).map (·.1)
  codes.headD 0

def decodeGrpcMessage (result : TransportResult) : Bytes :=
  percentDecode ((findStatusField result (ascii "grpc-message")).getD [])

def buildGrpcExcerpt (message : Bytes) : Bytes := message.take kMaxGrpcMessageChars

/-- What `ClassifyResponse` returns, counts and logs, and the codec's flag
`m_warned_missing_grpc_status` afterwards. -/
structure Classified where
  result : WireResult
  drops : List CodecDrop := []
  logs : List String := []
  warned : Bool

def warnMissingGrpcStatusOnce (httpStatus : Int) (alreadyWarned : Bool) : List String :=
  if alreadyWarned then []
  else
    ["gRPC response carried no grpc-status trailer (HTTP " ++ toString httpStatus ++
      ") - an intermediary is terminating gRPC streams without trailers; " ++
      "see docs/grpc-wire-protocol.md 4.2"]

def classifyMissingGrpcStatus (headers : List HeaderField) (alreadyWarned : Bool) : Classified :=
  let httpStatus := parseHttpStatus headers
  let retryable := httpStatus = 429 ∨ httpStatus = 502 ∨ httpStatus = 503 ∨ httpStatus = 504
  { result :=
      { retryable
        error := some
          { kind := .protocol
            message := "missing grpc-status (HTTP " ++ toString httpStatus ++ ")" } }
    drops := if retryable then [] else [.malformedResponse]
    logs := warnMissingGrpcStatusOnce httpStatus alreadyWarned
    warned := true }

def kResourceExhausted : Int := 8

def resourceExhaustedWithoutRetryInfo (result : TransportResult) : WireResult :=
  let decoded := decodeGrpcMessage result
  { error := some
      { kind := .protocol
        message := formatGrpcError kResourceExhausted decoded ++ " - no RetryInfo, not retried" }
    responseExcerpt := buildGrpcExcerpt decoded }

def classifyResourceExhausted (result : TransportResult) : WireResult :=
  match findStatusField result (ascii "grpc-status-details-bin") with
  | none => resourceExhaustedWithoutRetryInfo result
  | some details =>
      match tryDecodeRetryDelay durationMs details with
      | none => resourceExhaustedWithoutRetryInfo result
      | some delay => { retryable := true, retryAfter := some delay }

def classifyGrpcSuccess (gzip : Gzip) (maxDecompressed : Nat) (result : TransportResult) :
    WireResult × List CodecDrop :=
  match decodeResponseFrame gzip result.responseBody maxDecompressed with
  | .error err => frameFailure err
  | .ok message =>
      let parsed := Proto.parseRejectedSpans message
      if parsed.outcome = .unparseable then frameFailure .unparseableMessage
      else ({ success := true, partialSuccessRejected := parsed.rejected }, [])

def classifyGrpcCode (gzip : Gzip) (maxDecompressed : Nat) (code : Int) (result : TransportResult) :
    WireResult × List CodecDrop :=
  if code = 0 then classifyGrpcSuccess gzip maxDecompressed result
  else if code = kResourceExhausted then (classifyResourceExhausted result, [])
  else
    let retryable := ((lookupGrpcStatus code).map (·.retryable)).getD false
    let decoded := decodeGrpcMessage result
    ({ retryable
       error := some { kind := .protocol, message := formatGrpcError code decoded }
       responseExcerpt := buildGrpcExcerpt decoded }, [])

def classifyTransportFailure (result : TransportResult) : WireResult × List CodecDrop :=
  ({ retryable := !result.responseTooLarge, error := result.error },
    (if result.responseTooLarge then [.responseTooLarge] else []) ++
      if result.transportBusy then [.transportBusy] else [])

def kGrpcStatusUnparsed : Int := -1

/-- The code in the status text; what follows the number is not looked at. -/
def statusCode (status : Bytes) : Int :=
  match fromCharsInt status with
  | none => kGrpcStatusUnparsed
  | some (code, _) => code

def classifyResponse (gzip : Gzip) (maxDecompressed : Nat) (alreadyWarned : Bool)
    (result : TransportResult) : Classified :=
  match result.error with
  | some _ =>
      let (wire, drops) := classifyTransportFailure result
      { result := wire, drops, warned := alreadyWarned }
  | none =>
      match findStatusField result (ascii "grpc-status") with
      | none => classifyMissingGrpcStatus result.responseHeaders alreadyWarned
      | some status =>
          let (wire, drops) := classifyGrpcCode gzip maxDecompressed (statusCode status) result
          { result := wire, drops, warned := alreadyWarned }

end Microtel.Wire.Grpc
