import Microtel.Concentrator.Resource
import Microtel.Transport.Http2Streams
import Microtel.Wire.OtlpResponse

/-!
`HttpWireCodec` (`src/wire/http/http_wire_codec.cpp`) with what it makes of each
answer (`src/include/microtel/internal/wire_result.hpp`, `src/wire/auth_failure.hpp`).
zlib, the auth provider and the transport answer as they like; a codec without a
provider is one whose provider has no value to give. A duration is its count of
milliseconds.
-/

namespace Microtel.Wire

open Transport Concentrator

/-- `internal::WireResult`. -/
structure WireResult where
  success : Bool := false
  retryable : Bool := false
  retryAfter : Option Int64 := none
  partialSuccessRejected : UInt32 := 0
  error : Option Error := none
  responseExcerpt : Bytes := []
  deriving DecidableEq

def authFailure (err : Error) : WireResult :=
  { error := some
      { kind := err.kind, message := "authorization header unavailable: " ++ err.message } }

/-! ### std::from_chars -/

def isDecimal (c : UInt8) : Bool := 0x30 ≤ c && c ≤ 0x39

/-- The value of the digits at the front and what follows them, if there are any. -/
def decimalDigits (s : Bytes) : Option (Nat × Bytes) :=
  let digits := s.takeWhile isDecimal
  if digits = [] then none
  else some (digits.foldl (fun n c => 10 * n + (c.toNat - 0x30)) 0, s.dropWhile isDecimal)

/-- `std::from_chars` into a `std::uint32_t`. -/
def fromCharsUInt32 (s : Bytes) : Option (UInt32 × Bytes) :=
  match decimalDigits s with
  | none => none
  | some (n, rest) => if n < 2 ^ 32 then some (UInt32.ofNat n, rest) else none

/-- `std::from_chars` into an `int`. -/
def fromCharsInt (s : Bytes) : Option (Int × Bytes) :=
  match s with
  | 0x2D :: digits =>
      match decimalDigits digits with
      | none => none
      | some (n, rest) => if n ≤ 2 ^ 31 then some (-n, rest) else none
  | _ =>
      match decimalDigits s with
      | none => none
      | some (n, rest) => if n < 2 ^ 31 then some (n, rest) else none

/-! ### Status and body -/

/-- The `DropReason`s the codec records. -/
inductive CodecDrop
  | responseTooLarge | decompressionTooLarge | malformedResponse | transportBusy | connectFailure
  deriving DecidableEq, Repr

inductive GzipDecompressError
  | corrupt | tooLarge
  deriving DecidableEq, Repr

/-- `src/wire/gzip.hpp`. -/
structure Gzip where
  compress : Bytes → Option Bytes
  decompress : Bytes → Nat → Except GzipDecompressError Bytes

inductive BodyError
  | malformed | tooLarge
  deriving DecidableEq, Repr

def kHttpSuccessMin : Int := 200
def kHttpSuccessMax : Int := 300
def kHttpTooManyRequests : Int := 429
def kHttpBadGateway : Int := 502
def kHttpServiceUnavailable : Int := 503
def kHttpGatewayTimeout : Int := 504

def findHeaderValue (headers : List HeaderField) (name : Bytes) : Option Bytes :=
  (headers.find? (·.name = name)).map (·.value)

/-- Only the first field counts, and only in its integer form. -/
def parseRetryAfter (headers : List HeaderField) : Option Int64 :=
  match findHeaderValue headers (ascii "retry-after") with
  | none => none
  | some value =>
      match fromCharsUInt32 value with
      | some (secs, []) => some (Int64.ofNat secs.toNat * 1000)
      | _ => none

def parseStatusCode (headers : List HeaderField) : Int :=
  match findHeaderValue headers (ascii ":status") with
  | none => 0
  | some value =>
      match fromCharsInt value with
      | none => 0
      | some (code, _) => code

def classifyStatus (code : Int) (headers : List HeaderField) : WireResult :=
  if kHttpSuccessMin ≤ code ∧ code < kHttpSuccessMax then { success := true }
  else if code = kHttpTooManyRequests ∨ code = kHttpBadGateway ∨ code = kHttpServiceUnavailable ∨
      code = kHttpGatewayTimeout then
    { retryable := true, retryAfter := parseRetryAfter headers }
  else { error := some { kind := .protocol, message := "HTTP " ++ toString code } }

def decodeBody (gzip : Gzip) (result : TransportResult) (maxDecompressed : Nat) :
    Except BodyError Bytes :=
  let raw := result.responseBody
  match findHeaderValue result.responseHeaders (ascii "content-encoding") with
  | none => .ok raw
  | some encoding =>
      if encoding = [] ∨ encoding = ascii "identity" ∨ raw = [] then .ok raw
      else if encoding ≠ ascii "gzip" then .error .malformed
      else
        match gzip.decompress raw maxDecompressed with
        | .ok inflated => .ok inflated
        | .error .tooLarge => .error .tooLarge
        | .error .corrupt => .error .malformed

def bodyFailure : BodyError → WireResult × List CodecDrop
  | .tooLarge =>
      ({ error := some
          { kind := .malformed, message := "response exceeds max_decompressed_bytes" } },
        [.decompressionTooLarge])
  | .malformed =>
      ({ error := some
          { kind := .malformed, message := "undecodable response content-encoding" } },
        [.malformedResponse])

def unparseableBody : WireResult × List CodecDrop :=
  ({ error := some { kind := .malformed, message := "unparseable export response body" } },
    [.malformedResponse])

def transportFailure (result : TransportResult) : WireResult × List CodecDrop :=
  let busy : List CodecDrop := if result.transportBusy then [.transportBusy] else []
  if result.responseTooLarge then
    ({ error := result.error }, busy ++ [.responseTooLarge])
  else ({ retryable := true, error := result.error }, busy)

def kMaxExcerpt : Nat := 256

def buildExcerpt (body : Bytes) : Bytes := body.take kMaxExcerpt

/-! ### The codec -/

structure HttpWireCodec where
  host : Bytes
  scheme : Bytes
  path : Bytes := []
  signalPath : Bytes := []
  extraHeaders : List HeaderField := []
  compressionGzip : Bool := false
  maxDecompressedBytes : Nat := 4 * 1024 * 1024
  gzip : Gzip

structure Body where
  bytes : Bytes
  compressed : Bool

structure RequestSpec where
  headers : List HeaderField
  payload : Bytes
  deadline : Int64
  deriving DecidableEq

/-- A request that went out; its handle is the number of the transport's `Send`. -/
structure InFlight where
  payload : Bytes
  handle : Nat
  compressed : Bytes
  index : Nat

/-- What answers the calls of one `SendAll`. -/
structure Answers where
  connected : Bool
  /-- The error of `Connect`, if it fails. -/
  connect : Option Error := none
  /-- `GetAuthorization`, by the number of the call. -/
  authorization : Nat → Except Error (Option Bytes)
  /-- What the future of a handle holds when the wait for it ends. -/
  result : Nat → Option TransportResult

namespace HttpWireCodec

def kV1TracesPath : Bytes := ascii "/v1/traces"

def resolvePath (codec : HttpWireCodec) : Bytes :=
  if codec.signalPath ≠ [] then codec.signalPath
  else if codec.path = [] ∨ codec.path = ascii "/" then kV1TracesPath
  else codec.path ++ kV1TracesPath

def appendAuthHeader (headers : List HeaderField) (auth : Except Error (Option Bytes)) :
    Except Error (List HeaderField) :=
  match auth with
  | .error err => .error err
  | .ok none => .ok headers
  | .ok (some token) => .ok (headers ++ [{ name := ascii "authorization", value := token }])

def buildHeaders (codec : HttpWireCodec) (contentLength : Nat) (compressed : Bool)
    (auth : Except Error (Option Bytes)) : Except Error (List HeaderField) :=
  let headers : List HeaderField :=
    [{ name := ascii ":method", value := ascii "POST" },
      { name := ascii ":scheme", value := codec.scheme },
      { name := ascii ":path", value := codec.resolvePath },
      { name := ascii ":authority", value := codec.host },
      { name := ascii "content-type", value := ascii "application/x-protobuf" },
      { name := ascii "content-length", value := ascii (toString contentLength) },
      { name := ascii "accept-encoding", value := ascii "gzip" }]
  let headers := if compressed then
      headers ++ [{ name := ascii "content-encoding", value := ascii "gzip" }]
    else headers
  appendAuthHeader (headers ++ codec.extraHeaders) auth

/-- The body to send, and the buffer of compressed bytes. -/
def prepareBody (codec : HttpWireCodec) (raw : Bytes) : Body × Bytes :=
  if codec.compressionGzip then
    match codec.gzip.compress raw with
    | some storage => ({ bytes := storage, compressed := true }, storage)
    | none => ({ bytes := raw, compressed := false }, [])
  else ({ bytes := raw, compressed := false }, [])

def ensureConnected (answers : Answers) : Option (WireResult × List CodecDrop) :=
  if answers.connected then none
  else
    match answers.connect with
    | none => none
    | some err =>
        some ({ retryable := err.kind ≠ .protocol, error := some err }, [.connectFailure])

def classifyResponse (codec : HttpWireCodec) (result : TransportResult) :
    WireResult × List CodecDrop :=
  match decodeBody codec.gzip result codec.maxDecompressedBytes with
  | .error err => bodyFailure err
  | .ok body =>
      let code := parseStatusCode result.responseHeaders
      let wire := classifyStatus code result.responseHeaders
      let (wire, drops) : WireResult × List CodecDrop :=
        if wire.success && !body.isEmpty then
          let parsed := Proto.parseRejectedSpans body
          let (wire, drops) := if parsed.outcome = .unparseable then unparseableBody else (wire, [])
          ({ wire with partialSuccessRejected := parsed.rejected }, drops)
        else (wire, [])
      ({ wire with responseExcerpt := buildExcerpt body }, drops)

/-- The result of a request that did not answer in time. -/
def deadlineExceeded : WireResult :=
  { retryable := true
    error := some { kind := .cancelled, message := "request deadline exceeded" } }

/-- `CollectOneResult`, of what the future holds when the wait ends. -/
def collectOneResult (codec : HttpWireCodec) : Option TransportResult → WireResult × List CodecDrop
  | none => (deadlineExceeded, [])
  | some result => if result.success then codec.classifyResponse result else transportFailure result

/-! ### SendAll -/

/-- The locals of `SendAll`, and what the transport and the sink have been told. -/
structure Sending where
  payloads : List Bytes
  results : List WireResult
  inFlight : List InFlight := []
  sends : List RequestSpec := []
  cancels : List Nat := []
  drops : List CodecDrop := []

/-- The request of a payload, or why there is none; with it the buffer it needs. -/
def request (codec : HttpWireCodec) (payload : Bytes) (auth : Except Error (Option Bytes))
    (deadline : Int64) : Except Error (RequestSpec × Bytes) :=
  let (body, compressed) := codec.prepareBody payload
  match codec.buildHeaders body.bytes.length body.compressed auth with
  | .error err => .error err
  | .ok headers => .ok ({ headers, payload := body.bytes, deadline }, compressed)

/-- One round of the loop that submits. -/
def submit (codec : HttpWireCodec) (answers : Answers) (deadline : Int64) (s : Sending) (i : Nat) :
    Sending :=
  let payload := s.payloads.getD i []
  match codec.request payload (answers.authorization i) deadline with
  | .error err => { s with results := s.results.set i (authFailure err) }
  | .ok (spec, compressed) =>
      { s with
        payloads := s.payloads.set i []
        inFlight := s.inFlight ++ [{ payload, handle := s.sends.length, compressed, index := i }]
        sends := s.sends ++ [spec] }

/-- One round of the loop that collects. -/
def collect (codec : HttpWireCodec) (answers : Answers) (s : Sending) (item : InFlight) : Sending :=
  let (result, drops) := codec.collectOneResult (answers.result item.handle)
  { s with
    results := s.results.set item.index result
    cancels := if answers.result item.handle = none then s.cancels ++ [item.handle] else s.cancels
    drops := s.drops ++ drops }

def sendAll (codec : HttpWireCodec) (answers : Answers) (payloads : List Bytes) (deadline : Int64) :
    Sending :=
  if payloads = [] then { payloads := [], results := [] }
  else
    match ensureConnected answers with
    | some (failure, drops) =>
        { payloads, results := List.replicate payloads.length failure, drops }
    | none =>
        let s := (List.range payloads.length).foldl (codec.submit answers deadline)
          { payloads, results := List.replicate payloads.length {} }
        s.inFlight.foldl (codec.collect answers) s

end HttpWireCodec

end Microtel.Wire
