import Microtel.Api.Types
import Microtel.Lib.KeyedList

/-!
The requests an `Http2Transport` (`src/transport/http2_transport.cpp`) has on
the wire: the two maps of the I/O thread, the callbacks that fill a stream's
result and the functions that complete a request. A promise is the number of
the `Send` that handed out its future, and `answers` has every `set_value` in
order.
-/

namespace Microtel.Transport

/-- `Error::Kind`. -/
inductive ErrorKind
  | unspecified | network | protocol | resourceExhausted | cancelled | malformed | internalFailure
  deriving DecidableEq, Repr

structure Error where
  kind : ErrorKind
  message : String
  deriving DecidableEq, Repr

structure HeaderField where
  name : Bytes
  value : Bytes
  deriving DecidableEq, Repr

/-- The span of `RequestSpec::payload`: whose buffer it borrows, and how much of
it. -/
structure PayloadSpan where
  owner : Nat
  size : Nat
  deriving DecidableEq, Repr

structure TransportResult where
  success : Bool := false
  responseHeaders : List HeaderField := []
  responseTrailers : List HeaderField := []
  responseBody : Bytes := []
  error : Option Error := none
  responseTooLarge : Bool := false
  transportBusy : Bool := false
  deriving DecidableEq, Repr

inductive ResponseOverflow
  | none | body | trailers
  deriving DecidableEq, Repr

/-- Queued by `Send`, drained by the I/O thread. -/
structure PendingRequest where
  payload : PayloadSpan
  promise : Nat
  handleId : Nat
  deriving DecidableEq, Repr

structure StreamState where
  payload : PayloadSpan
  payloadOffset : Nat := 0
  promise : Nat
  result : TransportResult := {}
  handleId : Nat
  trailerBytes : Nat := 0
  overflow : ResponseOverflow := .none
  deriving DecidableEq, Repr

/-- `m_streams`, `m_handle_to_stream` and the promises set so far. -/
structure StreamTables where
  streams : List (Nat × StreamState) := []
  handleToStream : List (Nat × Nat) := []
  answers : List (Nat × TransportResult) := []
  deriving Repr

namespace StreamTables

def find (t : StreamTables) (streamId : Nat) : Option StreamState :=
  (KeyedList.find Prod.fst t.streams streamId).map Prod.snd

def streamOf (t : StreamTables) (handleId : Nat) : Option Nat :=
  (KeyedList.find Prod.fst t.handleToStream handleId).map Prod.snd

def setValue (t : StreamTables) (promise : Nat) (result : TransportResult) : StreamTables :=
  { t with answers := t.answers ++ [(promise, result)] }

/-- Takes a stream out of both maps and sets its promise. -/
def complete (t : StreamTables) (streamId : Nat) (state : StreamState) (result : TransportResult) :
    StreamTables where
  streams := KeyedList.erase Prod.fst t.streams streamId
  handleToStream := KeyedList.erase Prod.fst t.handleToStream state.handleId
  answers := t.answers ++ [(state.promise, result)]

/-- The maps once `SubmitStream` has a stream id. -/
def insert (t : StreamTables) (streamId : Nat) (req : PendingRequest) : StreamTables :=
  { t with
    streams := KeyedList.put Prod.fst t.streams
      (streamId, { payload := req.payload, promise := req.promise, handleId := req.handleId })
    handleToStream := KeyedList.put Prod.fst t.handleToStream (req.handleId, streamId) }

def update (t : StreamTables) (streamId : Nat) (state : StreamState) : StreamTables :=
  { t with streams := KeyedList.put Prod.fst t.streams (streamId, state) }

end StreamTables

/-! ### Completion -/

/-- `RefuseRequest`. -/
def refuseRequest (error : Error) (busy : Bool) : TransportResult :=
  { error := some error, transportBusy := busy }

def oversizedError (kind : ResponseOverflow) : Error where
  kind := .malformed
  message :=
    if kind = .trailers then "response trailers exceed max_trailer_bytes"
    else "response exceeds max_response_bytes"

/-- `NGHTTP2_CANCEL`. -/
def nghttp2Cancel : Nat := 8

/-- What `FulfillStream` makes of a stream that closed with the code. -/
def closeResult (state : StreamState) (errorCode : Nat) : TransportResult :=
  if state.overflow ≠ .none then
    { state.result with responseTooLarge := true, error := some (oversizedError state.overflow) }
  else if errorCode = 0 then { state.result with success := true }
  else if errorCode = nghttp2Cancel then
    { state.result with error := some ⟨.cancelled, "request cancelled"⟩ }
  else { state.result with error := some ⟨.network, "stream error"⟩ }

def fulfillStream (t : StreamTables) (streamId errorCode : Nat) : StreamTables :=
  match t.find streamId with
  | none => t
  | some state => t.complete streamId state (closeResult state errorCode)

def goawayErrorName : Nat → String
  | 0 => "NO_ERROR"
  | 1 => "PROTOCOL_ERROR"
  | 2 => "INTERNAL_ERROR"
  | 11 => "ENHANCE_YOUR_CALM"
  | _ => "unnamed"

/-- `m_goaway_detail`: the longest text fits its 96 bytes. -/
def goawayDetail (lastStreamId errorCode : Nat) : String :=
  s!"peer sent GOAWAY last_stream_id={lastStreamId} error={errorCode} ({goawayErrorName errorCode})"

/-- One turn of the loop in `RefuseStreamsAbove`. -/
def refuseAbove (lastStreamId : Nat) (detail : String) (t : StreamTables)
    (entry : Nat × StreamState) : StreamTables :=
  if entry.1 ≤ lastStreamId then t
  else t.complete entry.1 entry.2 { entry.2.result with error := some ⟨.network, detail⟩ }

def refuseStreamsAbove (t : StreamTables) (lastStreamId : Nat) (detail : String) : StreamTables :=
  t.streams.foldl (refuseAbove lastStreamId detail) t

def abandonInFlight (t : StreamTables) (message : String) : StreamTables where
  streams := []
  handleToStream := []
  answers := t.answers ++
    t.streams.map fun entry => (entry.2.promise, { error := some ⟨.cancelled, message⟩ })

/-! ### Response callbacks -/

def failOversizedStream (state : StreamState) (kind : ResponseOverflow) : StreamState :=
  { state with
    overflow := kind
    result := { state.result with responseBody := [], responseTrailers := [] } }

def withHeader (maxTrailerBytes : Nat) (state : StreamState) (isTrailer : Bool)
    (field : HeaderField) : StreamState :=
  if state.overflow ≠ .none then state
  else if isTrailer then
    let bytes := state.trailerBytes + (field.name.length + field.value.length)
    if maxTrailerBytes < bytes then
      failOversizedStream { state with trailerBytes := bytes } .trailers
    else
      { state with
        trailerBytes := bytes
        result := { state.result with
          responseTrailers := state.result.responseTrailers ++ [field] } }
  else
    { state with
      result := { state.result with responseHeaders := state.result.responseHeaders ++ [field] } }

def withData (maxResponseBytes : Nat) (state : StreamState) (data : Bytes) : StreamState :=
  if state.overflow ≠ .none then state
  else if maxResponseBytes < state.result.responseBody.length + data.length then
    failOversizedStream state .body
  else
    { state with result := { state.result with responseBody := state.result.responseBody ++ data } }

def onResponseHeader (t : StreamTables) (maxTrailerBytes streamId : Nat) (isTrailer : Bool)
    (field : HeaderField) : StreamTables :=
  match t.find streamId with
  | none => t
  | some state => t.update streamId (withHeader maxTrailerBytes state isTrailer field)

def onResponseData (t : StreamTables) (maxResponseBytes streamId : Nat) (data : Bytes) :
    StreamTables :=
  match t.find streamId with
  | none => t
  | some state => t.update streamId (withData maxResponseBytes state data)

/-! ### Payload -/

/-- How many bytes `PayloadReadCb` copies into a buffer of the length. -/
def toCopy (state : StreamState) (length : Nat) : Nat :=
  min (state.payload.size - state.payloadOffset) length

def payloadRead (state : StreamState) (length : Nat) : StreamState :=
  { state with payloadOffset := state.payloadOffset + toCopy state length }

end Microtel.Transport
