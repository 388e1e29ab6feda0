import Microtel.Lib.Machine
import Microtel.Lib.Threads
import Microtel.Transport.Http2Streams

/-!
`Http2Transport` (`src/transport/http2_transport.cpp`) under any number of
concurrent calls, with its one I/O thread. Each access to the state word, each
critical section, each stage of `Connect` and each callback of nghttp2 is one
step. The peer, the reactor and nghttp2 answer as they like; the ids nghttp2 gives
to the streams of a session increase (`FreshStream`).
-/

namespace Microtel.Transport.Http2Transport

inductive ConnectionState
  | disconnected | connecting | connected | reconnecting | closed
  deriving DecidableEq, Repr

inductive Status
  | completed | timedOut | alreadyShutDown
  deriving DecidableEq, Repr

structure ConnectOptions where
  maxResponseBytes : Nat := 1048576
  maxTrailerBytes : Nat := 65536
  maxPendingRequests : Nat := 64
  deriving DecidableEq, Repr

/-- Where a `Send` is: before what its constructor names. -/
inductive SendPhase
  | checking (payload : PayloadSpan)
  | numbering (payload : PayloadSpan)
  | pushing (payload : PayloadSpan) (id : Nat)
  /-- With the id of the handle, 0 for a refused request. -/
  | returned (id : Nat)
  deriving DecidableEq, Repr

inductive ConnectResult
  | connected | transportClosed | alreadyConnecting | failed
  deriving DecidableEq, Repr

/-- Where a `Connect` is; `prior` is the state it won from. -/
inductive ConnectPhase
  | claiming (opts : ConnectOptions)
  | reclaiming (opts : ConnectOptions)
  | adopting (opts : ConnectOptions) (prior : ConnectionState)
  /-- The endpoint, the socket and TLS. -/
  | dialing (prior : ConnectionState)
  | handshaking (prior : ConnectionState)
  | registering (prior : ConnectionState)
  | rollingBack (prior : ConnectionState)
  | publishing
  | returned (result : ConnectResult)
  deriving DecidableEq, Repr

inductive ClosePhase
  | exchanging
  | stopping
  | waiting
  | joining (inTime : Bool)
  | abandoning (inTime : Bool)
  | sweeping (inTime : Bool)
  | tearingDown (inTime : Bool)
  | returned (status : Status)
  deriving DecidableEq, Repr

/-- Where the I/O thread is. -/
inductive IoPhase
  /-- Before the loop reads `m_stop`. -/
  | looping
  /-- In `WaitAndDispatch`. -/
  | waiting
  /-- In `OnIoEvent`, before it reads the state. -/
  | checking (error read : Bool)
  | abandoning
  /-- Before the store of `Reconnecting`. -/
  | losing
  /-- In `nghttp2_session_recv`. -/
  | receiving
  /-- In `FinishGoawayDrainIfIdle`, called by the loop or by `OnIoEvent`. -/
  | finishing (inLoop : Bool)
  | exchanging (inLoop : Bool)
  /-- In the `nghttp2_session_send` that ends `OnIoEvent`. -/
  | flushing
  /-- Before the loop reads the state. -/
  | gating
  | swappingPending
  | submitting (local_ : List PendingRequest)
  /-- In the `nghttp2_session_send` that ends `SubmitStream`. -/
  | sending (local_ : List PendingRequest)
  | swappingCancels
  | cancelling (local_ : List Nat)
  /-- In the `nghttp2_session_send` that follows the reset of the stream. -/
  | resetting (streamId : Nat) (local_ : List Nat)
  | exited
  deriving DecidableEq, Repr

structure State where
  state : ConnectionState := .disconnected
  stop : Bool := false
  /-- `m_nghttp2_session`, as the least stream id it may still give. -/
  session : Option Nat := none
  goawayReceived : Bool := false
  budgets : ConnectOptions := {}
  nextHandleId : Nat := 1
  pendingQueue : List PendingRequest := []
  cancelQueue : List Nat := []
  tables : StreamTables := {}
  sends : List SendPhase := []
  connects : List ConnectPhase := []
  closes : List ClosePhase := []
  io : IoPhase := .looping
  /-- The handles whose `Cancel` has returned: now, when the loop last swapped
  the pending queue, and at the last such swap of a drain that is complete. No
  step reads them. -/
  cancels : List Nat := []
  atSwap : List Nat := []
  drained : List Nat := []

/-- The callbacks of nghttp2. -/
inductive Callback
  | header (streamId : Nat) (isTrailer : Bool) (field : HeaderField)
  | data (streamId : Nat) (bytes : Bytes)
  | streamClose (streamId errorCode : Nat)
  | goaway (lastStreamId errorCode : Nat)
  | payloadRead (streamId length : Nat)
  deriving DecidableEq, Repr

inductive Action
  | send (payload : PayloadSpan)
  | advanceSend (k : Nat)
  /-- `Cancel` of the handle that the `Send` returned. -/
  | cancel (k : Nat)
  | connect (opts : ConnectOptions)
  /-- The next step of a `Connect`; a stage may fail. -/
  | advanceConnect (k : Nat) (ok : Bool)
  /-- The peer's GOAWAY during the handshake. -/
  | handshakeGoaway (k lastStreamId errorCode : Nat)
  | close
  | advanceClose (k : Nat)
  /-- The reactor dispatches an event. -/
  | event (error read : Bool)
  /-- The next step of the I/O thread, with what nghttp2 answered: whether it
  succeeded, and the id of the stream where it submits a request. -/
  | advanceIo (ok : Bool) (streamId : Nat)
  | callback (c : Callback)
  deriving DecidableEq, Repr

/-! ### Calls -/

def advanceSend (s : State) (k : Nat) : SendPhase → Option (State × SendPhase)
  | .checking payload =>
      if s.state = .connected then some (s, .numbering payload)
      else
        some ({ s with
          tables := s.tables.setValue k (refuseRequest ⟨.network, "not connected"⟩ false) },
          .returned 0)
  | .numbering payload =>
      some ({ s with nextHandleId := s.nextHandleId + 1 }, .pushing payload s.nextHandleId)
  | .pushing payload id =>
      if s.budgets.maxPendingRequests ≤ s.pendingQueue.length then
        some ({ s with
          tables := s.tables.setValue k (refuseRequest
            ⟨.resourceExhausted, "transport request queue full (max_pending_requests)"⟩ true) },
          .returned 0)
      else some ({ s with pendingQueue := s.pendingQueue ++ [⟨payload, k, id⟩] }, .returned id)
  | .returned _ => none

def cancel (s : State) (id : Nat) : State :=
  if id = 0 then s
  else { s with cancelQueue := s.cancelQueue ++ [id], cancels := s.cancels ++ [id] }

/-- Why `Connect` did not get the slot. -/
def blockedBy (state : ConnectionState) : ConnectResult :=
  if state = .closed then .transportClosed else .alreadyConnecting

def onGoaway (s : State) (lastStreamId errorCode : Nat) : State :=
  { s with
    goawayReceived := true
    tables := refuseStreamsAbove s.tables lastStreamId (goawayDetail lastStreamId errorCode) }

def advanceConnect (s : State) (ok : Bool) : ConnectPhase → Option (State × ConnectPhase)
  -- the two compare-exchanges of `ClaimConnectSlot`
  | .claiming opts =>
      if s.state = .disconnected then
        some ({ s with state := .connecting }, .adopting opts .disconnected)
      else if s.state = .reconnecting then some (s, .reclaiming opts)
      else some (s, .returned (blockedBy s.state))
  | .reclaiming opts =>
      if s.state = .reconnecting then
        some ({ s with state := .connecting }, .adopting opts .reconnecting)
      else some (s, .returned (blockedBy s.state))
  | .adopting opts prior => some ({ s with budgets := opts }, .dialing prior)
  | .dialing prior =>
      if ok then some ({ s with goawayReceived := false }, .handshaking prior)
      else some (s, .rollingBack prior)
  | .handshaking prior =>
      if ok then some ({ s with session := some 1 }, .registering prior)
      else some (s, .rollingBack prior)
  | .registering prior => if ok then some (s, .publishing) else some (s, .rollingBack prior)
  | .rollingBack prior => some ({ s with session := none, state := prior }, .returned .failed)
  | .publishing => some ({ s with state := .connected }, .returned .connected)
  | .returned _ => none

/-- The requests `Close` answers without their having been submitted. -/
def sweepPending (s : State) : State :=
  { s with
    tables := s.pendingQueue.foldl
      (fun t req => t.setValue req.promise { error := some ⟨.cancelled, "transport closed"⟩ })
      s.tables
    pendingQueue := [] }

def advanceClose (s : State) : ClosePhase → Option (State × ClosePhase)
  | .exchanging =>
      some ({ s with state := .closed },
        if s.state = .closed then .returned .alreadyShutDown else .stopping)
  | .stopping => some ({ s with stop := true }, .waiting)
  -- the wait ends with the loop's exit or at the timeout
  | .waiting => some (s, .joining (s.io = .exited))
  | .joining inTime => if s.io = .exited then some (s, .abandoning inTime) else none
  | .abandoning inTime =>
      some ({ s with tables := abandonInFlight s.tables "transport closed" }, .sweeping inTime)
  | .sweeping inTime => some (sweepPending s, .tearingDown inTime)
  | .tearingDown inTime =>
      some ({ s with session := none }, .returned (if inTime then .completed else .timedOut))
  | .returned _ => none

/-! ### The I/O thread -/

/-- The session may give the id to its next stream. -/
def FreshStream (session : Option Nat) (streamId : Nat) : Prop :=
  ∃ least ∈ session, least ≤ streamId

instance : DecidableRel FreshStream := fun session streamId =>
  inferInstanceAs (Decidable (∃ least ∈ session, least ≤ streamId))

/-- `SubmitStream`, up to its `nghttp2_session_send`. -/
def submitStream (s : State) (req : PendingRequest) (streamId : Nat) : State :=
  { s with session := some (streamId + 1), tables := s.tables.insert streamId req }

/-- `SubmitStream` when `nghttp2_submit_request` fails. -/
def submitFailed (s : State) (req : PendingRequest) : State :=
  { s with
    tables := s.tables.setValue req.promise
      { error := some ⟨.network, "nghttp2_submit_request failed"⟩ } }

def advanceIo (s : State) (ok : Bool) (streamId : Nat) : IoPhase → Option (State × IoPhase)
  | .looping => some (s, if s.stop then .exited else .waiting)
  | .waiting => some (s, .gating)
  -- OnIoEvent
  | .checking error read =>
      some (s, if s.state ≠ .connected then .waiting
        else if error then .abandoning else if read then .receiving else .flushing)
  | .abandoning => some ({ s with tables := abandonInFlight s.tables "connection lost" }, .losing)
  | .losing => some ({ s with state := .reconnecting }, .waiting)
  | .receiving => some (s, if ok then .finishing false else .abandoning)
  | .finishing inLoop =>
      some (s, if s.goawayReceived && s.tables.streams.isEmpty then .exchanging inLoop
        else if inLoop then .looping else .flushing)
  | .exchanging inLoop =>
      if s.state = .connected then
        some ({ s with state := .reconnecting }, if inLoop then .looping else .waiting)
      else some (s, if inLoop then .looping else .flushing)
  | .flushing => some (s, .waiting)
  -- IoThreadLoop, after the dispatch
  | .gating =>
      some (s, if s.state = .connected && s.session.isSome then .swappingPending else .looping)
  | .swappingPending =>
      some ({ s with pendingQueue := [], atSwap := s.cancels }, .submitting s.pendingQueue)
  | .submitting [] => some (s, .swappingCancels)
  | .submitting (req :: rest) =>
      if ok then
        if FreshStream s.session streamId then some (submitStream s req streamId, .sending rest)
        else none
      else some (submitFailed s req, .submitting rest)
  | .sending rest => some (s, .submitting rest)
  | .swappingCancels => some ({ s with cancelQueue := [] }, .cancelling s.cancelQueue)
  | .cancelling [] => some ({ s with drained := s.atSwap }, .finishing true)
  | .cancelling (id :: rest) =>
      match s.tables.streamOf id with
      | none => some (s, .cancelling rest)
      | some streamId => some (s, .resetting streamId rest)
  | .resetting _ rest => some (s, .cancelling rest)
  | .exited => none

/-- In `nghttp2_session_send`. -/
def IoPhase.isSending : IoPhase → Bool
  | .flushing | .sending _ | .resetting _ _ => true
  | _ => false

/-- What nghttp2 may call, and where: responses and GOAWAY while it receives,
the payload while it sends, and the close of a stream in both. -/
def callback (s : State) : Callback → Option State
  | .header streamId isTrailer field =>
      if s.io = .receiving then
        some { s with
          tables := onResponseHeader s.tables s.budgets.maxTrailerBytes streamId isTrailer field }
      else none
  | .data streamId bytes =>
      if s.io = .receiving then
        some { s with tables := onResponseData s.tables s.budgets.maxResponseBytes streamId bytes }
      else none
  | .streamClose streamId errorCode =>
      if s.io = .receiving ∨ s.io.isSending then
        some { s with tables := fulfillStream s.tables streamId errorCode }
      else none
  | .goaway lastStreamId errorCode =>
      if s.io = .receiving then some (onGoaway s lastStreamId errorCode) else none
  | .payloadRead streamId length =>
      if s.io.isSending then
        (s.tables.find streamId).map fun state =>
          { s with tables := s.tables.update streamId (payloadRead state length) }
      else none

/-! ### Steps -/

def step (s : State) : Action → Option State
  | .send payload => some { s with sends := s.sends ++ [.checking payload] }
  | .advanceSend k => do
      let (s', φ) ← s.sends[k]?.bind (advanceSend s k)
      some { s' with sends := s.sends.set k φ }
  | .cancel k =>
      match s.sends[k]? with
      | some (.returned id) => some (cancel s id)
      | _ => none
  | .connect opts => some { s with connects := s.connects ++ [.claiming opts] }
  | .advanceConnect k ok => do
      let (s', φ) ← s.connects[k]?.bind (advanceConnect s ok)
      some { s' with connects := s.connects.set k φ }
  | .handshakeGoaway k lastStreamId errorCode =>
      match s.connects[k]? with
      | some (.handshaking _) => some (onGoaway s lastStreamId errorCode)
      | _ => none
  | .close => some { s with closes := s.closes ++ [.exchanging] }
  | .advanceClose k => do
      let (s', φ) ← s.closes[k]?.bind (advanceClose s)
      some { s' with closes := s.closes.set k φ }
  | .event error read =>
      if s.io = .waiting then some { s with io := .checking error read } else none
  | .advanceIo ok streamId => do
      let (s', φ) ← advanceIo s ok streamId s.io
      some { s' with io := φ }
  | .callback c => callback s c

def init : State := {}

end Microtel.Transport.Http2Transport
