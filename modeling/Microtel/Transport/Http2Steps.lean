import Microtel.Transport.Http2Transport

/-!
What each step of the transport can do: the steps of one call or of the I/O
thread with the guards they took, and from these the steps of the whole.
-/

namespace Microtel.Transport.Http2Transport

variable {s s' : State}

/-! ### Calls -/

inductive SendMoves (s : State) (k : Nat) : SendPhase → State → SendPhase → Prop
  | passed {payload} (h : s.state = .connected) :
      SendMoves s k (.checking payload) s (.numbering payload)
  | notConnected {payload} (h : s.state ≠ .connected) :
      SendMoves s k (.checking payload)
        { s with tables := s.tables.setValue k (refuseRequest ⟨.network, "not connected"⟩ false) }
        (.returned 0)
  | numbered {payload} :
      SendMoves s k (.numbering payload) { s with nextHandleId := s.nextHandleId + 1 }
        (.pushing payload s.nextHandleId)
  | full {payload id} (h : s.budgets.maxPendingRequests ≤ s.pendingQueue.length) :
      SendMoves s k (.pushing payload id)
        { s with tables := s.tables.setValue k (refuseRequest
          ⟨.resourceExhausted, "transport request queue full (max_pending_requests)"⟩ true) }
        (.returned 0)
  | pushed {payload id} (h : s.pendingQueue.length < s.budgets.maxPendingRequests) :
      SendMoves s k (.pushing payload id)
        { s with pendingQueue := s.pendingQueue ++ [⟨payload, k, id⟩] } (.returned id)

theorem advanceSend_spec {k : Nat} {φ ψ : SendPhase} (h : advanceSend s k φ = some (s', ψ)) :
    SendMoves s k φ s' ψ := by
  cases φ with
  | checking payload =>
      simp only [advanceSend] at h
      split at h
      · next hstate =>
        cases h
        exact .passed hstate
      · next hstate =>
        cases h
        exact .notConnected hstate
  | numbering payload =>
      cases h
      exact .numbered
  | pushing payload id =>
      simp only [advanceSend] at h
      split at h
      · next hfull =>
        cases h
        exact .full hfull
      · next hroom =>
        cases h
        exact .pushed (Nat.lt_of_not_le hroom)
  | returned id => cases h

inductive ConnectMoves (s : State) : ConnectPhase → State → ConnectPhase → Prop
  | claimed {opts} (h : s.state = .disconnected) :
      ConnectMoves s (.claiming opts) { s with state := .connecting } (.adopting opts .disconnected)
  | dropped {opts} (h : s.state = .reconnecting) :
      ConnectMoves s (.claiming opts) s (.reclaiming opts)
  | reclaimed {opts} (h : s.state = .reconnecting) :
      ConnectMoves s (.reclaiming opts) { s with state := .connecting }
        (.adopting opts .reconnecting)
  | blocked {opts φ} (hφ : φ = .claiming opts ∨ φ = .reclaiming opts) :
      ConnectMoves s φ s (.returned (blockedBy s.state))
  | adopted {opts prior} :
      ConnectMoves s (.adopting opts prior) { s with budgets := opts } (.dialing prior)
  | dialed {prior} :
      ConnectMoves s (.dialing prior) { s with goawayReceived := false } (.handshaking prior)
  | shook {prior} :
      ConnectMoves s (.handshaking prior) { s with session := some 1 } (.registering prior)
  | registered {prior} : ConnectMoves s (.registering prior) s .publishing
  | failed {prior φ} (hφ : φ = .dialing prior ∨ φ = .handshaking prior ∨ φ = .registering prior) :
      ConnectMoves s φ s (.rollingBack prior)
  | rolledBack {prior} :
      ConnectMoves s (.rollingBack prior) { s with session := none, state := prior }
        (.returned .failed)
  | published :
      ConnectMoves s .publishing { s with state := .connected } (.returned .connected)

theorem advanceConnect_spec {ok : Bool} {φ ψ : ConnectPhase}
    (h : advanceConnect s ok φ = some (s', ψ)) : ConnectMoves s φ s' ψ := by
  cases φ with
  | claiming opts =>
      simp only [advanceConnect] at h
      split at h
      · next hstate =>
        cases h
        exact .claimed hstate
      · split at h
        · next hstate =>
          cases h
          exact .dropped hstate
        · cases h
          exact .blocked (Or.inl rfl)
  | reclaiming opts =>
      simp only [advanceConnect] at h
      split at h
      · next hstate =>
        cases h
        exact .reclaimed hstate
      · cases h
        exact .blocked (Or.inr rfl)
  | adopting opts prior =>
      cases h
      exact .adopted
  | dialing prior =>
      cases ok with
      | true =>
          cases h
          exact .dialed
      | false =>
          cases h
          exact .failed (Or.inl rfl)
  | handshaking prior =>
      cases ok with
      | true =>
          cases h
          exact .shook
      | false =>
          cases h
          exact .failed (Or.inr (Or.inl rfl))
  | registering prior =>
      cases ok with
      | true =>
          cases h
          exact .registered
      | false =>
          cases h
          exact .failed (Or.inr (Or.inr rfl))
  | rollingBack prior =>
      cases h
      exact .rolledBack
  | publishing =>
      cases h
      exact .published
  | returned result => cases h

inductive CloseMoves (s : State) : ClosePhase → State → ClosePhase → Prop
  | again (h : s.state = .closed) :
      CloseMoves s .exchanging { s with state := .closed } (.returned .alreadyShutDown)
  | closed (h : s.state ≠ .closed) : CloseMoves s .exchanging { s with state := .closed } .stopping
  | stopped : CloseMoves s .stopping { s with stop := true } .waiting
  | waited : CloseMoves s .waiting s (.joining (s.io = .exited))
  | joined {inTime} (h : s.io = .exited) : CloseMoves s (.joining inTime) s (.abandoning inTime)
  | abandoned {inTime} :
      CloseMoves s (.abandoning inTime)
        { s with tables := abandonInFlight s.tables "transport closed" } (.sweeping inTime)
  | swept {inTime} : CloseMoves s (.sweeping inTime) (sweepPending s) (.tearingDown inTime)
  | tornDown {inTime} :
      CloseMoves s (.tearingDown inTime) { s with session := none }
        (.returned (if inTime then .completed else .timedOut))

theorem advanceClose_spec {φ ψ : ClosePhase} (h : advanceClose s φ = some (s', ψ)) :
    CloseMoves s φ s' ψ := by
  cases φ with
  | exchanging =>
      simp only [advanceClose] at h
      split at h
      · next hstate =>
        cases h
        exact .again hstate
      · next hstate =>
        cases h
        exact .closed hstate
  | stopping =>
      cases h
      exact .stopped
  | waiting =>
      cases h
      exact .waited
  | joining inTime =>
      simp only [advanceClose] at h
      split at h
      · next hexited =>
        cases h
        exact .joined hexited
      · cases h
  | abandoning inTime =>
      cases h
      exact .abandoned
  | sweeping inTime =>
      cases h
      exact .swept
  | tearingDown inTime =>
      cases h
      exact .tornDown
  | returned status => cases h

/-! ### The I/O thread -/

inductive IoMoves (s : State) (ok : Bool) : IoPhase → State → IoPhase → Prop
  | stopped (h : s.stop = true) : IoMoves s ok .looping s .exited
  | dispatching (h : s.stop = false) : IoMoves s ok .looping s .waiting
  | dispatched : IoMoves s ok .waiting s .gating
  | ignored {error read} (h : s.state ≠ .connected) : IoMoves s ok (.checking error read) s .waiting
  | errored {read} (h : s.state = .connected) : IoMoves s ok (.checking true read) s .abandoning
  | readable (h : s.state = .connected) : IoMoves s ok (.checking false true) s .receiving
  | writable (h : s.state = .connected) : IoMoves s ok (.checking false false) s .flushing
  | abandoned :
      IoMoves s ok .abandoning
        { s with tables := abandonInFlight s.tables "connection lost" } .losing
  | lost : IoMoves s ok .losing { s with state := .reconnecting } .waiting
  | received (hok : ok = true) : IoMoves s ok .receiving s (.finishing false)
  | broken (hok : ok = false) : IoMoves s ok .receiving s .abandoning
  | busy {inLoop} : IoMoves s ok (.finishing inLoop) s (if inLoop then .looping else .flushing)
  | idle {inLoop} (h : s.tables.streams = []) :
      IoMoves s ok (.finishing inLoop) s (.exchanging inLoop)
  | retired {inLoop} (h : s.state = .connected) :
      IoMoves s ok (.exchanging inLoop) { s with state := .reconnecting }
        (if inLoop then .looping else .waiting)
  | overtaken {inLoop} (h : s.state ≠ .connected) :
      IoMoves s ok (.exchanging inLoop) s (if inLoop then .looping else .flushing)
  | flushed : IoMoves s ok .flushing s .waiting
  | gated (h : s.state = .connected) : IoMoves s ok .gating s .swappingPending
  | skipped : IoMoves s ok .gating s .looping
  | swappedPending :
      IoMoves s ok .swappingPending { s with pendingQueue := [], atSwap := s.cancels }
        (.submitting s.pendingQueue)
  | submittedAll : IoMoves s ok (.submitting []) s .swappingCancels
  | submitted {req rest streamId} (h : FreshStream s.session streamId) :
      IoMoves s ok (.submitting (req :: rest)) (submitStream s req streamId) (.sending rest)
  | submitFailed {req rest} :
      IoMoves s ok (.submitting (req :: rest)) (submitFailed s req) (.submitting rest)
  | sent {rest} : IoMoves s ok (.sending rest) s (.submitting rest)
  | swappedCancels :
      IoMoves s ok .swappingCancels { s with cancelQueue := [] } (.cancelling s.cancelQueue)
  | cancelledAll :
      IoMoves s ok (.cancelling []) { s with drained := s.atSwap } (.finishing true)
  | unknown {id rest} (h : s.tables.streamOf id = none) :
      IoMoves s ok (.cancelling (id :: rest)) s (.cancelling rest)
  | found {id rest streamId} (h : s.tables.streamOf id = some streamId) :
      IoMoves s ok (.cancelling (id :: rest)) s (.resetting streamId rest)
  | reset {streamId rest} : IoMoves s ok (.resetting streamId rest) s (.cancelling rest)

theorem advanceIo_spec {ok : Bool} {streamId : Nat} {φ ψ : IoPhase}
    (h : advanceIo s ok streamId φ = some (s', ψ)) :
    IoMoves s ok φ s' ψ := by
  cases φ with
  | looping =>
      cases hstop : s.stop with
      | true =>
          simp only [advanceIo, hstop, if_true] at h
          cases h
          exact .stopped hstop
      | false =>
          simp only [advanceIo, hstop] at h
          cases h
          exact .dispatching hstop
  | waiting =>
      cases h
      exact .dispatched
  | checking error read =>
      simp only [advanceIo] at h
      split at h
      · next hstate =>
        cases h
        exact .ignored hstate
      · next hstate =>
        have hconnected : s.state = .connected := not_not.mp hstate
        cases error with
        | true =>
            cases h
            exact .errored hconnected
        | false =>
            cases read with
            | true =>
                cases h
                exact .readable hconnected
            | false =>
                cases h
                exact .writable hconnected
  | abandoning =>
      cases h
      exact .abandoned
  | losing =>
      cases h
      exact .lost
  | receiving =>
      cases ok with
      | true =>
          cases h
          exact .received rfl
      | false =>
          cases h
          exact .broken rfl
  | finishing inLoop =>
      simp only [advanceIo] at h
      split at h
      · next hidle =>
        cases h
        apply IoMoves.idle
        simpa using (Bool.and_eq_true_iff.mp hidle).2
      · cases h
        exact .busy
  | exchanging inLoop =>
      simp only [advanceIo] at h
      split at h
      · next hstate =>
        cases h
        exact .retired hstate
      · next hstate =>
        cases h
        exact .overtaken hstate
  | flushing =>
      cases h
      exact .flushed
  | gating =>
      simp only [advanceIo] at h
      split at h
      · next hgate =>
        cases h
        apply IoMoves.gated
        simpa using (Bool.and_eq_true_iff.mp hgate).1
      · cases h
        exact .skipped
  | swappingPending =>
      cases h
      exact .swappedPending
  | submitting reqs =>
      cases reqs with
      | nil =>
          cases h
          exact .submittedAll
      | cons req rest =>
          cases ok with
          | true =>
              simp only [advanceIo, if_true] at h
              split at h
              · next hfresh =>
                cases h
                exact .submitted hfresh
              · cases h
          | false =>
              cases h
              exact .submitFailed
  | sending rest =>
      cases h
      exact .sent
  | swappingCancels =>
      cases h
      exact .swappedCancels
  | cancelling ids =>
      cases ids with
      | nil =>
          cases h
          exact .cancelledAll
      | cons id rest =>
          simp only [advanceIo] at h
          split at h
          · next hstream =>
            cases h
            exact .unknown hstream
          · next streamId hstream =>
            cases h
            exact .found hstream
  | resetting streamId rest =>
      cases h
      exact .reset
  | exited => cases h

/-- A callback changes the tables and the GOAWAY flag. -/
inductive CallbackMoves (s : State) : Callback → State → Prop
  | header (streamId isTrailer field) (h : s.io = .receiving) :
      CallbackMoves s (.header streamId isTrailer field) { s with
        tables := onResponseHeader s.tables s.budgets.maxTrailerBytes streamId isTrailer field }
  | data (streamId bytes) (h : s.io = .receiving) :
      CallbackMoves s (.data streamId bytes) { s with
        tables := onResponseData s.tables s.budgets.maxResponseBytes streamId bytes }
  | streamClose (streamId errorCode) (h : s.io = .receiving ∨ s.io.isSending = true) :
      CallbackMoves s (.streamClose streamId errorCode)
        { s with tables := fulfillStream s.tables streamId errorCode }
  | goaway (lastStreamId errorCode) (h : s.io = .receiving) :
      CallbackMoves s (.goaway lastStreamId errorCode) (onGoaway s lastStreamId errorCode)
  | payloadRead {streamId state} (length) (h : s.io.isSending = true)
      (hfind : s.tables.find streamId = some state) :
      CallbackMoves s (.payloadRead streamId length)
        { s with tables := s.tables.update streamId (payloadRead state length) }

theorem callback_spec {c : Callback} (h : callback s c = some s') : CallbackMoves s c s' := by
  cases c with
  | header streamId isTrailer field =>
      simp only [callback] at h
      split at h
      · next hio =>
        cases h
        exact .header streamId isTrailer field hio
      · cases h
  | data streamId bytes =>
      simp only [callback] at h
      split at h
      · next hio =>
        cases h
        exact .data streamId bytes hio
      · cases h
  | streamClose streamId errorCode =>
      simp only [callback] at h
      split at h
      · next hio =>
        cases h
        exact .streamClose streamId errorCode hio
      · cases h
  | goaway lastStreamId errorCode =>
      simp only [callback] at h
      split at h
      · next hio =>
        cases h
        exact .goaway lastStreamId errorCode hio
      · cases h
  | payloadRead streamId length =>
      simp only [callback] at h
      split at h
      · next hio =>
        rw [Option.map_eq_some_iff] at h
        obtain ⟨state, hfind, hs'⟩ := h
        cases hs'
        exact .payloadRead length hio hfind
      · cases h

/-! ### The whole -/

/-- A step, by who takes it. -/
inductive Stepped (s : State) : Action → State → Prop
  | sendBegun (payload) :
      Stepped s (.send payload) { s with sends := s.sends ++ [.checking payload] }
  | sent {k φ t ψ} (hk : s.sends[k]? = some φ) (M : SendMoves s k φ t ψ) :
      Stepped s (.advanceSend k) { t with sends := s.sends.set k ψ }
  | cancelled {k id : Nat} (hk : s.sends[k]? = some (.returned id)) :
      Stepped s (.cancel k) (cancel s id)
  | connectBegun (opts) :
      Stepped s (.connect opts) { s with connects := s.connects ++ [.claiming opts] }
  | connected {k ok φ t ψ} (hk : s.connects[k]? = some φ) (M : ConnectMoves s φ t ψ) :
      Stepped s (.advanceConnect k ok) { t with connects := s.connects.set k ψ }
  | refusedEarly {k : Nat} {prior} (lastStreamId errorCode)
      (hk : s.connects[k]? = some (.handshaking prior)) :
      Stepped s (.handshakeGoaway k lastStreamId errorCode) (onGoaway s lastStreamId errorCode)
  | closeBegun : Stepped s .close { s with closes := s.closes ++ [.exchanging] }
  | closed {k φ t ψ} (hk : s.closes[k]? = some φ) (M : CloseMoves s φ t ψ) :
      Stepped s (.advanceClose k) { t with closes := s.closes.set k ψ }
  | event (error read) (h : s.io = .waiting) :
      Stepped s (.event error read) { s with io := .checking error read }
  | io {ok streamId t ψ} (M : IoMoves s ok s.io t ψ) :
      Stepped s (.advanceIo ok streamId) { t with io := ψ }
  | callback {c t} (M : CallbackMoves s c t) : Stepped s (.callback c) t

theorem step_spec {a : Action} (h : step s a = some s') : Stepped s a s' := by
  cases a with
  | send payload =>
      cases h
      exact .sendBegun payload
  | advanceSend k =>
      simp only [step, Option.bind_eq_bind, Option.bind_eq_some_iff] at h
      obtain ⟨⟨t, ψ⟩, ⟨φ, hk, hadvance⟩, hs'⟩ := h
      cases hs'
      exact .sent hk (advanceSend_spec hadvance)
  | cancel k =>
      simp only [step] at h
      split at h
      · next id hk =>
        cases h
        exact .cancelled hk
      · cases h
  | connect opts =>
      cases h
      exact .connectBegun opts
  | advanceConnect k ok =>
      simp only [step, Option.bind_eq_bind, Option.bind_eq_some_iff] at h
      obtain ⟨⟨t, ψ⟩, ⟨φ, hk, hadvance⟩, hs'⟩ := h
      cases hs'
      exact .connected hk (advanceConnect_spec hadvance)
  | handshakeGoaway k lastStreamId errorCode =>
      simp only [step] at h
      split at h
      · next prior hk =>
        cases h
        exact .refusedEarly lastStreamId errorCode hk
      · cases h
  | close =>
      cases h
      exact .closeBegun
  | advanceClose k =>
      simp only [step, Option.bind_eq_bind, Option.bind_eq_some_iff] at h
      obtain ⟨⟨t, ψ⟩, ⟨φ, hk, hadvance⟩, hs'⟩ := h
      cases hs'
      exact .closed hk (advanceClose_spec hadvance)
  | event error read =>
      simp only [step] at h
      split at h
      · next hio =>
        cases h
        exact .event error read hio
      · cases h
  | advanceIo ok streamId =>
      simp only [step, Option.bind_eq_bind, Option.bind_eq_some_iff] at h
      obtain ⟨⟨t, ψ⟩, hadvance, hs'⟩ := h
      cases hs'
      exact .io (advanceIo_spec hadvance)
  | callback c => exact .callback (callback_spec h)

end Microtel.Transport.Http2Transport
