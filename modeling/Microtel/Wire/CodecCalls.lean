import Microtel.Transport.Http2Answers
import Microtel.Transport.Http2Payloads

/-!
The calls of the wire codecs (`HttpWireCodec::Send` and `SendAll` in
`src/wire/http/http_wire_codec.cpp`, `GrpcWireCodec::Send` in
`src/wire/grpc/grpc_wire_codec.cpp`) over the transport: connect if need be,
submit the bodies, wait for each future or for the deadline, cancel what the
deadline caught, and return, which frees the bodies. `Send` is `SendAll` of one
body.
-/

namespace Microtel.Wire.CodecCalls

open Microtel.Transport Microtel.Transport.Http2Transport

/-- Where a codec call is; bodies are their sizes and requests the numbers of the
transport's `Send`s. -/
inductive CallPhase
  | ensuring (bodies : List Nat)
  | connecting (bodies : List Nat) (connect : Nat)
  | submitting (bodies inFlight : List Nat)
  | sending (send : Nat) (bodies inFlight : List Nat)
  | collecting (inFlight gaveUp : List Nat)
  | cancelling (send : Nat) (inFlight gaveUp : List Nat)
  | returned
  deriving DecidableEq, Repr

structure State where
  transport : Http2Transport.State := {}
  calls : List CallPhase := []

inductive Action
  | call (bodies : List Nat)
  | ensureConnected (c : Nat) (opts : ConnectOptions)
  | connected (c : Nat)
  /-- The next body; the auth provider may fail. -/
  | submit (c : Nat) (headers : Bool)
  | sent (c : Nat)
  /-- The future of the next request is ready, or the deadline passes before. -/
  | ready (c : Nat)
  | deadline (c : Nat)
  | cancel (c : Nat)
  | free (c : Nat)
  /-- A step of the transport, of a `Send` that a call is in or of a `Connect` or
  `Close`. -/
  | transport (a : Http2Transport.Action)
  deriving DecidableEq, Repr

/-- The future of the `Send` is ready. -/
def isReady (s : State) (k : Nat) : Bool := k ∈ s.transport.tables.answers.map Prod.fst

/-- The steps the transport takes on its own: only the codecs call `Send` and
`Cancel`. -/
def ownStep : Http2Transport.Action → Bool
  | .send _ | .cancel _ => false
  | _ => true

def setCall (s : State) (c : Nat) (φ : CallPhase) : State := { s with calls := s.calls.set c φ }

def onTransport (s : State) (a : Http2Transport.Action) : Option State :=
  (Http2Transport.step s.transport a).map fun t => { s with transport := t }

def ensureConnected (s : State) (c : Nat) (opts : ConnectOptions) : CallPhase → Option State
  | .ensuring bodies =>
      if s.transport.state = .connected then some (setCall s c (.submitting bodies []))
      else
        (onTransport s (.connect opts)).map fun t =>
          setCall t c (.connecting bodies s.transport.connects.length)
  | _ => none

def connected (s : State) (c : Nat) : CallPhase → Option State
  | .connecting bodies j =>
      match s.transport.connects[j]? with
      | some (.returned .connected) => some (setCall s c (.submitting bodies []))
      | some (.returned _) => some (setCall s c .returned)
      | _ => none
  | _ => none

def submit (s : State) (c : Nat) (headers : Bool) : CallPhase → Option State
  | .submitting [] inFlight => some (setCall s c (.collecting inFlight []))
  | .submitting (size :: bodies) inFlight =>
      if headers then
        (onTransport s (.send ⟨c, size⟩)).map fun t =>
          setCall t c (.sending s.transport.sends.length bodies inFlight)
      else some (setCall s c (.submitting bodies inFlight))
  | _ => none

def sent (s : State) (c : Nat) : CallPhase → Option State
  | .sending k bodies inFlight =>
      match s.transport.sends[k]? with
      | some (.returned _) => some (setCall s c (.submitting bodies (inFlight ++ [k])))
      | _ => none
  | _ => none

def ready (s : State) (c : Nat) : CallPhase → Option State
  | .collecting (k :: inFlight) gaveUp =>
      if isReady s k then some (setCall s c (.collecting inFlight gaveUp)) else none
  | _ => none

def deadline (s : State) (c : Nat) : CallPhase → Option State
  | .collecting (k :: inFlight) gaveUp =>
      if isReady s k then none else some (setCall s c (.cancelling k inFlight gaveUp))
  | _ => none

def cancel (s : State) (c : Nat) : CallPhase → Option State
  | .cancelling k inFlight gaveUp =>
      (onTransport s (.cancel k)).map fun t => setCall t c (.collecting inFlight (k :: gaveUp))
  | _ => none

def free (s : State) (c : Nat) : CallPhase → Option State
  | .collecting [] _ => some (setCall s c .returned)
  | _ => none

def step (s : State) : Action → Option State
  | .call bodies =>
      some { s with calls := s.calls ++ [if bodies = [] then .returned else .ensuring bodies] }
  | .ensureConnected c opts => s.calls[c]?.bind (ensureConnected s c opts)
  | .connected c => s.calls[c]?.bind (connected s c)
  | .submit c headers => s.calls[c]?.bind (submit s c headers)
  | .sent c => s.calls[c]?.bind (sent s c)
  | .ready c => s.calls[c]?.bind (ready s c)
  | .deadline c => s.calls[c]?.bind (deadline s c)
  | .cancel c => s.calls[c]?.bind (cancel s c)
  | .free c => s.calls[c]?.bind (free s c)
  | .transport a => if ownStep a then onTransport s a else none

def init : State := {}

/-! ### What a step can do -/

variable {s s' : State} {a : Action}

/-- A step of the call `c` in phase `φ`: what it does to the transport and the
phase it goes to. -/
inductive CallMoves (s : State) (a : Action) (c : Nat) :
    CallPhase → Http2Transport.State → CallPhase → Prop
  | alreadyConnected {bodies} :
      CallMoves s a c (.ensuring bodies) s.transport (.submitting bodies [])
  | connecting {bodies opts t j} (h : Http2Transport.step s.transport (.connect opts) = some t) :
      CallMoves s a c (.ensuring bodies) t (.connecting bodies j)
  | nowConnected {bodies j} :
      CallMoves s a c (.connecting bodies j) s.transport (.submitting bodies [])
  | notConnected {bodies j} : CallMoves s a c (.connecting bodies j) s.transport .returned
  | submittedAll {inFlight} :
      CallMoves s a c (.submitting [] inFlight) s.transport (.collecting inFlight [])
  | skipped {size bodies inFlight} :
      CallMoves s a c (.submitting (size :: bodies) inFlight) s.transport
        (.submitting bodies inFlight)
  | sending {size bodies inFlight t}
      (h : Http2Transport.step s.transport (.send ⟨c, size⟩) = some t) :
      CallMoves s a c (.submitting (size :: bodies) inFlight) t
        (.sending s.transport.sends.length bodies inFlight)
  | sent {k bodies inFlight id} (h : s.transport.sends[k]? = some (.returned id)) :
      CallMoves s a c (.sending k bodies inFlight) s.transport
        (.submitting bodies (inFlight ++ [k]))
  | ready {k inFlight gaveUp} (h : Answered s.transport k) :
      CallMoves s a c (.collecting (k :: inFlight) gaveUp) s.transport (.collecting inFlight gaveUp)
  | deadline {k inFlight gaveUp} :
      CallMoves s a c (.collecting (k :: inFlight) gaveUp) s.transport
        (.cancelling k inFlight gaveUp)
  | cancelled {k inFlight gaveUp t} (h : Http2Transport.step s.transport (.cancel k) = some t) :
      CallMoves s a c (.cancelling k inFlight gaveUp) t (.collecting inFlight (k :: gaveUp))
  | freed {gaveUp} (ha : a = .free c) :
      CallMoves s a c (.collecting [] gaveUp) s.transport .returned

inductive Stepped (s : State) (a : Action) : State → Prop
  | begun (bodies) :
      Stepped s a { s with
        calls := s.calls ++ [if bodies = [] then CallPhase.returned else .ensuring bodies] }
  | called {c φ t ψ} (hc : s.calls[c]? = some φ) (M : CallMoves s a c φ t ψ) :
      Stepped s a { transport := t, calls := s.calls.set c ψ }
  | own {b t} (hown : ownStep b = true) (h : Http2Transport.step s.transport b = some t) :
      Stepped s a { s with transport := t }

theorem onTransport_spec {b : Http2Transport.Action} (h : onTransport s b = some s') :
    ∃ t, Http2Transport.step s.transport b = some t ∧ s' = { s with transport := t } := by
  unfold onTransport at h
  rw [Option.map_eq_some_iff] at h
  obtain ⟨t, ht, hs'⟩ := h
  exact ⟨t, ht, hs'.symm⟩

theorem step_spec (h : step s a = some s') : Stepped s a s' := by
  cases a with
  | call bodies =>
      cases h
      exact .begun bodies
  | ensureConnected c opts =>
      simp only [step, Option.bind_eq_some_iff] at h
      obtain ⟨φ, hc, h⟩ := h
      cases φ with
      | ensuring bodies =>
          simp only [ensureConnected] at h
          split at h
          · cases h
            exact .called hc .alreadyConnected
          · rw [Option.map_eq_some_iff] at h
            obtain ⟨u, hu, rfl⟩ := h
            obtain ⟨t, ht, rfl⟩ := onTransport_spec hu
            exact .called hc (.connecting ht)
      | _ => cases h
  | connected c =>
      simp only [step, Option.bind_eq_some_iff] at h
      obtain ⟨φ, hc, h⟩ := h
      cases φ with
      | connecting bodies j =>
          simp only [connected] at h
          split at h
          · cases h
            exact .called hc .nowConnected
          · cases h
            exact .called hc .notConnected
          · cases h
      | _ => cases h
  | submit c headers =>
      simp only [step, Option.bind_eq_some_iff] at h
      obtain ⟨φ, hc, h⟩ := h
      cases φ with
      | submitting bodies inFlight =>
          cases bodies with
          | nil =>
              cases h
              exact .called hc .submittedAll
          | cons size bodies =>
              simp only [submit] at h
              split at h
              · rw [Option.map_eq_some_iff] at h
                obtain ⟨u, hu, rfl⟩ := h
                obtain ⟨t, ht, rfl⟩ := onTransport_spec hu
                exact .called hc (.sending ht)
              · cases h
                exact .called hc .skipped
      | _ => cases h
  | sent c =>
      simp only [step, Option.bind_eq_some_iff] at h
      obtain ⟨φ, hc, h⟩ := h
      cases φ with
      | sending k bodies inFlight =>
          simp only [sent] at h
          split at h
          · next id hk =>
            cases h
            exact .called hc (.sent hk)
          · cases h
      | _ => cases h
  | ready c =>
      simp only [step, Option.bind_eq_some_iff] at h
      obtain ⟨φ, hc, h⟩ := h
      cases φ with
      | collecting inFlight gaveUp =>
          cases inFlight with
          | nil => cases h
          | cons k inFlight =>
              simp only [ready] at h
              split at h
              · next hready =>
                have hanswered : k ∈ s.transport.tables.answers.map Prod.fst :=
                  of_decide_eq_true hready
                cases h
                exact .called hc (.ready hanswered)
              · cases h
      | _ => cases h
  | deadline c =>
      simp only [step, Option.bind_eq_some_iff] at h
      obtain ⟨φ, hc, h⟩ := h
      cases φ with
      | collecting inFlight gaveUp =>
          cases inFlight with
          | nil => cases h
          | cons k inFlight =>
              simp only [deadline] at h
              split at h
              · cases h
              · cases h
                exact .called hc .deadline
      | _ => cases h
  | cancel c =>
      simp only [step, Option.bind_eq_some_iff] at h
      obtain ⟨φ, hc, h⟩ := h
      cases φ with
      | cancelling k inFlight gaveUp =>
          simp only [cancel, Option.map_eq_some_iff] at h
          obtain ⟨u, hu, rfl⟩ := h
          obtain ⟨t, ht, rfl⟩ := onTransport_spec hu
          exact .called hc (.cancelled ht)
      | _ => cases h
  | free c =>
      simp only [step, Option.bind_eq_some_iff] at h
      obtain ⟨φ, hc, h⟩ := h
      cases φ with
      | collecting inFlight gaveUp =>
          cases inFlight with
          | nil =>
              cases h
              exact .called hc (.freed rfl)
          | cons k inFlight => cases h
      | _ => cases h
  | transport b =>
      simp only [step] at h
      split at h
      · next hown =>
        obtain ⟨t, ht, rfl⟩ := onTransport_spec h
        exact .own hown ht
      · cases h

/-! ### Borrowed payloads -/

/-- The requests a call still waits for. -/
def CallPhase.waitsFor : CallPhase → List Nat
  | .submitting _ inFlight | .collecting inFlight _ => inFlight
  | .sending k _ inFlight | .cancelling k inFlight _ => k :: inFlight
  | .ensuring _ | .connecting _ _ | .returned => []

/-- The requests a call has given up on. -/
def CallPhase.gaveUp : CallPhase → List Nat
  | .collecting _ gaveUp | .cancelling _ _ gaveUp => gaveUp
  | _ => []

/-- When a call returns, the requests it gave up on have no bytes left to read:
they wait nowhere, and their streams have come to the end of the payload. -/
def GivesUpClear (s : State) : Action → Prop
  | .free c => ∀ φ ∈ s.calls[c]?, ∀ k ∈ φ.gaveUp, k ∉ unreadPromises s.transport
  | _ => True

structure Owned (s : State) : Prop where
  requests : Requests s.transport
  /-- A `Send` in progress is that of the call that owns its payload. -/
  sending : ∀ (k : Nat) (φ : SendPhase) (p : PayloadSpan), s.transport.sends[k]? = some φ →
    φ.payload = some p → ∃ bodies inFlight, s.calls[p.owner]? = some (.sending k bodies inFlight)
  /-- A request with bytes left is known to the call that owns them. -/
  borrowed : ∀ r, UnreadAt s.transport s.transport.io r → ∃ φ, s.calls[r.payload.owner]? = some φ ∧
    (r.promise ∈ φ.waitsFor ∨ r.promise ∈ φ.gaveUp)

theorem Owned.init : Owned init where
  requests := Requests.init
  sending := by simp [CodecCalls.init]
  borrowed := by
    rintro r (⟨hwaits | hheld, -⟩ | ⟨entry, hentry, -⟩)
    · cases hwaits
    · cases hheld
    · cases hentry

/-- An answered request is not about any more. -/
theorem answered_not_unread {t : Http2Transport.State} (h : Requests t) {r : PendingRequest}
    (hunread : UnreadAt t t.io r) : ¬ Answered t r.promise := by
  intro hanswered
  have hrequest := hunread.request
  have hplace : 0 < ((t.pendingQueue ++ t.io.held).map PendingRequest.promise).count r.promise ∨
      0 < (t.tables.streams.map fun entry => entry.2.promise).count r.promise := by
    rw [mem_requestsAt] at hrequest
    rcases hrequest with hr | hr | ⟨entry, hentry, rfl⟩
    · exact Or.inl (List.count_pos_iff.mpr (List.mem_map_of_mem (List.mem_append_left _ hr)))
    · exact Or.inl (List.count_pos_iff.mpr (List.mem_map_of_mem (List.mem_append_right _ hr)))
    · exact Or.inr (List.count_pos_iff.mpr (List.mem_map.mpr ⟨entry, hentry, rfl⟩))
  have hset : 0 < (t.tables.answers.map Prod.fst).count r.promise :=
    List.count_pos_iff.mpr hanswered
  have hcount := h.accounted r.promise
  have hone := handedOut_le_one t.sends r.promise
  unfold promisesAt StreamTables.promises at hcount
  rw [List.count_append, List.count_append] at hcount
  omega

/-- The transport's part of a step: what was borrowed still is, or the call is in
the `Send` that has just pushed it. -/
theorem Owned.borrows {t : Http2Transport.State} (h : Owned s) {b : Http2Transport.Action}
    (hstep : Http2Transport.step s.transport b = some t) {r : PendingRequest}
    (hunread : UnreadAt t t.io r) : ∃ φ, s.calls[r.payload.owner]? = some φ ∧
      (r.promise ∈ φ.waitsFor ∨ r.promise ∈ φ.gaveUp) := by
  rcases unread_step h.requests.paired hstep hunread with hold | hpushing
  · exact h.borrowed r hold
  · obtain ⟨bodies, inFlight, hcall⟩ := h.sending r.promise _ r.payload hpushing rfl
    exact ⟨_, hcall, Or.inl List.mem_cons_self⟩

theorem Owned.own {t : Http2Transport.State} {b : Http2Transport.Action} (h : Owned s)
    (hown : ownStep b = true) (hstep : Http2Transport.step s.transport b = some t) :
    Owned { s with transport := t } where
  requests := h.requests.step hstep
  sending := by
    intro k ψ p hk hp
    rcases payload_step hstep hk hp with ⟨φ, hφ, hpφ⟩ | ⟨-, rfl⟩
    · exact h.sending k φ p hφ hpφ
    · cases hown
  borrowed := fun r hunread => h.borrows hstep hunread

/-- A step of a call, by what it does to the `Send`s in progress and to the
requests with bytes left. -/
theorem Owned.set {t : Http2Transport.State} {c : Nat} {φ ψ : CallPhase} (h : Owned s)
    (hc : s.calls[c]? = some φ) (hrequests : Requests t)
    (hsending : ∀ (k : Nat) (χ : SendPhase) (p : PayloadSpan), t.sends[k]? = some χ →
      χ.payload = some p →
        (p.owner ≠ c ∧ ∃ χ', s.transport.sends[k]? = some χ' ∧ χ'.payload = some p) ∨
        p.owner = c ∧ ∃ bodies inFlight, ψ = .sending k bodies inFlight)
    (hborrowed : ∀ r, UnreadAt t t.io r → ∃ φ', s.calls[r.payload.owner]? = some φ' ∧
      (r.promise ∈ φ'.waitsFor ∨ r.promise ∈ φ'.gaveUp))
    (hphase : ∀ r, UnreadAt t t.io r → r.payload.owner = c →
      r.promise ∈ φ.waitsFor ∨ r.promise ∈ φ.gaveUp → r.promise ∈ ψ.waitsFor ∨
        r.promise ∈ ψ.gaveUp) :
    Owned { transport := t, calls := s.calls.set c ψ } where
  requests := hrequests
  sending := by
    intro k χ p hk hp
    rcases hsending k χ p hk hp with ⟨hother, χ', hk', hp'⟩ | ⟨howner, bodies, inFlight, hψ⟩
    · obtain ⟨bodies, inFlight, hcall⟩ := h.sending k χ' p hk' hp'
      refine ⟨bodies, inFlight, ?_⟩
      dsimp only
      rw [Threads.set_other hother]
      exact hcall
    · refine ⟨bodies, inFlight, ?_⟩
      dsimp only
      rw [howner, Threads.set_self hc, hψ]
  borrowed := by
    intro r hunread
    obtain ⟨φ', hcall, hknown⟩ := hborrowed r hunread
    dsimp only
    by_cases howner : r.payload.owner = c
    · rw [howner, hc] at hcall
      cases hcall
      refine ⟨ψ, ?_, hphase r hunread howner hknown⟩
      rw [howner, Threads.set_self hc]
    · refine ⟨φ', ?_, hknown⟩
      rw [Threads.set_other howner]
      exact hcall

/-- A call that is not in a `Send` has none in progress. -/
theorem Owned.no_send {c : Nat} {φ : CallPhase} (h : Owned s) (hc : s.calls[c]? = some φ)
    (hφ : ∀ k bodies inFlight, φ ≠ .sending k bodies inFlight) {k : Nat} {χ : SendPhase}
    {p : PayloadSpan} (hk : s.transport.sends[k]? = some χ) (hp : χ.payload = some p) :
    p.owner ≠ c := by
  rintro rfl
  obtain ⟨bodies, inFlight, hcall⟩ := h.sending k χ p hk hp
  rw [hc] at hcall
  exact hφ k bodies inFlight (Option.some.inj hcall)

/-- A step of a call that leaves the transport or begins no `Send` there. -/
theorem Owned.quiet {t : Http2Transport.State} {c : Nat} {φ ψ : CallPhase} (h : Owned s)
    (hc : s.calls[c]? = some φ) (hφ : ∀ k bodies inFlight, φ ≠ .sending k bodies inFlight)
    (ht : t = s.transport ∨ ∃ b, (∀ p, b ≠ .send p) ∧ Http2Transport.step s.transport b = some t)
    (hphase : ∀ r, UnreadAt t t.io r → r.payload.owner = c →
      r.promise ∈ φ.waitsFor ∨ r.promise ∈ φ.gaveUp → r.promise ∈ ψ.waitsFor ∨
        r.promise ∈ ψ.gaveUp) :
    Owned { transport := t, calls := s.calls.set c ψ } := by
  rcases ht with rfl | ⟨b, hb, hstep⟩
  · exact h.set hc h.requests (fun k χ p hk hp => Or.inl ⟨h.no_send hc hφ hk hp, χ, hk, hp⟩)
      h.borrowed hphase
  · apply h.set hc (h.requests.step hstep) _ (fun r hunread => h.borrows hstep hunread) hphase
    intro k χ p hk hp
    rcases payload_step hstep hk hp with ⟨χ', hk', hp'⟩ | ⟨-, rfl⟩
    · exact Or.inl ⟨h.no_send hc hφ hk' hp', χ', hk', hp'⟩
    · exact (hb p rfl).elim

theorem Owned.called {t : Http2Transport.State} {c : Nat} {φ ψ : CallPhase} (h : Owned s)
    (hclear : GivesUpClear s a) (hc : s.calls[c]? = some φ) (M : CallMoves s a c φ t ψ) :
    Owned { transport := t, calls := s.calls.set c ψ } := by
  cases M with
  | alreadyConnected => exact h.quiet hc (by simp) (Or.inl rfl) (fun _ _ _ hknown => hknown)
  | connecting hstep =>
      exact h.quiet hc (by simp) (Or.inr ⟨_, by simp, hstep⟩) (fun _ _ _ hknown => hknown)
  | nowConnected => exact h.quiet hc (by simp) (Or.inl rfl) (fun _ _ _ hknown => hknown)
  | notConnected => exact h.quiet hc (by simp) (Or.inl rfl) (fun _ _ _ hknown => hknown)
  | submittedAll => exact h.quiet hc (by simp) (Or.inl rfl) (fun _ _ _ hknown => hknown)
  | skipped => exact h.quiet hc (by simp) (Or.inl rfl) (fun _ _ _ hknown => hknown)
  | @sending size bodies inFlight t hstep =>
      apply h.set hc (h.requests.step hstep) _ (fun r hunread => h.borrows hstep hunread)
      · intro r _ _ hknown
        exact hknown.imp_left (List.mem_cons_of_mem _)
      · intro k χ p hk hp
        rcases payload_step hstep hk hp with ⟨χ', hk', hp'⟩ | ⟨rfl, ha⟩
        · exact Or.inl ⟨h.no_send hc (by simp) hk' hp', χ', hk', hp'⟩
        · cases ha
          exact Or.inr ⟨rfl, bodies, inFlight, rfl⟩
  | @sent k bodies inFlight id hreturned =>
      apply h.set hc h.requests _ h.borrowed
      · intro r _ _ hknown
        refine hknown.imp_left ?_
        intro hmem
        rcases List.mem_cons.mp hmem with hk | hmem
        · exact List.mem_append_right _ (List.mem_singleton.mpr hk)
        · exact List.mem_append_left _ hmem
      · intro j χ p hj hp
        left
        refine ⟨?_, χ, hj, hp⟩
        -- the one `Send` the call was in has returned
        rintro rfl
        obtain ⟨bodies', inFlight', hcall⟩ := h.sending j χ p hj hp
        rw [hc] at hcall
        cases hcall
        rw [hreturned] at hj
        cases hj
        cases hp
  | @ready k inFlight gaveUp hanswered =>
      apply h.quiet hc (by simp) (Or.inl rfl)
      intro r hunread _ hknown
      refine hknown.imp_left ?_
      intro hmem
      rcases List.mem_cons.mp hmem with rfl | hmem
      · exact (answered_not_unread h.requests hunread hanswered).elim
      · exact hmem
  | deadline => exact h.quiet hc (by simp) (Or.inl rfl) (fun _ _ _ hknown => hknown)
  | @cancelled k inFlight gaveUp t hstep =>
      apply h.quiet hc (by simp) (Or.inr ⟨_, by simp, hstep⟩)
      intro r _ _ hknown
      rcases hknown with hwaits | hgaveUp
      · rcases List.mem_cons.mp hwaits with hk | hmem
        · exact Or.inr (List.mem_cons.mpr (Or.inl hk))
        · exact Or.inl hmem
      · exact Or.inr (List.mem_cons_of_mem _ hgaveUp)
  | @freed gaveUp ha =>
      apply h.quiet hc (by simp) (Or.inl rfl)
      intro r hunread _ hknown
      rcases hknown with hwaits | hgaveUp
      · cases hwaits
      · subst ha
        exact (hclear _ hc r.promise hgaveUp hunread.promise).elim

theorem Owned.step (h : Owned s) (hclear : GivesUpClear s a)
    (hstep : CodecCalls.step s a = some s') :
    Owned s' := by
  cases step_spec hstep with
  | begun bodies =>
      refine ⟨h.requests, ?_, ?_⟩
      · intro k φ p hk hp
        obtain ⟨bodies', inFlight, hcall⟩ := h.sending k φ p hk hp
        exact ⟨bodies', inFlight, Threads.push_old hcall⟩
      · intro r hunread
        obtain ⟨φ, hcall, hknown⟩ := h.borrowed r hunread
        exact ⟨φ, Threads.push_old hcall, hknown⟩
  | called hc M => exact h.called hclear hc M
  | own hown ht => exact h.own hown ht

/-- In every run in which the calls that give up return only when nothing is left
to read, no payload byte is read after the call that owns it has returned. -/
theorem payload_read_in_time (actions : List Action)
    (hclear : ∀ before a after s, actions = before ++ a :: after →
      Machine.run step init before = some s → GivesUpClear s a) :
    ∀ before after s streamId length state,
      actions = before ++ .transport (.callback (.payloadRead streamId length)) :: after →
      Machine.run step init before = some s → s.transport.tables.find streamId = some state →
      0 < toCopy state length →
      ∃ φ, s.calls[state.payload.owner]? = some φ ∧ φ ≠ .returned := by
  intro before after s streamId length state hsplit hbefore hfind hcopies
  have howned : Owned s := by
    refine @Machine.run_invariant_of _ _ step GivesUpClear Owned
      (fun s a s' h hok hstep => h.step hok hstep) init s before Owned.init ?_ hbefore
    intro b a c s' hb hs'
    apply hclear b a (c ++ .transport (.callback (.payloadRead streamId length)) :: after) s' _ hs'
    rw [hsplit, hb, List.append_assoc, List.cons_append]
  have hunread : UnreadAt s.transport s.transport.io (origin (streamId, state)) := by
    refine Or.inr ⟨_, StreamTables.find_mem hfind, rfl, ?_⟩
    unfold toCopy at hcopies
    dsimp only
    omega
  obtain ⟨φ, hcall, hknown⟩ := howned.borrowed _ hunread
  refine ⟨φ, hcall, ?_⟩
  rintro rfl
  rcases hknown with h | h <;> cases h

/-- A call connects, submits a body of two bytes and waits for its answer. -/
def submitted : List Action :=
  [.call [2], .ensureConnected 0 {}, .transport (.advanceConnect 0 true),
    .transport (.advanceConnect 0 true), .transport (.advanceConnect 0 true),
    .transport (.advanceConnect 0 true), .transport (.advanceConnect 0 true),
    .transport (.advanceConnect 0 true), .connected 0, .submit 0 true,
    .transport (.advanceSend 0), .transport (.advanceSend 0), .transport (.advanceSend 0), .sent 0,
    .submit 0 true]

/-- The deadline passes and the call returns. -/
def givesUp : List Action := [.deadline 0, .cancel 0, .free 0]

/-- The loop comes to the `nghttp2_session_send` of the request. -/
def loopSubmits : List Action := List.replicate 5 (.transport (.advanceIo true 1))

/-- nghttp2 reads the payload. -/
def reads : Action := .transport (.callback (.payloadRead 1 16))

theorem read_after_free : ¬ ∀ (actions before after : List Action) s streamId length state,
    actions = before ++ .transport (.callback (.payloadRead streamId length)) :: after →
    Machine.run step init before = some s → s.transport.tables.find streamId = some state →
    0 < toCopy state length →
      (step s (.transport (.callback (.payloadRead streamId length)))).isSome →
    ∃ φ, s.calls[state.payload.owner]? = some φ ∧ φ ≠ .returned := by
  intro hclaim
  have hend : (Machine.run step init (submitted ++ givesUp ++ loopSubmits)).map
      (fun s => (s.calls, s.transport.tables.find 1, (step s reads).isSome)) =
      some ([.returned], some { payload := ⟨0, 2⟩, promise := 0, handleId := 1 }, true) := by
    decide +kernel
  obtain ⟨s, hrun, hs⟩ := Option.map_eq_some_iff.mp hend
  simp only [Prod.mk.injEq] at hs
  obtain ⟨hcalls, hfind, hstep⟩ := hs
  obtain ⟨φ, hφ, hne⟩ := hclaim _ _ [] s 1 16 _ rfl hrun hfind (by decide) hstep
  rw [hcalls] at hφ
  cases hφ
  exact hne rfl

instance : (s : State) → (a : Action) → Decidable (GivesUpClear s a)
  | s, .free c =>
      inferInstanceAs
        (Decidable (∀ φ ∈ s.calls[c]?, ∀ k ∈ φ.gaveUp, k ∉ unreadPromises s.transport))
  | _, .call _ | _, .ensureConnected _ _ | _, .connected _ | _, .submit _ _ | _, .sent _
  | _, .ready _
  | _, .deadline _ | _, .cancel _ | _, .transport _ => isTrue trivial

/-- A call that gives up after its payload has been read in full. -/
theorem payload_read_in_time_thenGivesUp :
    (Machine.run step init (submitted ++ loopSubmits ++ reads :: givesUp)).map State.calls =
      some [.returned] ∧
    ∃ s state, Machine.run step init (submitted ++ loopSubmits) = some s ∧
      s.transport.tables.find 1 = some state ∧ toCopy state 16 = 2 ∧
      ∃ φ, s.calls[state.payload.owner]? = some φ ∧ φ ≠ .returned := by
  have hclear : Machine.throughout step GivesUpClear init
      (submitted ++ loopSubmits ++ reads :: givesUp) = true := by decide +kernel
  have hend : (Machine.run step init (submitted ++ loopSubmits)).map
      (fun s => s.transport.tables.find 1) =
      some (some { payload := ⟨0, 2⟩, promise := 0, handleId := 1 }) := by decide +kernel
  obtain ⟨s, hrun, hfind⟩ := Option.map_eq_some_iff.mp hend
  refine ⟨by decide +kernel, s, _, hrun, hfind, rfl, ?_⟩
  exact payload_read_in_time _ (Machine.throughout_sound hclear)
    (submitted ++ loopSubmits) givesUp s 1 16
    _ rfl hrun hfind (by decide)

end Microtel.Wire.CodecCalls
