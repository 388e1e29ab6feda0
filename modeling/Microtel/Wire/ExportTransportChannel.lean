import Microtel.Lib.Machine
import Microtel.Lib.Threads

/-!
`ExportTransportChannel` (`src/wire/custom/export_transport_codec.cpp`) under
any number of concurrent calls. Each critical section, each access to the state
word, each reading of the clock and each call of the transport is one step. The
transport answers as it likes, and a throw while an error message is composed
leaves `Send` by unwinding.
-/

namespace Microtel.Wire.ExportTransportChannel

inductive ConnectionState
  | disconnected | connected | reconnecting | closed
  deriving DecidableEq, Repr

/-- What a `Send` entered with: its reading of the clock, and the shutdown
deadline as it stood then. No step reads the latter. -/
structure Entry where
  now : Int
  shutdown : Option Int
  deriving DecidableEq, Repr

/-- Where a `Send` is: before what its constructor names. -/
inductive SendPhase
  | starting (perExport : Int)
  | entering (perExport now : Int)
  | clamping (perExport : Int) (e : Entry)
  | invoking (e : Entry) (deadline : Int)
  | inTransport (e : Entry) (deadline : Int)
  | noting (success : Bool)
  | exchanging (success : Bool) (current : ConnectionState)
  | leaving
  | returned
  deriving DecidableEq, Repr

/-- Between a successful `Enter` and its `Leave`. -/
def SendPhase.inside : SendPhase → Bool
  | .clamping _ _ | .invoking _ _ | .inTransport _ _ | .noting _ | .exchanging _ _ | .leaving =>
      true
  | _ => false

inductive ShutdownPhase
  | starting (timeout : Int)
  | setting (deadline : Int)
  | returned
  deriving DecidableEq, Repr

inductive CancelPhase
  | starting
  | calling
  | returned
  deriving DecidableEq, Repr

def CancelPhase.isCalling : CancelPhase → Bool
  | .calling => true
  | _ => false

structure State where
  clock : Int := 0
  inFlight : Nat := 0
  cancelled : Bool := false
  shutdownDeadline : Option Int := none
  connection : ConnectionState := .disconnected
  sends : List SendPhase := []
  shutdowns : List ShutdownPhase := []
  cancels : List CancelPhase := []
  /-- How often `ExportTransport::Cancel` was called, and where the sends were
  when the flag was set; no step reads them. -/
  cancelCalls : Nat := 0
  atCancel : Option (List SendPhase) := none

/-- How the transport's `Send` ends: with a result, with a throw that is
contained, or with a throw that composing the error message lets out. -/
inductive TransportAnswer
  | success | failure | threw | threwOut
  deriving DecidableEq, Repr

inductive Action
  | tick (t : Int)
  | send (perExport : Int)
  /-- The next step of a `Send` outside the transport; a weak exchange may fail
  for no reason. -/
  | advance (k : Nat) (spurious : Bool)
  | answer (k : Nat) (a : TransportAnswer)
  | beginShutdown (timeout : Int)
  | setDeadline (k : Nat)
  | cancelInFlight
  | cancel (k : Nat)
  | markClosed
  deriving DecidableEq, Repr

/-- What `NoteOutcome` moves the state to, if it moves it. -/
def nextConnection (success : Bool) (current : ConnectionState) : Option ConnectionState :=
  if current = .closed then none
  else if success then some .connected
  else if current = .connected then some .reconnecting
  else none

/-- The head of the loop in `NoteOutcome`. -/
def noteLoop (success : Bool) (current : ConnectionState) : SendPhase :=
  match nextConnection success current with
  | none => .leaving
  | some _ => .exchanging success current

def pastDeadline (s : State) (now : Int) : Bool :=
  match s.shutdownDeadline with
  | some d => d ≤ now
  | none => false

/-- `Enter`. -/
def enter (s : State) (perExport now : Int) : State × SendPhase :=
  if s.cancelled || pastDeadline s now then (s, .returned)
  else ({ s with inFlight := s.inFlight + 1 }, .clamping perExport ⟨now, s.shutdownDeadline⟩)

/-- The request's deadline. -/
def clamped (s : State) (perExport now : Int) : Int :=
  match s.shutdownDeadline with
  | some d => min (now + perExport) d
  | none => now + perExport

def exchange (s : State) (success : Bool) (current : ConnectionState) (spurious : Bool) :
    State × SendPhase :=
  if s.connection = current && !spurious then
    ({ s with connection := (nextConnection success current).getD current }, .leaving)
  else (s, noteLoop success s.connection)

def advance (s : State) (spurious : Bool) : SendPhase → Option (State × SendPhase)
  | .starting perExport => some (s, .entering perExport s.clock)
  | .entering perExport now => some (enter s perExport now)
  | .clamping perExport e => some (s, .invoking e (clamped s perExport e.now))
  | .invoking e deadline => some (s, .inTransport e deadline)
  | .inTransport _ _ => none
  | .noting success => some (s, noteLoop success s.connection)
  | .exchanging success current => some (exchange s success current spurious)
  | .leaving => some ({ s with inFlight := s.inFlight - 1 }, .returned)
  | .returned => none

def answered : TransportAnswer → SendPhase
  | .success => .noting true
  | .failure | .threw => .noting false
  | .threwOut => .leaving

/-- `CancelInFlight` up to the call of the transport, and that call. -/
def cancelStep (s : State) : CancelPhase → Option (State × CancelPhase)
  | .starting =>
      if s.cancelled then some (s, .returned)
      else
        some ({ s with cancelled := true, atCancel := some s.sends },
          if 0 < s.inFlight then .calling else .returned)
  | .calling => some ({ s with cancelCalls := s.cancelCalls + 1 }, .returned)
  | .returned => none

def setDeadline (s : State) : ShutdownPhase → Option (State × ShutdownPhase)
  | .starting timeout => some (s, .setting (s.clock + timeout))
  | .setting deadline =>
      some ({ s with shutdownDeadline := some (s.shutdownDeadline.getD deadline) }, .returned)
  | .returned => none

def step (s : State) : Action → Option State
  | .tick t => if s.clock ≤ t then some { s with clock := t } else none
  | .send perExport => some { s with sends := s.sends ++ [.starting perExport] }
  | .advance k spurious => do
      let (s', φ) ← s.sends[k]?.bind (advance s spurious)
      some { s' with sends := s.sends.set k φ }
  | .answer k a =>
      match s.sends[k]? with
      | some (.inTransport _ _) => some { s with sends := s.sends.set k (answered a) }
      | _ => none
  | .beginShutdown timeout => some { s with shutdowns := s.shutdowns ++ [.starting timeout] }
  | .setDeadline k => do
      let (s', φ) ← s.shutdowns[k]?.bind (setDeadline s)
      some { s' with shutdowns := s.shutdowns.set k φ }
  | .cancelInFlight => some { s with cancels := s.cancels ++ [.starting] }
  | .cancel k => do
      let (s', φ) ← s.cancels[k]?.bind (cancelStep s)
      some { s' with cancels := s.cancels.set k φ }
  | .markClosed => some { s with connection := .closed }

def init : State := {}

/-! ### What a step can do -/

/-- A step of the send in phase `φ`: the parts of the state it may change, and
the phase it goes to. -/
inductive SendMoves (s : State) : SendPhase → State → SendPhase → Prop
  | read {perExport} : SendMoves s (.starting perExport) s (.entering perExport s.clock)
  | refused {perExport now} : SendMoves s (.entering perExport now) s .returned
  | entered {perExport now} (hcancelled : s.cancelled = false)
      (htime : ∀ d, s.shutdownDeadline = some d → now < d) :
      SendMoves s (.entering perExport now) { s with inFlight := s.inFlight + 1 }
        (.clamping perExport ⟨now, s.shutdownDeadline⟩)
  | clamped {perExport e} :
      SendMoves s (.clamping perExport e) s (.invoking e (clamped s perExport e.now))
  | invoked {e deadline} : SendMoves s (.invoking e deadline) s (.inTransport e deadline)
  | answered {e deadline} (a : TransportAnswer) :
      SendMoves s (.inTransport e deadline) s (answered a)
  | looked {success} : SendMoves s (.noting success) s (noteLoop success s.connection)
  | exchanged {success current next} (hcurrent : s.connection = current)
      (hnext : nextConnection success current = some next) :
      SendMoves s (.exchanging success current) { s with connection := next } .leaving
  | overtaken {success current} :
      SendMoves s (.exchanging success current) s (noteLoop success s.connection)
  | left : SendMoves s .leaving { s with inFlight := s.inFlight - 1 } .returned

/-- The exchange of a loop that has something to exchange. -/
def Exchanges : SendPhase → Prop
  | .exchanging success current => (nextConnection success current).isSome = true
  | _ => True

theorem noteLoop_exchanges (success : Bool) (current : ConnectionState) :
    Exchanges (noteLoop success current) := by
  unfold noteLoop
  split
  · trivial
  · next hnext => exact Option.isSome_iff_exists.mpr ⟨_, hnext⟩

theorem advance_spec {s s' : State} {spurious : Bool} {φ ψ : SendPhase} (hφ : Exchanges φ)
    (h : advance s spurious φ = some (s', ψ)) : SendMoves s φ s' ψ := by
  cases φ with
  | starting perExport =>
      cases h
      exact .read
  | entering perExport now =>
      have henter := Option.some.inj h
      unfold enter at henter
      split at henter
      · cases henter
        exact .refused
      · next hopen =>
        cases henter
        simp only [Bool.or_eq_true, not_or, Bool.not_eq_true] at hopen
        apply SendMoves.entered hopen.1
        intro d hd
        simpa [pastDeadline, hd] using hopen.2
  | clamping perExport e =>
      cases h
      exact .clamped
  | invoking e deadline =>
      cases h
      exact .invoked
  | inTransport e deadline => cases h
  | noting success =>
      cases h
      exact .looked
  | exchanging success current =>
      have hexchange := Option.some.inj h
      unfold exchange at hexchange
      split at hexchange
      · next hcurrent =>
        cases hexchange
        simp only [Bool.and_eq_true, decide_eq_true_eq] at hcurrent
        obtain ⟨next, hnext⟩ := Option.isSome_iff_exists.mp hφ
        rw [hnext]
        exact .exchanged hcurrent.1 hnext
      · cases hexchange
        exact .overtaken
  | leaving =>
      cases h
      exact .left
  | returned => cases h

end Microtel.Wire.ExportTransportChannel
