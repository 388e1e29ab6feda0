import Microtel.Api.Types
import Microtel.Lib.Machine

/-!
The provider registry (`src/sdk/provider_registry.cpp`): an array of atomic
slots that `RegisterProvider` and `DeregisterProvider` work on without a lock.
Every load, store and compare-exchange of a slot is one step, and the steps of
different providers interleave freely. A provider registers once, and it is
deregistered at most once and only after it was told `Registered`.
-/

namespace Microtel.Sdk.ProviderRegistry

abbrev Provider := Nat

def maxProfiles : Nat := 8

inductive RegistrationResult
  | registered | duplicateName | capacityExhausted
  deriving DecidableEq, Repr

/-- Where the calls for a provider are: before the access to the slot named. -/
inductive Phase
  | unregistered
  /-- The first `NameIsTaken`, over the whole array. -/
  | scanning (i : Nat)
  | claiming (i : Nat)
  /-- The second `NameIsTaken`, over the slots below the claimed one. -/
  | rechecking (claimed i : Nat)
  | backingOut (claimed : Nat)
  | returned (result : RegistrationResult)
  | deregistering (i : Nat)
  | deregistered
  deriving DecidableEq, Repr

structure State where
  slots : Nat → Option Provider := fun _ => none
  phase : Provider → Phase := fun _ => .unregistered

inductive Action
  | registerProvider (p : Provider)
  | deregisterProvider (p : Provider)
  /-- The next access of the call that is under way for `p`. -/
  | access (p : Provider)
  deriving DecidableEq, Repr

def Action.provider : Action → Provider
  | .registerProvider p | .deregisterProvider p | .access p => p

def init : State := {}

section

variable (name : Provider → Bytes)

/-- The slot holds a provider of that name. -/
def nameIsTaken (s : State) (i : Nat) (n : Bytes) : Bool :=
  match s.slots i with
  | some other => name other = n
  | none => false

/-- The second scan from slot `i` on. -/
def recheckFrom (claimed i : Nat) : Phase :=
  if i < claimed then .rechecking claimed i else .returned .registered

def access (s : State) (p : Provider) : Option ((Nat → Option Provider) × Phase) :=
  match s.phase p with
  | .scanning i =>
      if nameIsTaken name s i (name p) then some (s.slots, .returned .duplicateName)
      else if i + 1 < maxProfiles then some (s.slots, .scanning (i + 1))
      else some (s.slots, .claiming 0)
  | .claiming i =>
      if s.slots i = none then some (Function.update s.slots i (some p), recheckFrom i 0)
      else if i + 1 < maxProfiles then some (s.slots, .claiming (i + 1))
      else some (s.slots, .returned .capacityExhausted)
  | .rechecking claimed i =>
      if nameIsTaken name s i (name p) then some (s.slots, .backingOut claimed)
      else some (s.slots, recheckFrom claimed (i + 1))
  | .backingOut claimed =>
      some (Function.update s.slots claimed none, .returned .duplicateName)
  | .deregistering i =>
      if s.slots i = some p then some (Function.update s.slots i none, .deregistered)
      else if i + 1 < maxProfiles then some (s.slots, .deregistering (i + 1))
      else some (s.slots, .deregistered)
  | _ => none

def State.put (s : State) (p : Provider) (next : (Nat → Option Provider) × Phase) : State where
  slots := next.1
  phase := Function.update s.phase p next.2

def step (s : State) : Action → Option State
  | .registerProvider p =>
      if s.phase p = .unregistered then some (s.put p (s.slots, .scanning 0)) else none
  | .deregisterProvider p =>
      if s.phase p = .returned .registered then some (s.put p (s.slots, .deregistering 0)) else none
  | .access p => (access name s p).map (s.put p)

end

variable {name : Provider → Bytes} {s s' : State} {a : Action} {p q : Provider}

/-! ### What a step can do -/

/-- A step of `p`, with what it found. -/
inductive Moves (name : Provider → Bytes) (s : State) (p : Provider) :
    (Nat → Option Provider) → Phase → Prop
  | begun (h : s.phase p = .unregistered) : Moves name s p s.slots (.scanning 0)
  | refused {i q} (h : s.phase p = .scanning i) (hq : s.slots i = some q)
      (hname : name q = name p) :
      Moves name s p s.slots (.returned .duplicateName)
  | scanned {i} (h : s.phase p = .scanning i) : Moves name s p s.slots (.scanning (i + 1))
  | clear {i} (h : s.phase p = .scanning i) : Moves name s p s.slots (.claiming 0)
  | claimed {i} (h : s.phase p = .claiming i) (hfree : s.slots i = none) :
      Moves name s p (Function.update s.slots i (some p)) (recheckFrom i 0)
  | occupied {i q} (h : s.phase p = .claiming i) (hq : s.slots i = some q)
      (hmore : i + 1 < maxProfiles) :
      Moves name s p s.slots (.claiming (i + 1))
  | exhausted {i q} (h : s.phase p = .claiming i) (hq : s.slots i = some q)
      (hlast : ¬ i + 1 < maxProfiles) : Moves name s p s.slots (.returned .capacityExhausted)
  | lost {c i q} (h : s.phase p = .rechecking c i) (hq : s.slots i = some q)
      (hname : name q = name p) :
      Moves name s p s.slots (.backingOut c)
  | passed {c i} (h : s.phase p = .rechecking c i)
      (hnone : ∀ q, s.slots i = some q → name q ≠ name p) :
      Moves name s p s.slots (recheckFrom c (i + 1))
  | backedOut {c} (h : s.phase p = .backingOut c) :
      Moves name s p (Function.update s.slots c none) (.returned .duplicateName)
  | leaving (h : s.phase p = .returned .registered) : Moves name s p s.slots (.deregistering 0)
  | left {i} (h : s.phase p = .deregistering i) (hq : s.slots i = some p) :
      Moves name s p (Function.update s.slots i none) .deregistered
  | searched {i} (h : s.phase p = .deregistering i) (hq : s.slots i ≠ some p) :
      Moves name s p s.slots (.deregistering (i + 1))
  | missed {i} (h : s.phase p = .deregistering i) (hq : s.slots i ≠ some p)
      (hlast : ¬ i + 1 < maxProfiles) : Moves name s p s.slots .deregistered

theorem nameIsTaken_iff {i : Nat} {n : Bytes} :
    nameIsTaken name s i n = true ↔ ∃ q, s.slots i = some q ∧ name q = n := by
  unfold nameIsTaken
  cases s.slots i with
  | none => simp
  | some q => simp

theorem access_spec {next : (Nat → Option Provider) × Phase} (h : access name s p = some next) :
    Moves name s p next.1 next.2 := by
  unfold access at h
  split at h
  · next i hphase =>
    split at h
    · next htaken =>
      obtain ⟨q, hq, hname⟩ := nameIsTaken_iff.mp htaken
      cases h
      exact .refused hphase hq hname
    · split at h
      · cases h
        exact .scanned hphase
      · cases h
        exact .clear hphase
  · next i hphase =>
    split at h
    · next hfree =>
      cases h
      exact .claimed hphase hfree
    · next hheld =>
      obtain ⟨q, hq⟩ := Option.ne_none_iff_exists'.mp hheld
      split at h
      · next hmore =>
        cases h
        exact .occupied hphase hq hmore
      · next hlast =>
        cases h
        exact .exhausted hphase hq hlast
  · next c i hphase =>
    split at h
    · next htaken =>
      obtain ⟨q, hq, hname⟩ := nameIsTaken_iff.mp htaken
      cases h
      exact .lost hphase hq hname
    · next htaken =>
      cases h
      exact .passed hphase fun q hq hname => htaken (nameIsTaken_iff.mpr ⟨q, hq, hname⟩)
  · next c hphase =>
    cases h
    exact .backedOut hphase
  · next i hphase =>
    split at h
    · next hq =>
      cases h
      exact .left hphase hq
    · next hq =>
      split at h
      · cases h
        exact .searched hphase hq
      · next hlast =>
        cases h
        exact .missed hphase hq hlast
  · cases h

theorem step_spec (h : step name s a = some s') :
    ∃ slots φ, s' = s.put a.provider (slots, φ) ∧ Moves name s a.provider slots φ := by
  cases a with
  | registerProvider p =>
      simp only [step] at h
      split at h
      · next hphase =>
        cases h
        exact ⟨_, _, rfl, .begun hphase⟩
      · cases h
  | deregisterProvider p =>
      simp only [step] at h
      split at h
      · next hphase =>
        cases h
        exact ⟨_, _, rfl, .leaving hphase⟩
      · cases h
  | access p =>
      obtain ⟨next, haccess, rfl⟩ := Option.map_eq_some_iff.mp h
      exact ⟨next.1, next.2, rfl, access_spec haccess⟩

end Microtel.Sdk.ProviderRegistry
