import Mathlib.Tactic

/-!
Requests of an allocator that may refuse any of them, and computations that make such requests
one after the other and fail at the first that is refused.
-/

namespace Requests

variable {α ε β : Type}

/-- What an allocator answers to one request after the other: memory with whatever it holds, or
nothing. -/
abbrev Allocator (α : Type) := Nat → Option (Nat → α)

/-- Every request from the first number up to the second is granted. -/
def Granted (answers : Allocator α) (first next : Nat) : Prop :=
  first ≤ next ∧ ∀ k, first ≤ k → k < next → (answers k).isSome

/-- Some request from this number on is refused, and all those before it are granted. -/
def Refused (answers : Allocator α) (first : Nat) : Prop :=
  ∃ k, Granted answers first k ∧ answers k = none

variable {answers : Allocator α}

theorem Granted.refl (n : Nat) : Granted answers n n := ⟨Nat.le_refl n, fun k _ _ => by omega⟩

theorem Granted.trans {a b c : Nat} (hab : Granted answers a b) (hbc : Granted answers b c) :
    Granted answers a c := by
  refine ⟨hab.1.trans hbc.1, fun k hak hkc => ?_⟩
  by_cases hkb : k < b
  · exact hab.2 k hak hkb
  · exact hbc.2 k (by omega) hkc

theorem Granted.refused {a b : Nat} (hab : Granted answers a b) (hb : Refused answers b) :
    Refused answers a := by
  obtain ⟨k, hk, hnone⟩ := hb
  exact ⟨k, hab.trans hk, hnone⟩

theorem granted_one {n : Nat} (h : (answers n).isSome) : Granted answers n (n + 1) := by
  refine ⟨Nat.le_succ n, fun k hfirst hlast => ?_⟩
  obtain rfl : k = n := by omega
  exact h

theorem refused_now {n : Nat} (h : answers n = none) : Refused answers n :=
  ⟨n, .refl n, h⟩

/-- An allocator that never refuses. -/
def Generous (answers : Allocator α) : Prop := ∀ k, (answers k).isSome

theorem Generous.not_refused (h : Generous answers) (n : Nat) : ¬Refused answers n := by
  rintro ⟨k, -, hnone⟩
  have hsome := h k
  rw [hnone] at hsome
  cases hsome

/-! ### Building with requests -/

/-- Something made of memory, after so many requests. -/
abbrev Building (ε β : Type) := StateT Nat (Except ε) β

def request (answers : Allocator α) (refused : ε) : Building ε Unit := fun n =>
  if (answers n).isSome then .ok ((), n + 1) else .error refused

/-- All of its requests are granted and this is built, or one is refused and it fails so. -/
def Builds (answers : Allocator α) (refused : ε) (w : Building ε β) (x : β) : Prop :=
  ∀ n,
    match w n with
    | .ok (y, n') => y = x ∧ Granted answers n n'
    | .error e => e = refused ∧ Refused answers n

variable {refused : ε}

theorem builds_pure (x : β) : Builds answers refused (pure x) x :=
  fun n => ⟨rfl, .refl n⟩

theorem builds_request : Builds answers refused (request answers refused) () := by
  intro n
  cases hanswer : answers n with
  | none =>
      have hrun : request answers refused n = .error refused := by rw [request, hanswer]; rfl
      rw [hrun]
      exact ⟨rfl, refused_now hanswer⟩
  | some memory =>
      have hrun : request answers refused n = .ok ((), n + 1) := by rw [request, hanswer]; rfl
      rw [hrun]
      exact ⟨rfl, granted_one (by rw [hanswer]; rfl)⟩

theorem builds_bind {γ : Type} {w : Building ε β} {f : β → Building ε γ} {x : β} {y : γ}
    (hw : Builds answers refused w x) (hf : Builds answers refused (f x) y) :
    Builds answers refused (w >>= f) y := by
  intro n
  have hn := hw n
  cases hrun : w n with
  | error e =>
      have hall : (w >>= f) n = .error e := by
        change (w n).bind _ = .error e
        rw [hrun]
        rfl
      rw [hrun] at hn
      rw [hall]
      exact hn
  | ok built =>
      obtain ⟨z, n'⟩ := built
      rw [hrun] at hn
      obtain ⟨rfl, hgranted⟩ := hn
      have hall : (w >>= f) n = f z n' := by
        change (w n).bind _ = _
        rw [hrun]
        rfl
      have hn' := hf n'
      rw [hall]
      cases hrest : f z n' with
      | error e =>
          rw [hrest] at hn'
          exact ⟨hn'.1, hgranted.refused hn'.2⟩
      | ok built =>
          rw [hrest] at hn'
          exact ⟨hn'.1, hgranted.trans hn'.2⟩

end Requests
