import Mathlib.Data.List.Basic

/-!
A machine seen from one of its parts: every event either reaches the part, and then
moves what is seen by a function of that alone, or leaves it as it was. Over a run the
part sees the events that reach it and nothing else.
-/

/-- `view` of a machine that takes events by `step`: an event the part `sees` moves the view
by `move`, another one does not. `Inv` is what of the whole state this rests on. -/
structure Projection {σ ν ε : Type} (step : σ → ε → σ) (Inv : σ → Prop) (view : σ → ν)
    (sees : ε → Bool) (move : ν → ε → ν) : Prop where
  inv : ∀ s e, Inv s → Inv (step s e)
  seen : ∀ s e, Inv s → sees e = true → view (step s e) = move (view s) e
  unseen : ∀ s e, Inv s → sees e = false → view (step s e) = view s

namespace Projection

variable {σ ν ε : Type} {step : σ → ε → σ} {Inv : σ → Prop} {view : σ → ν} {sees : ε → Bool}
  {move : ν → ε → ν}

theorem view_run (P : Projection step Inv view sees move) (events : List ε) {s : σ} (h : Inv s) :
    view (events.foldl step s) = (events.filter sees).foldl move (view s) := by
  induction events generalizing s with
  | nil => rfl
  | cons e events ih =>
      rw [List.foldl_cons, ih (P.inv s e h)]
      cases hsees : sees e with
      | true => rw [List.filter_cons_of_pos hsees, List.foldl_cons, P.seen s e h hsees]
      | false =>
          rw [List.filter_cons_of_neg (Bool.not_eq_true _ ▸ hsees), P.unseen s e h hsees]

/-- Events that do not reach the part do not matter to it. -/
theorem view_congr (P : Projection step Inv view sees move) {events events' : List ε} {s : σ}
    (h : Inv s) (hsame : events.filter sees = events'.filter sees) :
    view (events.foldl step s) = view (events'.foldl step s) := by
  rw [P.view_run events h, P.view_run events' h, hsame]

end Projection
