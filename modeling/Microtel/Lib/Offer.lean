import Mathlib.Tactic
import Mathlib.Algebra.BigOperators.Group.List.Basic

/-!
Lists filled up to a limit, one offer at a time. Every offer is charged: with its
own cost when it is taken, with a fixed charge when the list is full.
-/

namespace Offer

variable {α β M : Type} [AddCommMonoid M]

section

variable (limit : Nat) (f : α → β) (cost : α → M) (refusal : M)

/-- One offer to the list. -/
def offer (state : List β × M) (x : α) : List β × M :=
  if limit ≤ state.1.length then (state.1, state.2 + refusal)
  else (state.1 ++ [f x], state.2 + cost x)

/-- What a run of offers costs, of which the first `room` are taken. -/
def charges (room : Nat) (xs : List α) : M :=
  ((xs.take room).map cost).sum + (xs.length - room) • refusal

/-- The offers are taken in order until the list is full. -/
theorem foldl_offer (xs : List α) (kept : List β) (m : M) :
    xs.foldl (offer limit f cost refusal) (kept, m) =
      (kept ++ (xs.take (limit - kept.length)).map f,
        m + charges cost refusal (limit - kept.length) xs) := by
  induction xs generalizing kept m with
  | nil => simp [charges]
  | cons x xs ih =>
      rw [List.foldl_cons, offer]
      dsimp only
      by_cases hfull : limit ≤ kept.length
      · have hroom : limit - kept.length = 0 := by omega
        rw [if_pos hfull, ih, hroom]
        simp only [charges, List.take_zero, List.map_nil, List.sum_nil, zero_add, Nat.sub_zero,
          List.length_cons, succ_nsmul]
        rw [add_assoc, add_comm refusal]
      · obtain ⟨room, hroom⟩ : ∃ room, limit - kept.length = room + 1 :=
          ⟨limit - kept.length - 1, by omega⟩
        have hrest : limit - (kept ++ [f x]).length = room := by
          rw [List.length_append, List.length_singleton]
          omega
        rw [if_neg hfull, ih, hrest, hroom]
        simp only [charges, List.take_succ_cons, List.map_cons, List.sum_cons, List.length_cons,
          Nat.add_sub_add_right, List.append_assoc, List.singleton_append, Prod.mk.injEq, true_and]
        rw [add_assoc, add_assoc]

end

end Offer
