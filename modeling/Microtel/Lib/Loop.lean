import Mathlib.Tactic

/-!
A `while` loop with explicit fuel, and the rules its clients use: the loop is
driven by a list of items still to visit, one item each round.
-/

namespace Loop

variable {σ α : Type}

/-- `while (cond) body`, for at most `fuel` rounds. -/
def whileLoop (cond : σ → Bool) (body : σ → σ) : Nat → σ → σ
  | 0, s => s
  | fuel + 1, s => if cond s then whileLoop cond body fuel (body s) else s

theorem whileLoop_done {cond : σ → Bool} {body : σ → σ} {s : σ} (fuel : Nat)
    (h : cond s = false) : whileLoop cond body fuel s = s := by
  cases fuel <;> simp [whileLoop, h]

theorem whileLoop_step {cond : σ → Bool} {body : σ → σ} {s : σ} (fuel : Nat)
    (h : cond s = true) :
    whileLoop cond body (fuel + 1) s = whileLoop cond body fuel (body s) := by
  simp [whileLoop, h]

/-- Run rule. `R xs s` says that in state `s` the loop still has `xs` to visit. -/
theorem whileLoop_visits (cond : σ → Bool) (body : σ → σ) (R : List α → σ → Prop)
    (hend : ∀ s, R [] s → cond s = false)
    (hstep : ∀ x xs s, R (x :: xs) s → cond s = true ∧ R xs (body s))
    (xs : List α) (s : σ) (fuel : Nat) (hfuel : xs.length ≤ fuel) (h : R xs s) :
    R [] (whileLoop cond body fuel s) := by
  induction xs generalizing s fuel with
  | nil => rwa [whileLoop_done fuel (hend s h)]
  | cons x xs ih =>
      obtain ⟨fuel, rfl⟩ : ∃ k, fuel = k + 1 := ⟨fuel - 1, by simp at hfuel; omega⟩
      obtain ⟨hcond, hnext⟩ := hstep x xs s h
      rw [whileLoop_step fuel hcond]
      exact ih (body s) fuel (by simpa using hfuel) hnext

/-- Two loops whose bodies agree on every state the first one visits agree. -/
theorem whileLoop_congr (cond : σ → Bool) (body body' : σ → σ) (R : List α → σ → Prop)
    (hend : ∀ s, R [] s → cond s = false)
    (hstep : ∀ x xs s, R (x :: xs) s → body' s = body s ∧ R xs (body s))
    (xs : List α) (s : σ) (fuel : Nat) (h : R xs s) :
    whileLoop cond body' fuel s = whileLoop cond body fuel s := by
  induction xs generalizing s fuel with
  | nil => rw [whileLoop_done fuel (hend s h), whileLoop_done fuel (hend s h)]
  | cons x xs ih =>
      obtain ⟨hbody, hnext⟩ := hstep x xs s h
      cases fuel with
      | zero => rfl
      | succ fuel =>
          unfold whileLoop
          rw [hbody, ih (body s) fuel hnext]

/-- A loop that stops after `n` rounds has run its body `n` times. -/
theorem whileLoop_eq_iterate {cond : σ → Bool} {body : σ → σ} {s : σ} {n fuel : Nat}
    (hfuel : n ≤ fuel) (hrun : ∀ k < n, cond (body^[k] s) = true)
    (hend : cond (body^[n] s) = false) : whileLoop cond body fuel s = body^[n] s := by
  induction n generalizing s fuel with
  | zero => exact whileLoop_done fuel hend
  | succ n ih =>
      obtain ⟨fuel, rfl⟩ : ∃ k, fuel = k + 1 := ⟨fuel - 1, by omega⟩
      have hfirst : cond s = true := hrun 0 (by omega)
      rw [whileLoop_step fuel hfirst]
      exact ih (Nat.le_of_succ_le_succ hfuel) (fun k hk => hrun (k + 1) (by omega)) hend

/-- An invariant of the body holds when the loop stops, and it stops when each round makes a
measure smaller. -/
theorem whileLoop_invariant (cond : σ → Bool) (body : σ → σ) (Inv : σ → Prop) (size : σ → Nat)
    (hstep : ∀ s, Inv s → cond s = true → Inv (body s) ∧ size (body s) < size s)
    (s : σ) (fuel : Nat) (hfuel : size s ≤ fuel) (h : Inv s) :
    Inv (whileLoop cond body fuel s) ∧ cond (whileLoop cond body fuel s) = false := by
  induction fuel generalizing s with
  | zero =>
      refine ⟨h, Bool.eq_false_iff.mpr fun hcond => ?_⟩
      have hless := (hstep s h hcond).2
      omega
  | succ fuel ih =>
      cases hcond : cond s with
      | false => rw [whileLoop_done _ hcond]; exact ⟨h, hcond⟩
      | true =>
          obtain ⟨hnext, hless⟩ := hstep s h hcond
          rw [whileLoop_step fuel hcond]
          exact ih (body s) (by omega) hnext

end Loop
