import Mathlib.Tactic

/-!
Machines given by an executable step function: `step s a` is `none` when the
action `a` is not enabled in `s`. A run is a list of actions, so an
interleaving of threads is a run of the machine of all of them.
-/

namespace Machine

variable {σ α : Type}

/-- Takes the actions in turn. -/
def run (step : σ → α → Option σ) (s : σ) : List α → Option σ
  | [] => some s
  | a :: as => (step s a).bind fun s' => run step s' as

@[simp] theorem run_nil (step : σ → α → Option σ) (s : σ) : run step s [] = some s := rfl

theorem run_cons (step : σ → α → Option σ) (s : σ) (a : α) (as : List α) :
    run step s (a :: as) = (step s a).bind fun s' => run step s' as := rfl

theorem run_append (step : σ → α → Option σ) (s : σ) (as bs : List α) :
    run step s (as ++ bs) = (run step s as).bind fun s' => run step s' bs := by
  induction as generalizing s with
  | nil => rfl
  | cons a as ih =>
      rw [List.cons_append, run_cons, run_cons]
      cases step s a with
      | none => rfl
      | some s' => exact ih s'

theorem run_snoc (step : σ → α → Option σ) (s : σ) (as : List α) (a : α) :
    run step s (as ++ [a]) = (run step s as).bind fun s' => step s' a := by
  rw [run_append]
  cases run step s as with
  | none => rfl
  | some s' => simp [run_cons]

/-- Invariant rule: what one step keeps, a run keeps. -/
theorem run_invariant {step : σ → α → Option σ} {Inv : σ → Prop}
    (hstep : ∀ s a s', Inv s → step s a = some s' → Inv s') {s t : σ} {as : List α}
    (h : Inv s) (hrun : run step s as = some t) : Inv t := by
  induction as generalizing s with
  | nil =>
      cases hrun
      exact h
  | cons a as ih =>
      rw [run_cons, Option.bind_eq_some_iff] at hrun
      obtain ⟨s', hs', hrest⟩ := hrun
      exact ih (hstep s a s' h hs') hrest

/-- Invariant rule for the runs whose steps all meet a condition. -/
theorem run_invariant_of {step : σ → α → Option σ} {Ok : σ → α → Prop} {Inv : σ → Prop}
    (hstep : ∀ s a s', Inv s → Ok s a → step s a = some s' → Inv s') {s t : σ} {as : List α}
    (h : Inv s) (hok : ∀ before a after s', as = before ++ a :: after →
      run step s before = some s' → Ok s' a)
    (hrun : run step s as = some t) : Inv t := by
  induction as generalizing s with
  | nil =>
      cases hrun
      exact h
  | cons a as ih =>
      rw [run_cons, Option.bind_eq_some_iff] at hrun
      obtain ⟨s', hs', hrest⟩ := hrun
      apply ih (hstep s a s' h (hok [] a as s rfl rfl) hs')
      · intro before a' after s'' hsplit hbefore
        apply hok (a :: before) a' after s''
        · rw [hsplit, List.cons_append]
        · rw [run_cons, hs']
          exact hbefore
      · exact hrest

/-- Whether a condition holds at every step of a run. -/
def throughout (step : σ → α → Option σ) (Ok : σ → α → Prop) [∀ s a, Decidable (Ok s a)] (s : σ) :
    List α → Bool
  | [] => true
  | a :: as =>
      decide (Ok s a) &&
        match step s a with
        | none => true
        | some s' => throughout step Ok s' as

theorem throughout_sound {step : σ → α → Option σ} {Ok : σ → α → Prop} [∀ s a, Decidable (Ok s a)]
    {s : σ} {as : List α} (h : throughout step Ok s as = true) :
    ∀ before a after s', as = before ++ a :: after → run step s before = some s' → Ok s' a := by
  induction as generalizing s with
  | nil =>
      intro before a after s' hsplit
      simp at hsplit
  | cons b as ih =>
      intro before a after s' hsplit hrun
      rw [throughout, Bool.and_eq_true, decide_eq_true_eq] at h
      obtain ⟨hok, hrest⟩ := h
      cases before with
      | nil =>
          cases hsplit
          cases hrun
          exact hok
      | cons c before =>
          rw [List.cons_append] at hsplit
          cases hsplit
          rw [run_cons, Option.bind_eq_some_iff] at hrun
          obtain ⟨s₁, hs₁, hbefore⟩ := hrun
          rw [hs₁] at hrest
          exact ih hrest before a after s' rfl hbefore

/-! ### Components -/

variable {β τ : Type}

/-- What a run shows of its steps, in order. -/
def trace (step : σ → α → Option σ) (shows : σ → α → Option β) (s : σ) : List α → List β
  | [] => []
  | a :: as =>
      match step s a with
      | none => []
      | some s' => (shows s a).toList ++ trace step shows s' as

/-- A component that every step moves by what it shows is moved by the trace of
a run. -/
theorem run_component {step : σ → α → Option σ} {shows : σ → α → Option β} {component : σ → τ}
    {move : τ → β → τ}
    (hstep : ∀ s a s', step s a = some s' →
      component s' = (shows s a).toList.foldl move (component s))
    {s t : σ} {as : List α} (hrun : run step s as = some t) :
    component t = (trace step shows s as).foldl move (component s) := by
  induction as generalizing s with
  | nil =>
      cases hrun
      rfl
  | cons a as ih =>
      rw [run_cons, Option.bind_eq_some_iff] at hrun
      obtain ⟨s', hs', hrest⟩ := hrun
      rw [ih hrest, hstep s a s' hs', trace, hs', List.foldl_append]

theorem trace_append {step : σ → α → Option σ} (shows : σ → α → Option β) {s t : σ} {as : List α}
    (bs : List α) (hrun : run step s as = some t) :
    trace step shows s (as ++ bs) = trace step shows s as ++ trace step shows t bs := by
  induction as generalizing s with
  | nil =>
      cases hrun
      rfl
  | cons a as ih =>
      rw [run_cons, Option.bind_eq_some_iff] at hrun
      obtain ⟨s', hs', hrest⟩ := hrun
      rw [List.cons_append, trace, hs', trace, hs']
      dsimp only
      rw [ih hrest, List.append_assoc]

theorem trace_snoc {step : σ → α → Option σ} (shows : σ → α → Option β) {s t t' : σ} {as : List α}
    {a : α} (hrun : run step s as = some t) (hstep : step t a = some t') :
    trace step shows s (as ++ [a]) = trace step shows s as ++ (shows t a).toList := by
  rw [trace_append shows [a] hrun, trace, hstep]
  exact congrArg _ (List.append_nil _)

/-- What a run shows at one of its steps, between what it shows before and
after. -/
theorem trace_split {step : σ → α → Option σ} {shows : σ → α → Option β} {s s' t : σ}
    {before after : List α} {a : α} {b : β} (hrun : run step s (before ++ a :: after) = some t)
    (hbefore : run step s before = some s') (hshows : shows s' a = some b) :
    ∃ rest, trace step shows s (before ++ a :: after) = trace step shows s before ++ b :: rest := by
  rw [run_append, hbefore, Option.bind_some, run_cons, Option.bind_eq_some_iff] at hrun
  obtain ⟨s₁, hs₁, -⟩ := hrun
  refine ⟨trace step shows s₁ after, ?_⟩
  rw [trace_append shows (a :: after) hbefore, trace, hs₁, hshows]
  rfl

theorem mem_trace {step : σ → α → Option σ} {shows : σ → α → Option β} {s s' t : σ}
    {before after : List α} {a : α} {b : β} (hrun : run step s (before ++ a :: after) = some t)
    (hbefore : run step s before = some s') (hshows : shows s' a = some b) :
    b ∈ trace step shows s (before ++ a :: after) := by
  obtain ⟨rest, hsplit⟩ := trace_split hrun hbefore hshows
  rw [hsplit]
  simp

/-- Invariant rule for what a run has done so far and where it is, when the
steps all meet a condition. -/
theorem run_history {step : σ → α → Option σ} {Ok : List α → σ → α → Prop}
    {Facts : List α → σ → Prop} {s t : σ} {as : List α} (h : Facts [] s)
    (hstep : ∀ before a s₁ s₂, run step s before = some s₁ → Facts before s₁ → Ok before s₁ a →
      step s₁ a = some s₂ → Facts (before ++ [a]) s₂)
    (hok : ∀ before a after s', as = before ++ a :: after → run step s before = some s' →
      Ok before s' a)
    (hrun : run step s as = some t) : Facts as t := by
  induction as using List.reverseRecOn generalizing t with
  | nil =>
      cases hrun
      exact h
  | append_singleton as a ih =>
      rw [run_snoc, Option.bind_eq_some_iff] at hrun
      obtain ⟨t', hbefore, hlast⟩ := hrun
      have hok' : ∀ before b after s', as = before ++ b :: after → run step s before = some s' →
          Ok before s' b := by
        intro before b after s' hsplit
        exact hok before b (after ++ [a]) s' (by rw [hsplit]; simp)
      exact hstep as a t' t hbefore (ih hok' hbefore) (hok as a [] t' rfl hbefore) hlast

end Machine
