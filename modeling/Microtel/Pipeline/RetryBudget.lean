import Microtel.Pipeline.RetryEngine

/-!
The retry budget over a drain. `FanOutAndProcess` sends every request at once and
then settles them one after the other; each settlement reads the clock for its
deadline when its own retry loop begins.
-/

namespace Microtel.Pipeline.RetryEngine

/-- Without overflow. -/
def exact : Arithmetic where
  nanos ms := ms * 1000000
  add := (· + ·)

/-- A drain from the start of its fan-out: the clock there, the answers of `SendAll`
and what the settlement of each request meets. -/
structure Drain where
  start : Int
  settlements : List (RequestRange × Wire.WireResult)
  around : Nat → Surroundings

/-- The loop of `FanOutAndProcess` over the results, from request `i` on: what each
settlement does. -/
def settleFrom (policy : RetryPolicyConfig) (around : Nat → Surroundings) :
    Nat → List (RequestRange × Wire.WireResult) → Option Diagnostics → Bool → List (List RetryEvent)
  | _, [], _, _ => []
  | i, (request, result) :: rest, diag, aborted =>
      let s := settle exact policy (around i) result kFailureStage request.count diag aborted
      s.events :: settleFrom policy around (i + 1) rest s.diag s.aborted

def Drain.events (drain : Drain) (policy : RetryPolicyConfig) (diag : Option Diagnostics)
    (aborted : Bool) : List (List RetryEvent) :=
  settleFrom policy drain.around 0 drain.settlements diag aborted

/-! ### The rounds a retry loop comes to -/

/-- A result that may be tried again. -/
def Retriable (result : Wire.WireResult) : Prop :=
  result.retryable = true ∧ result.success = false

/-- The result a retry follows. -/
def previous (around : Surroundings) (firstAttempt : Wire.WireResult) (attempt : Nat) :
    Wire.WireResult :=
  if attempt ≤ 1 then firstAttempt else around.retry (attempt - 1)

/-- The backoff before a retry. -/
def backoffBefore (around : Surroundings) (firstAttempt : Wire.WireResult) (attempt : Nat) : Int :=
  computeBackoff (around.backoff attempt) (previous around firstAttempt attempt).retryAfter

/-- When that backoff would end. -/
def waitEnd (around : Surroundings) (firstAttempt : Wire.WireResult) (attempt : Nat) : Int :=
  around.now attempt + backoffBefore around firstAttempt attempt * 1000000

/-- From its round `first` on, with `allowed` rounds left, the loop comes to the
look-ahead of round `attempt`: every result so far may be tried again, and the waits
before were begun and ended without an `Abort`. -/
structure ComesTo (around : Surroundings) (firstAttempt : Wire.WireResult) (deadline : Int)
    (aborted : Prop) (first allowed attempt : Nat) : Prop where
  from_first : first ≤ attempt
  allowed : attempt < first + allowed
  retriable : ∀ j, first ≤ j → j ≤ attempt → Retriable (previous around firstAttempt j)
  waited : ∀ j, first ≤ j → j < attempt →
    waitEnd around firstAttempt j < deadline ∧ around.abort j = false
  unaborted : first < attempt → ¬aborted

section Rounds

variable {around : Surroundings} {firstAttempt : Wire.WireResult} {deadline : Int}

theorem previous_succ {attempt : Nat} (h : 0 < attempt) :
    previous around firstAttempt (attempt + 1) = around.retry attempt := by
  rw [previous, if_neg (by omega), Nat.add_sub_cancel]

theorem comesTo_none {aborted : Prop} {first attempt : Nat} :
    ¬ComesTo around firstAttempt deadline aborted first 0 attempt := by
  intro h
  have hle := h.from_first
  have hlt := h.allowed
  omega

/-- The loop comes to its first round, and to the later ones through it. -/
theorem comesTo_succ {aborted : Prop} {first allowed attempt : Nat} :
    ComesTo around firstAttempt deadline aborted first (allowed + 1) attempt ↔
      Retriable (previous around firstAttempt first) ∧ (attempt = first ∨
        (waitEnd around firstAttempt first < deadline ∧ around.abort first = false ∧ ¬aborted) ∧
          ComesTo around firstAttempt deadline False (first + 1) allowed attempt) := by
  constructor
  · intro h
    refine ⟨h.retriable first le_rfl h.from_first, ?_⟩
    rcases Nat.eq_or_lt_of_le h.from_first with heq | hlt
    · exact Or.inl heq.symm
    · obtain ⟨hend, habort⟩ := h.waited first le_rfl hlt
      refine Or.inr ⟨⟨hend, habort, h.unaborted hlt⟩, hlt, ?_, ?_, ?_, fun _ => not_false⟩
      · have := h.allowed
        omega
      · exact fun j hj hle => h.retriable j (by omega) hle
      · exact fun j hj hlt => h.waited j (by omega) hlt
  · rintro ⟨hfirst, rfl | ⟨⟨hend, habort, hun⟩, h⟩⟩
    · refine ⟨le_rfl, by omega, ?_, fun j hj hlt => absurd hj (by omega),
        fun h => absurd h (by omega)⟩
      intro j hj hle
      rwa [Nat.le_antisymm hle hj]
    · refine ⟨Nat.le_of_succ_le h.from_first, ?_, ?_, ?_, fun _ => hun⟩
      · have := h.allowed
        omega
      · intro j hj hle
        rcases Nat.eq_or_lt_of_le hj with rfl | hj
        · exact hfirst
        · exact h.retriable j hj hle
      · intro j hj hlt
        rcases Nat.eq_or_lt_of_le hj with rfl | hj
        · exact ⟨hend, habort⟩
        · exact h.waited j hj hlt

/-- The backoff before a retry is begun. -/
def Begins (around : Surroundings) (firstAttempt : Wire.WireResult) (deadline : Int)
    (attempt : Nat) : Prop :=
  Retriable (previous around firstAttempt attempt) ∧ waitEnd around firstAttempt attempt < deadline

theorem ComesTo.begins {aborted : Prop} {first allowed attempt : Nat}
    (h : ComesTo around firstAttempt deadline aborted first allowed attempt)
    (hend : waitEnd around firstAttempt attempt < deadline) :
    Begins around firstAttempt deadline first := by
  refine ⟨h.retriable first le_rfl h.from_first, ?_⟩
  rcases Nat.eq_or_lt_of_le h.from_first with rfl | hlt
  · exact hend
  · exact (h.waited first le_rfl hlt).1

/-- The one wait is that before retry `attempt`. -/
def WaitsOnce (around : Surroundings) (firstAttempt : Wire.WireResult) (attempt : Nat)
    (events : List RetryEvent) : Prop :=
  ∀ k now backoff, .wait k now backoff ∈ events ↔
    k = attempt ∧ now = around.now k ∧ backoff = backoffBefore around firstAttempt k

theorem backOff_cases (attempt : Nat) (aborted : Bool) :
    let b := backOffBeforeRetry exact around deadline (previous around firstAttempt attempt) attempt
      aborted
    (¬Begins around firstAttempt deadline attempt ∧ b.go = false ∧ b.aborted = aborted ∧
      ∀ k now backoff, .wait k now backoff ∉ b.events) ∨
    (Begins around firstAttempt deadline attempt ∧ b.go = !b.aborted ∧
      b.aborted = (aborted || around.abort attempt) ∧
      WaitsOnce around firstAttempt attempt b.events) := by
  unfold backOffBeforeRetry
  split
  · next hstop =>
    refine Or.inl ⟨?_, rfl, rfl, fun _ _ _ => List.not_mem_nil⟩
    rintro ⟨⟨hretryable, hfailed⟩, -⟩
    simp [hretryable, hfailed] at hstop
  · next hgo =>
    have hretriable : Retriable (previous around firstAttempt attempt) := by
      simpa [Retriable, and_comm] using hgo
    dsimp only
    split
    · next hover =>
      refine Or.inl ⟨fun h => absurd h.2 (not_lt.mpr hover), rfl, rfl, ?_⟩
      intro k now backoff hmem
      exact RetryEvent.noConfusion (List.mem_singleton.mp hmem)
    · next hwithin =>
      refine Or.inr ⟨⟨hretriable, not_le.mp hwithin⟩, rfl, rfl, ?_⟩
      intro k now backoff
      have hend : .wait k now backoff ∉
          if (sleepUnlessAborted around attempt aborted).1 then [] else [RetryEvent.abortSeen] := by
        split <;> simp
      rw [List.mem_append, or_iff_left hend, List.mem_cons, List.mem_singleton,
        or_iff_right RetryEvent.noConfusion, RetryEvent.wait.injEq]
      constructor
      · rintro ⟨rfl, hnow, hbackoff⟩
        exact ⟨rfl, hnow, hbackoff⟩
      · rintro ⟨rfl, hnow, hbackoff⟩
        exact ⟨rfl, hnow, hbackoff⟩

/-- What the loop does from its round `first` on: in each round it comes to it waits
if the wait ends before the deadline, and it sees every `Abort` of those waits. -/
structure Waits (around : Surroundings) (firstAttempt : Wire.WireResult) (deadline : Int)
    (aborted : Bool) (first allowed : Nat) (events : List RetryEvent) (aborted' : Bool) : Prop where
  waits : ∀ k now backoff, .wait k now backoff ∈ events ↔
    (ComesTo around firstAttempt deadline (aborted = true) first allowed k ∧
      waitEnd around firstAttempt k < deadline) ∧
    now = around.now k ∧ backoff = backoffBefore around firstAttempt k
  aborted : aborted' = true ↔ aborted = true ∨
    ∃ k, (ComesTo around firstAttempt deadline (aborted = true) first allowed k ∧
      waitEnd around firstAttempt k < deadline) ∧ around.abort k = true

theorem Waits.nothing {aborted : Bool} {first allowed : Nat} {events : List RetryEvent}
    (hnone : ∀ k now backoff, .wait k now backoff ∉ events)
    (hnever : ∀ k, ComesTo around firstAttempt deadline (aborted = true) first allowed k →
      ¬waitEnd around firstAttempt k < deadline) :
    Waits around firstAttempt deadline aborted first allowed events aborted := by
  refine ⟨fun k now backoff => ?_, ?_⟩
  · exact iff_of_false (hnone k now backoff) fun h => hnever k h.1.1 h.1.2
  · refine (or_iff_left ?_).symm
    rintro ⟨k, ⟨hcomes, hend⟩, -⟩
    exact hnever k hcomes hend

/-- A round whose wait sees `Abort` is the last. -/
theorem Waits.stops {aborted : Bool} {first allowed : Nat} {events : List RetryEvent}
    (hbegins : Begins around firstAttempt deadline first)
    (hseen : aborted = true ∨ around.abort first = true)
    (honce : WaitsOnce around firstAttempt first events) :
    Waits around firstAttempt deadline aborted first (allowed + 1) events true := by
  have hcomes : ∀ k, ComesTo around firstAttempt deadline (aborted = true) first (allowed + 1) k ↔
      k = first := by
    intro k
    rw [comesTo_succ, and_iff_right hbegins.1, or_iff_left]
    rintro ⟨⟨-, habort, hun⟩, -⟩
    exact hseen.elim hun fun h => Bool.false_ne_true (habort.symm.trans h)
  refine ⟨fun k now backoff => ?_, iff_of_true rfl (hseen.imp_right fun h => ?_)⟩
  · rw [honce, hcomes]
    refine and_congr_left fun _ => ?_
    exact (and_iff_left_of_imp fun h => h ▸ hbegins.2).symm
  · exact ⟨first, ⟨(hcomes first).mpr rfl, hbegins.2⟩, h⟩

/-- A round whose wait sees no `Abort` comes to the next one. -/
theorem Waits.goesOn {first allowed : Nat} {events rest : List RetryEvent} {aborted' : Bool}
    (hbegins : Begins around firstAttempt deadline first) (habort : around.abort first = false)
    (honce : WaitsOnce around firstAttempt first events)
    (hrest : Waits around firstAttempt deadline false (first + 1) allowed rest aborted') :
    Waits around firstAttempt deadline false first (allowed + 1)
      (events ++ .send first (around.retry first) :: rest) aborted' := by
  have hcomes : ∀ k, ComesTo around firstAttempt deadline (false = true) first (allowed + 1) k ↔
      k = first ∨ ComesTo around firstAttempt deadline (false = true) (first + 1) allowed k := by
    intro k
    have hgoes : waitEnd around firstAttempt first < deadline ∧
        around.abort first = false ∧ ¬false = true := ⟨hbegins.2, habort, Bool.false_ne_true⟩
    rw [comesTo_succ, and_iff_right hbegins.1, and_iff_right hgoes, eq_false Bool.false_ne_true]
  have hsend : ∀ k now backoff,
      .wait k now backoff ∈ events ++ RetryEvent.send first (around.retry first) :: rest ↔
        .wait k now backoff ∈ events ∨ .wait k now backoff ∈ rest := by
    intro k now backoff
    rw [List.mem_append, List.mem_cons, or_iff_right (a := _ = _) RetryEvent.noConfusion]
  refine ⟨fun k now backoff => ?_, ?_⟩
  · rw [hsend, honce, hrest.waits, hcomes, or_and_right, or_and_right]
    refine or_congr_left (and_congr_left fun _ => ?_)
    exact (and_iff_left_of_imp fun h => h ▸ hbegins.2).symm
  · rw [hrest.aborted]
    refine or_congr_right (exists_congr fun k => and_congr_left fun hk =>
      and_congr_left fun _ => ?_)
    rw [hcomes, or_iff_right]
    rintro rfl
    exact Bool.false_ne_true (habort.symm.trans hk)

theorem retryFrom_waits (allowed first : Nat) (last : Option Wire.WireResult) (aborted : Bool)
    (hfirst : 0 < first) (hlast : last.getD firstAttempt = previous around firstAttempt first) :
    let r := retryFrom exact around deadline firstAttempt allowed first last aborted
    Waits around firstAttempt deadline aborted first allowed r.events r.aborted := by
  induction allowed generalizing first last aborted with
  | zero =>
      exact Waits.nothing (fun _ _ _ => List.not_mem_nil) fun k h => absurd h comesTo_none
  | succ allowed ih =>
      rw [retryFrom, hlast]
      dsimp only
      have hback := @backOff_cases around firstAttempt deadline first aborted
      generalize backOffBeforeRetry exact around deadline (previous around firstAttempt first) first
        aborted = b at hback ⊢
      rcases hback with ⟨hbegins, hgo, haborted, hnone⟩ | ⟨hbegins, hgo, haborted, honce⟩
      · rw [hgo, if_neg Bool.false_ne_true, haborted]
        exact Waits.nothing hnone fun k hcomes hend => hbegins (hcomes.begins hend)
      · rw [hgo, haborted]
        cases hseen : aborted || around.abort first with
        | true =>
            rw [Bool.not_true, if_neg Bool.false_ne_true]
            exact Waits.stops hbegins (Bool.or_eq_true_iff.mp hseen) honce
        | false =>
            obtain ⟨rfl, habort⟩ := Bool.or_eq_false_iff.mp hseen
            rw [Bool.not_false, if_pos rfl]
            exact Waits.goesOn hbegins habort honce
              (ih (first + 1) _ false (Nat.succ_pos _) (previous_succ hfirst).symm)

end Rounds

/-! ### A settlement -/

/-- The deadline of a retry loop counts from the reading at which the loop begins. -/
def loopDeadline (policy : RetryPolicyConfig) (around : Surroundings) : Int :=
  around.now 0 + policy.retryBudget * 1000000

/-- The retry loop of a request comes to the look-ahead before retry `attempt`. -/
def LooksAhead (policy : RetryPolicyConfig) (around : Surroundings) (firstAttempt : Wire.WireResult)
    (aborted : Prop) (attempt : Nat) : Prop :=
  ComesTo around firstAttempt (loopDeadline policy around) aborted 1
    (policy.maxAttempts - 1) attempt

/-- `Abort` has been seen when the request is settled. -/
def AbortSeen (policy : RetryPolicyConfig) (around : Surroundings) (firstAttempt : Wire.WireResult)
    (aborted : Prop) : Prop :=
  aborted ∨ ∃ attempt, (LooksAhead policy around firstAttempt aborted attempt ∧
    waitEnd around firstAttempt attempt < loopDeadline policy around) ∧ around.abort attempt = true

/-- No wait begins that would end at or after the budget, counted from `start`. -/
def WithinBudget (policy : RetryPolicyConfig) (start : Int) (events : List RetryEvent) : Prop :=
  ∀ attempt now backoff, .wait attempt now backoff ∈ events →
    now + backoff * 1000000 < start + policy.retryBudget * 1000000

/-- No look-ahead comes to lie between the end of the budget from `start` and its end
from the reading at which the retry loop began. -/
def ClearOfGap (policy : RetryPolicyConfig) (start : Int) (around : Surroundings)
    (firstAttempt : Wire.WireResult) (aborted : Prop) : Prop :=
  ∀ attempt, LooksAhead policy around firstAttempt aborted attempt →
    ¬(start + policy.retryBudget * 1000000 ≤ waitEnd around firstAttempt attempt ∧
      waitEnd around firstAttempt attempt < loopDeadline policy around)

theorem settle_waits (policy : RetryPolicyConfig) (around : Surroundings)
    (firstAttempt : Wire.WireResult) (stage : String) (batches : Nat) (diag : Option Diagnostics)
    (aborted : Bool) :
    let s := settle exact policy around firstAttempt stage batches diag aborted
    Waits around firstAttempt (loopDeadline policy around) aborted 1 (policy.maxAttempts - 1)
      s.events s.aborted := by
  have hallowed : (if 0 < policy.maxAttempts then policy.maxAttempts else 1) - 1 =
      policy.maxAttempts - 1 := by
    split <;> omega
  have hwaits := @retryFrom_waits around firstAttempt (loopDeadline policy around)
    (policy.maxAttempts - 1) 1 none aborted Nat.one_pos rfl
  unfold settle resolve
  dsimp only
  split
  · next hstop =>
    refine Waits.nothing (fun _ _ _ => List.not_mem_nil) fun k h => ?_
    obtain ⟨hretryable, hfailed⟩ := h.retriable 1 le_rfl h.from_first
    rw [previous, if_pos le_rfl] at hretryable hfailed
    simp [hretryable, hfailed] at hstop
  · rw [runRetryLoop, hallowed]
    split <;> exact hwaits

theorem settle_abortSeen (policy : RetryPolicyConfig) (around : Surroundings)
    (firstAttempt : Wire.WireResult) (stage : String) (batches : Nat) (diag : Option Diagnostics)
    (aborted : Bool) :
    (settle exact policy around firstAttempt stage batches diag aborted).aborted = true ↔
      AbortSeen policy around firstAttempt (aborted = true) :=
  (settle_waits policy around firstAttempt stage batches diag aborted).aborted

theorem settle_withinBudget_iff (policy : RetryPolicyConfig) (start : Int) (around : Surroundings)
    (firstAttempt : Wire.WireResult) (stage : String) (batches : Nat) (diag : Option Diagnostics)
    (aborted : Bool) :
    WithinBudget policy start
        (settle exact policy around firstAttempt stage batches diag aborted).events ↔
      ClearOfGap policy start around firstAttempt (aborted = true) := by
  have hwaits := (settle_waits policy around firstAttempt stage batches diag aborted).waits
  constructor
  · rintro hwithin attempt hlooks ⟨hlate, hbefore⟩
    have hwait := (hwaits attempt _ _).mpr ⟨⟨hlooks, hbefore⟩, rfl, rfl⟩
    exact absurd (hwithin attempt _ _ hwait) (not_lt.mpr hlate)
  · intro hclear attempt now backoff hwait
    obtain ⟨⟨hlooks, hbefore⟩, rfl, rfl⟩ := (hwaits attempt now backoff).mp hwait
    by_contra hlate
    exact hclear attempt hlooks ⟨not_lt.mp hlate, hbefore⟩

/-! ### The budget of a drain -/

/-- Every request of a drain is clear of the gap, from request `i` on. -/
def ClearFrom (policy : RetryPolicyConfig) (start : Int) (around : Nat → Surroundings) :
    Nat → List (RequestRange × Wire.WireResult) → Prop → Prop
  | _, [], _ => True
  | i, (_, result) :: rest, aborted =>
      ClearOfGap policy start (around i) result aborted ∧
        ClearFrom policy start around (i + 1) rest (AbortSeen policy (around i) result aborted)

theorem settleFrom_withinBudget_iff (policy : RetryPolicyConfig) (start : Int)
    (around : Nat → Surroundings) (i : Nat) (settlements : List (RequestRange × Wire.WireResult))
    (diag : Option Diagnostics) (aborted : Bool) :
    (∀ events ∈ settleFrom policy around i settlements diag aborted,
        WithinBudget policy start events) ↔
      ClearFrom policy start around i settlements (aborted = true) := by
  induction settlements generalizing i diag aborted with
  | nil => exact iff_of_true (fun _ h => absurd h List.not_mem_nil) trivial
  | cons settlement settlements ih =>
      obtain ⟨request, result⟩ := settlement
      rw [settleFrom, ClearFrom, List.forall_mem_cons, ih, settle_withinBudget_iff,
        propext (settle_abortSeen policy (around i) result _ _ _ _)]

/-- In a drain, no backoff begins that would end at or after the budget from the
start of the fan-out, if and only if no look-ahead falls in the time by which the
loop of its request began later. -/
theorem budget_from_fanOut_iff (drain : Drain) (policy : RetryPolicyConfig)
    (diag : Option Diagnostics) (aborted : Bool) :
    (∀ events ∈ drain.events policy diag aborted, WithinBudget policy drain.start events) ↔
      ClearFrom policy drain.start drain.around 0 drain.settlements (aborted = true) :=
  settleFrom_withinBudget_iff policy drain.start drain.around 0 drain.settlements diag aborted

/-! ### A late wait -/

/-- The fan-out takes 900 ms of a budget of 1000 ms; the request it carried may be
tried again, and would wait 500 ms. -/
def slowFanOut : Drain where
  start := 0
  settlements := [(⟨0, 1⟩, { retryable := true })]
  around := fun _ =>
    { now := fun _ => 900000000
      backoff := fun _ => 500
      abort := fun _ => false
      retry := fun _ => { success := true } }

def shortBudget : RetryPolicyConfig where
  maxAttempts := 2
  retryBudget := 1000

/-- The wait begins at 900 ms and would end at 1400 ms. -/
theorem late_wait : ¬∀ events ∈ slowFanOut.events shortBudget none false,
    WithinBudget shortBudget slowFanOut.start events := by
  intro h
  have hevents : slowFanOut.events shortBudget none false = [[.lookAhead 1 900000000 500,
      .wait 1 900000000 500, .send 1 { success := true }]] := by decide
  have hlate := h _ (by rw [hevents]; exact List.mem_singleton_self _) 1 900000000 500 (by simp)
  exact absurd hlate (by decide)

end Microtel.Pipeline.RetryEngine
