import Microtel.Sdk.ProviderRegistry

/-!
Every interleaving of registrations and deregistrations: who holds which slot,
when two providers can end up with one name, and that of several registrations
of one name one succeeds.
-/

namespace Microtel.Sdk.ProviderRegistry

variable {name : Provider → Bytes} {s s' : State} {a : Action} {p q : Provider} {i j c : Nat}

/-! ### Who holds which slot -/

/-- The phases in which a provider holds slot `i`. -/
def Holds (i : Nat) : Phase → Prop
  | .rechecking c _ => c = i
  | .backingOut c => c = i
  | .returned .registered => True
  | .deregistering k => k ≤ i
  | _ => False

/-- A slot holds a provider exactly while its calls say so, and a provider has
one slot. -/
structure Inv (s : State) : Prop where
  bound : ∀ i p, s.slots i = some p → i < maxProfiles
  holds : ∀ i p, s.slots i = some p → Holds i (s.phase p)
  unique : ∀ i j p, s.slots i = some p → s.slots j = some p → i = j
  slot : ∀ p i, Holds i (s.phase p) → ∃ j, s.slots j = some p ∧ Holds j (s.phase p)
  claiming : ∀ p i, s.phase p = .claiming i → i < maxProfiles
  rechecking : ∀ p c k, s.phase p = .rechecking c k → k < c

theorem recheckFrom_holds {c i : Nat} : Holds c (recheckFrom c i) := by
  unfold recheckFrom
  split
  · rfl
  · trivial

theorem recheckFrom_below {c i c' k : Nat} (h : recheckFrom c i = .rechecking c' k) : k < c' := by
  unfold recheckFrom at h
  split at h
  · cases h
    assumption
  · cases h

theorem Inv.init : Inv init where
  bound := by
    intro i p h
    cases h
  holds := by
    intro i p h
    cases h
  unique := by
    intro i j p h
    cases h
  slot := by
    intro p i h
    cases h
  claiming := by
    intro p i h
    cases h
  rechecking := by
    intro p c k h
    cases h

/-- A step that leaves the slots alone. -/
theorem Inv.moved (I : Inv s) {φ : Phase}
    (hholds : ∀ i, s.slots i = some p → Holds i φ)
    (hslot : ∀ i, Holds i φ → ∃ j, s.slots j = some p ∧ Holds j φ)
    (hclaiming : ∀ i, φ = .claiming i → i < maxProfiles)
    (hrechecking : ∀ c k, φ = .rechecking c k → k < c) : Inv (s.put p (s.slots, φ)) where
  bound := I.bound
  unique := I.unique
  holds := by
    intro i q hq
    by_cases hself : q = p
    · subst hself
      simpa [State.put] using hholds i hq
    · simpa [State.put, hself] using I.holds i q hq
  slot := by
    intro q i h
    by_cases hself : q = p
    · subst hself
      simpa [State.put] using hslot i (by simpa [State.put] using h)
    · simpa [State.put, hself] using I.slot q i (by simpa [State.put, hself] using h)
  claiming := by
    intro q i h
    by_cases hself : q = p
    · subst hself
      exact hclaiming i (by simpa [State.put] using h)
    · exact I.claiming q i (by simpa [State.put, hself] using h)
  rechecking := by
    intro q c k h
    by_cases hself : q = p
    · subst hself
      exact hrechecking c k (by simpa [State.put] using h)
    · exact I.rechecking q c k (by simpa [State.put, hself] using h)

/-- A step that empties the provider's own slot. -/
theorem Inv.emptied (I : Inv s) {φ : Phase} (hown : s.slots c = some p)
    (hnone : ∀ i, ¬ Holds i φ) (hclaiming : ∀ i, φ ≠ .claiming i) :
    Inv (s.put p (Function.update s.slots c none, φ)) := by
  have hkept : ∀ i q, Function.update s.slots c none i = some q → s.slots i = some q ∧ q ≠ p := by
    intro i q hq
    by_cases hi : i = c
    · subst hi
      simp at hq
    · rw [Function.update_of_ne hi] at hq
      refine ⟨hq, ?_⟩
      rintro rfl
      exact hi (I.unique i c q hq hown)
  constructor
  · intro i q hq
    exact I.bound i q (hkept i q hq).1
  · intro i q hq
    obtain ⟨hold, hne⟩ := hkept i q hq
    simpa [State.put, hne] using I.holds i q hold
  · intro i j q hi hj
    exact I.unique i j q (hkept i q hi).1 (hkept j q hj).1
  · intro q i h
    by_cases hself : q = p
    · subst hself
      simp [State.put] at h
      exact absurd h (hnone i)
    · obtain ⟨j, hj, hholds⟩ := I.slot q i (by simpa [State.put, hself] using h)
      refine ⟨j, ?_, by simpa [State.put, hself] using hholds⟩
      have hne : j ≠ c := by
        rintro rfl
        rw [hown] at hj
        exact hself (Option.some.inj hj).symm
      simpa [State.put, hne] using hj
  · intro q i h
    by_cases hself : q = p
    · subst hself
      simp [State.put] at h
      exact absurd h (hclaiming i)
    · exact I.claiming q i (by simpa [State.put, hself] using h)
  · intro q c' k h
    by_cases hself : q = p
    · subst hself
      simp only [State.put, Function.update_self] at h
      exact absurd (h ▸ rfl) (hnone c')
    · exact I.rechecking q c' k (by simpa [State.put, hself] using h)

/-- A step that claims an empty slot. -/
theorem Inv.claimed (I : Inv s) (hphase : s.phase p = .claiming i) (hfree : s.slots i = none) :
    Inv (s.put p (Function.update s.slots i (some p), recheckFrom i 0)) := by
  have hnew : ∀ j, s.slots j ≠ some p := by
    intro j hj
    have hholds := I.holds j p hj
    rw [hphase] at hholds
    exact hholds
  constructor
  · intro j q hq
    by_cases hj : j = i
    · subst hj
      exact I.claiming p j hphase
    · exact I.bound j q (by simpa [State.put, hj] using hq)
  · intro j q hq
    by_cases hj : j = i
    · subst hj
      obtain rfl : p = q := by simpa [State.put] using hq
      simpa [State.put] using recheckFrom_holds
    · have hold : s.slots j = some q := by simpa [State.put, hj] using hq
      have hne : q ≠ p := by
        rintro rfl
        exact hnew j hold
      simpa [State.put, hne] using I.holds j q hold
  · intro j k q hj hk
    have hcases : ∀ j, Function.update s.slots i (some p) j = some q →
        (j = i ∧ q = p) ∨ (s.slots j = some q) := by
      intro j hj
      by_cases hji : j = i
      · subst hji
        exact Or.inl ⟨rfl, by simpa using hj.symm⟩
      · rw [Function.update_of_ne hji] at hj
        exact Or.inr hj
    rcases hcases j hj with ⟨rfl, rfl⟩ | hold
    · rcases hcases k hk with ⟨rfl, -⟩ | hold'
      · rfl
      · exact absurd hold' (hnew k)
    · rcases hcases k hk with ⟨rfl, rfl⟩ | hold'
      · exact absurd hold (hnew j)
      · exact I.unique j k q hold hold'
  · intro q j h
    by_cases hself : q = p
    · subst hself
      exact ⟨i, by simp [State.put], by simpa [State.put] using recheckFrom_holds⟩
    · obtain ⟨k, hk, hholds⟩ := I.slot q j (by simpa [State.put, hself] using h)
      have hne : k ≠ i := by
        rintro rfl
        rw [hfree] at hk
        cases hk
      exact ⟨k, by simpa [State.put, hne] using hk, by simpa [State.put, hself] using hholds⟩
  · intro q j h
    by_cases hself : q = p
    · subst hself
      simp only [State.put, Function.update_self, recheckFrom] at h
      split at h <;> cases h
    · exact I.claiming q j (by simpa [State.put, hself] using h)
  · intro q c k h
    by_cases hself : q = p
    · subst hself
      exact recheckFrom_below (by simpa [State.put] using h)
    · exact I.rechecking q c k (by simpa [State.put, hself] using h)

/-- A provider without a slot has none while its calls name none. -/
theorem Inv.absent (I : Inv s) (h : ∀ i, ¬ Holds i (s.phase p)) (i : Nat) : s.slots i ≠ some p :=
  fun hp => h i (I.holds i p hp)

theorem Inv.step (I : Inv s) (h : step name s a = some s') : Inv s' := by
  obtain ⟨slots, φ, rfl, M⟩ := step_spec h
  -- most steps are taken by a provider without a slot and leave it without one
  have hidle : ∀ {φ : Phase}, (∀ i, ¬ Holds i (s.phase a.provider)) → (∀ i, ¬ Holds i φ) →
      (∀ i, φ = .claiming i → i < maxProfiles) → Inv (s.put a.provider (s.slots, φ)) := by
    intro φ hbefore hafter hclaiming
    apply I.moved (fun i hi => absurd hi (I.absent hbefore i)) (fun i hi => absurd hi (hafter i))
      hclaiming
    rintro c k rfl
    exact absurd rfl (hafter c)
  have hown : ∀ i, Holds i (s.phase a.provider) →
      ∃ j, s.slots j = some a.provider ∧ Holds j (s.phase a.provider) := I.slot a.provider
  cases M with
  | begun hp => exact hidle (by simp [hp, Holds]) (by simp [Holds]) (by simp)
  | refused hp => exact hidle (by simp [hp, Holds]) (by simp [Holds]) (by simp)
  | scanned hp => exact hidle (by simp [hp, Holds]) (by simp [Holds]) (by simp)
  | clear hp => exact hidle (by simp [hp, Holds]) (by simp [Holds]) (by simp [maxProfiles])
  | claimed hp hfree => exact I.claimed hp hfree
  | occupied hp _ hmore =>
      exact hidle (by simp [hp, Holds]) (by simp [Holds]) (by rintro i ⟨⟩; exact hmore)
  | exhausted hp => exact hidle (by simp [hp, Holds]) (by simp [Holds]) (by simp)
  | @lost c k q hp =>
      rw [hp] at hown
      apply I.moved
      · intro i hi
        have hi := I.holds i _ hi
        rw [hp] at hi
        exact hi
      · intro i hi
        exact hown i hi
      · simp
      · simp
  | @passed c k hp =>
      rw [hp] at hown
      obtain ⟨j, hj, rfl⟩ := hown c rfl
      apply I.moved
      · intro i hi
        rw [← I.unique c i _ hj hi]
        exact recheckFrom_holds
      · intro i _
        exact ⟨c, hj, recheckFrom_holds⟩
      · intro i hi
        unfold recheckFrom at hi
        split at hi <;> cases hi
      · intro c' k' hk
        exact recheckFrom_below hk
  | @backedOut c hp =>
      rw [hp] at hown
      obtain ⟨j, hj, rfl⟩ := hown c rfl
      exact I.emptied hj (by simp [Holds]) (by simp)
  | leaving hp =>
      rw [hp] at hown
      apply I.moved
      · intro i _
        exact Nat.zero_le i
      · intro i _
        obtain ⟨j, hj, -⟩ := hown i trivial
        exact ⟨j, hj, Nat.zero_le j⟩
      · simp
      · simp
  | left hp hq => exact I.emptied hq (by simp [Holds]) (by simp)
  | @searched k hp hq =>
      rw [hp] at hown
      have hlater : ∀ i, s.slots i = some a.provider → k + 1 ≤ i := by
        intro i hi
        have hk := I.holds i _ hi
        rw [hp] at hk
        have hne : i ≠ k := by
          rintro rfl
          exact hq hi
        have hk : k ≤ i := hk
        omega
      apply I.moved
      · exact hlater
      · intro i hi
        obtain ⟨j, hj, -⟩ := hown i (Nat.le_of_succ_le hi)
        exact ⟨j, hj, hlater j hj⟩
      · simp
      · simp
  | @missed k hp hq hlast =>
      have hgone : ∀ i, s.slots i ≠ some a.provider := by
        intro i hi
        have hk := I.holds i _ hi
        rw [hp] at hk
        have hne : i ≠ k := by
          rintro rfl
          exact hq hi
        have hk : k ≤ i := hk
        have hbound := I.bound i _ hi
        omega
      apply I.moved
      · intro i hi
        exact absurd hi (hgone i)
      · intro i hi
        cases hi
      · simp
      · simp

/-- Only a provider's own call takes its slot from it. -/
theorem step_clears (I : Inv s) (h : step name s a = some s') {i : Nat} (hq : s.slots i = some q)
    (hgone : s'.slots i ≠ some q) : a.provider = q := by
  obtain ⟨slots, φ, rfl, M⟩ := step_spec h
  have hown : ∀ c, s.phase a.provider = .backingOut c → s.slots c = some a.provider := by
    intro c hc
    have hslot := I.slot a.provider c
    rw [hc] at hslot
    obtain ⟨j, hj, rfl⟩ := hslot rfl
    exact hj
  have hcleared : ∀ c, s.slots c = some a.provider →
      Function.update s.slots c none i ≠ some q → a.provider = q := by
    intro c hc hne
    by_cases hi : i = c
    · subst hi
      exact Option.some.inj (hc.symm.trans hq)
    · rw [Function.update_of_ne hi] at hne
      exact absurd hq hne
  cases M with
  | @claimed k hp hfree =>
      by_cases hi : i = k
      · subst hi
        rw [hfree] at hq
        cases hq
      · exact absurd hq (by simpa [State.put, Function.update_of_ne hi] using hgone)
  | backedOut hp => exact hcleared _ (hown _ hp) hgone
  | left hp hown' => exact hcleared _ hown' hgone
  | _ => exact absurd hq hgone

/-! ### Two providers of one name -/

/-- The holder of a slot above `i` has already looked at slot `i`. -/
def Passed (i : Nat) : Phase → Prop
  | .rechecking _ k => i < k
  | .returned .registered => True
  | _ => False

/-- The step does not claim a slot that a provider of the same name, in a
higher slot, has already passed. -/
def ClaimsInSight (name : Provider → Bytes) (s : State) (a : Action) : Prop :=
  ∀ p i, a = .access p → s.phase p = .claiming i → s.slots i = none →
    ∀ j q, i < j → s.slots j = some q → name q = name p → ¬ Passed i (s.phase q)

/-- Of two holders of one name, the higher has not passed the lower. -/
def LowestWins (name : Provider → Bytes) (s : State) : Prop :=
  ∀ i j p q, i < j → s.slots i = some p → s.slots j = some q → name p = name q →
    ¬ Passed i (s.phase q)

theorem recheckFrom_passed {c k i : Nat} (h : Passed i (recheckFrom c (k + 1))) (hi : i < c) :
    i ≤ k := by
  unfold recheckFrom at h
  split at h
  · have hk : i < k + 1 := h
    omega
  · omega

/-- Step lemma. -/
theorem LowestWins.step (L : LowestWins name s) (I : Inv s) (hok : ClaimsInSight name s a)
    (h : step name s a = some s') : LowestWins name s' := by
  obtain ⟨slots, φ, rfl, M⟩ := step_spec h
  -- the phase of one holder changes and the slots shrink or stay
  have hmoved : ∀ {slots : Nat → Option Provider} {φ : Phase},
      (∀ i q, slots i = some q → s.slots i = some q) →
      (∀ i j p, i < j → s.slots i = some p → s.slots j = some a.provider →
        name p = name a.provider → Passed i φ → Passed i (s.phase a.provider)) →
      LowestWins name (s.put a.provider (slots, φ)) := by
    intro slots φ hslots hφ i j p q hij hp hq hname hpassed
    have hp := hslots i p hp
    have hq := hslots j q hq
    apply L i j p q hij hp hq hname
    by_cases hself : q = a.provider
    · subst hself
      exact hφ i j p hij hp hq hname (by simpa [State.put] using hpassed)
    · simpa [State.put, hself] using hpassed
  have hemptied : ∀ c i q, Function.update s.slots c none i = some q → s.slots i = some q := by
    intro c i q hq
    by_cases hi : i = c
    · subst hi
      simp at hq
    · rwa [Function.update_of_ne hi] at hq
  cases M with
  | @claimed k hp hfree =>
      have hact : a = .access a.provider := by
        cases a with
        | registerProvider p =>
            simp [step, Action.provider] at h hp
            simp [hp] at h
        | deregisterProvider p =>
            simp [step, Action.provider] at h hp
            simp [hp] at h
        | access p => rfl
      intro i j p q hij hi hj hname hpassed
      simp only [State.put] at hi hj hpassed
      by_cases hjk : j = k
      · -- the new holder has passed no slot
        subst hjk
        rw [Function.update_self] at hj
        obtain rfl := Option.some.inj hj
        rw [Function.update_self] at hpassed
        unfold recheckFrom at hpassed
        rw [if_pos (by omega)] at hpassed
        exact Nat.not_lt_zero i hpassed
      · rw [Function.update_of_ne hjk] at hj
        have hne : q ≠ a.provider := by
          rintro rfl
          have hholds := I.holds j _ hj
          rw [hp] at hholds
          exact hholds
        rw [Function.update_of_ne hne] at hpassed
        by_cases hik : i = k
        · subst hik
          rw [Function.update_self] at hi
          obtain rfl := Option.some.inj hi
          exact hok _ i hact hp hfree j q hij hj hname.symm hpassed
        · rw [Function.update_of_ne hik] at hi
          exact L i j p q hij hi hj hname hpassed
  | @passed c k hp hnone =>
      apply hmoved (fun _ _ hq => hq)
      intro i j p hij hi hj hname hpassed
      have hjc := I.holds j _ hj
      rw [hp] at hjc ⊢
      obtain rfl : c = j := hjc
      have hik := recheckFrom_passed hpassed hij
      have hne : i ≠ k := by
        rintro rfl
        exact hnone p hi hname
      change i < k
      omega
  | backedOut hp =>
      apply hmoved (hemptied _)
      intro i j p _ _ _ _ hpassed
      cases hpassed
  | left hp _ =>
      apply hmoved (hemptied _)
      intro i j p _ _ _ _ hpassed
      cases hpassed
  | _ =>
      apply hmoved (fun _ _ hq => hq)
      intro i j p _ _ _ _ hpassed
      cases hpassed

theorem run_inv {actions : List Action} (hrun : Machine.run (step name) init actions = some s) :
    Inv s :=
  Machine.run_invariant (fun _ _ _ I h => I.step h) Inv.init hrun

/-- Run lemma. -/
theorem run_lowestWins {actions : List Action}
    (hrun : Machine.run (step name) init actions = some s)
    (hok : ∀ before a after s₁, actions = before ++ a :: after →
      Machine.run (step name) init before = some s₁ → ClaimsInSight name s₁ a) :
    LowestWins name s := by
  have hboth : Inv s ∧ LowestWins name s := by
    refine @Machine.run_invariant_of _ _ (step name) (ClaimsInSight name)
      (fun s => Inv s ∧ LowestWins name s) ?_ init s actions ⟨Inv.init, ?_⟩ hok hrun
    · rintro s₁ a s₂ ⟨I, L⟩ hsight hstep
      exact ⟨I.step hstep, L.step I hsight hstep⟩
    · intro i j p q _ hp
      cases hp
  exact hboth.2

theorem LowestWins.unique (L : LowestWins name s) (I : Inv s)
    (hp : s.phase p = .returned .registered) (hq : s.phase q = .returned .registered)
    (hname : name p = name q) : p = q := by
  have hslot : ∀ {r}, s.phase r = .returned .registered → ∃ i, s.slots i = some r := by
    intro r hr
    obtain ⟨i, hi, -⟩ := I.slot r 0 (by rw [hr]; trivial)
    exact ⟨i, hi⟩
  obtain ⟨i, hi⟩ := hslot hp
  obtain ⟨j, hj⟩ := hslot hq
  rcases Nat.lt_trichotomy i j with hij | rfl | hji
  · exact absurd (by rw [hq]; trivial) (L i j p q hij hi hj hname)
  · exact Option.some.inj (hi.symm.trans hj)
  · exact absurd (by rw [hp]; trivial) (L j i q p hji hj hi hname.symm)

/-! ### Someone gets the name -/

/-- The registration has not tried slot `f` yet. -/
def Pending (f : Nat) : Phase → Prop
  | .unregistered | .scanning _ => True
  | .claiming i => i ≤ f
  | _ => False

/-- The registration failed, or the provider has come and gone. -/
def Gone : Phase → Prop
  | .returned .duplicateName | .returned .capacityExhausted | .deregistered => True
  | _ => False

/-- The registration returned `Registered`. -/
def Won : Phase → Prop
  | .returned .registered | .deregistering _ | .deregistered => True
  | _ => False

/-- The registration has returned. -/
def Over : Phase → Prop
  | .returned _ | .deregistering _ | .deregistered => True
  | _ => False

variable {n : Bytes} {f : Nat} {σ : State}

/-- A registration of the name that has claimed slot `c` and has not lost it. -/
def Live (name : Provider → Bytes) (n : Bytes) (s : State) (p : Provider) (c : Nat) : Prop :=
  name p = n ∧ ∃ k, s.phase p = .rechecking c k

/-- Nobody has won the name since `σ`; whoever has given up, or is about to,
leaves a registration that has not. -/
structure Contested (name : Provider → Bytes) (n : Bytes) (f : Nat) (σ s : State) : Prop where
  settled : ∀ p, name p = n → ¬ Pending f (σ.phase p) → Gone (s.phase p)
  backing : ∀ q z, name q = n → s.phase q = .backingOut z → ∃ p c, c < z ∧ Live name n s p c
  beaten : ∀ q, name q = n → Pending f (σ.phase q) →
    (s.phase q = .returned .duplicateName ∨ s.phase q = .returned .capacityExhausted ∨
      ∃ i, s.phase q = .claiming i ∧ f < i) → ∃ p c, Live name n s p c

/-- A registration since `σ` has won the name. -/
def Decided (name : Provider → Bytes) (n : Bytes) (f : Nat) (σ s : State) : Prop :=
  ∃ p, name p = n ∧ Pending f (σ.phase p) ∧ Won (s.phase p)

/-- Behind a holder of the name stands a winner, or a live registration in no
higher slot. -/
theorem Contested.holder (C : Contested name n f σ s) (I : Inv s) (hq : s.slots i = some q)
    (hname : name q = n) : Decided name n f σ s ∨ ∃ p c, c ≤ i ∧ Live name n s p c := by
  have hholds := I.holds i q hq
  have hpending : ¬ Gone (s.phase q) → Pending f (σ.phase q) := by
    intro hgone
    by_contra hnot
    exact hgone (C.settled q hname hnot)
  cases hphase : s.phase q with
  | rechecking c k =>
      rw [hphase] at hholds
      obtain rfl : c = i := hholds
      exact Or.inr ⟨q, c, Nat.le_refl c, hname, k, hphase⟩
  | backingOut c =>
      rw [hphase] at hholds
      obtain rfl : c = i := hholds
      obtain ⟨p, c', hless, hlive⟩ := C.backing q c hname hphase
      exact Or.inr ⟨p, c', Nat.le_of_lt hless, hlive⟩
  | returned result =>
      rw [hphase] at hholds
      cases result with
      | registered =>
          rw [hphase] at hpending
          exact Or.inl ⟨q, hname, hpending (fun h => h), by rw [hphase]; trivial⟩
      | duplicateName => cases hholds
      | capacityExhausted => cases hholds
  | deregistering k =>
      rw [hphase] at hpending
      exact Or.inl ⟨q, hname, hpending (fun h => h), by rw [hphase]; trivial⟩
  | _ =>
      rw [hphase] at hholds
      cases hholds

theorem Moves.not_gone {slots : Nat → Option Provider} {φ : Phase} (M : Moves name s p slots φ) :
    ¬ Gone (s.phase p) := by
  cases M <;> (rename_i h; simp_all [Gone])

theorem Decided.step (D : Decided name n f σ s) (h : step name s a = some s') :
    Decided name n f σ s' := by
  obtain ⟨p, hname, hpending, hwon⟩ := D
  obtain ⟨slots, φ, rfl, M⟩ := step_spec h
  refine ⟨p, hname, hpending, ?_⟩
  by_cases hself : p = a.provider
  · subst hself
    simp only [State.put, Function.update_self]
    cases M with
    | leaving hp => trivial
    | left hp => trivial
    | searched hp => trivial
    | missed hp => trivial
    | _ => simp_all [Won]
  · simpa [State.put, hself] using hwon

/-- A step of a registration of the name, given what it makes of the live ones. -/
theorem Contested.put (C : Contested name n f σ s) {next : (Nat → Option Provider) × Phase}
    (hpending : Pending f (σ.phase p))
    (hlive : ∀ p' c, Live name n s p' c → ∃ p'' c', c' ≤ c ∧ Live name n (s.put p next) p'' c')
    (hbacking : ∀ z, next.2 = .backingOut z → ∃ p' c, c < z ∧ Live name n (s.put p next) p' c)
    (hbeaten : (next.2 = .returned .duplicateName ∨ next.2 = .returned .capacityExhausted ∨
      ∃ i, next.2 = .claiming i ∧ f < i) → ∃ p' c, Live name n (s.put p next) p' c) :
    Contested name n f σ (s.put p next) where
  settled := by
    intro q hname hnot
    have hne : q ≠ p := by
      rintro rfl
      exact hnot hpending
    simpa [State.put, hne] using C.settled q hname hnot
  backing := by
    intro q z hname hphase
    by_cases hself : q = p
    · subst hself
      exact hbacking z (by simpa [State.put] using hphase)
    · obtain ⟨p', c, hless, hl⟩ := C.backing q z hname (by simpa [State.put, hself] using hphase)
      obtain ⟨p'', c', hle, hl'⟩ := hlive p' c hl
      exact ⟨p'', c', Nat.lt_of_le_of_lt hle hless, hl'⟩
  beaten := by
    intro q hname hq hphase
    by_cases hself : q = p
    · subst hself
      exact hbeaten (by simpa [State.put] using hphase)
    · obtain ⟨p', c, hl⟩ := C.beaten q hname hq (by simpa [State.put, hself] using hphase)
      obtain ⟨p'', c', -, hl'⟩ := hlive p' c hl
      exact ⟨p'', c', hl'⟩

theorem Live.put_other {next : (Nat → Option Provider) × Phase} (hl : Live name n s q c)
    (hne : q ≠ p) : Live name n (s.put p next) q c := by
  obtain ⟨hname, k, hphase⟩ := hl
  exact ⟨hname, k, by simpa [State.put, hne] using hphase⟩

/-- Step lemma: while slot `f` holds nobody of another name, the name stays
contested until it is won. -/
theorem Contested.step (C : Contested name n f σ s) (I : Inv s) (hf : f < maxProfiles)
    (hslot : ∀ q, s.slots f = some q → name q = n) (h : step name s a = some s') :
    Decided name n f σ s' ∨ Contested name n f σ s' := by
  have hdecided : Decided name n f σ s → Decided name n f σ s' := fun D => D.step h
  obtain ⟨slots, φ, hs', M⟩ := step_spec h
  subst hs'
  by_cases hname : name a.provider = n
  · have hpending : Pending f (σ.phase a.provider) := by
      by_contra hnot
      exact M.not_gone (C.settled a.provider hname hnot)
    have hwon : Won φ → Decided name n f σ (s.put a.provider (slots, φ)) := by
      intro hφ
      exact ⟨a.provider, hname, hpending, by simpa [State.put] using hφ⟩
    -- a provider that is not rechecking is none of the live ones
    have hothers : (∀ c k, s.phase a.provider ≠ .rechecking c k) → ∀ p' c, Live name n s p' c →
        ∃ p'' c', c' ≤ c ∧ Live name n (s.put a.provider (slots, φ)) p'' c' := by
      intro hidle p' c hl
      have hne : p' ≠ a.provider := by
        rintro rfl
        obtain ⟨-, k, hk⟩ := hl
        exact hidle c k hk
      exact ⟨p', c, Nat.le_refl c, hl.put_other hne⟩
    have hbehind : (∀ c k, s.phase a.provider ≠ .rechecking c k) → ∀ {j q}, s.slots j = some q →
        name q = n → Decided name n f σ (s.put a.provider (slots, φ)) ∨
          ∃ p' c, Live name n (s.put a.provider (slots, φ)) p' c := by
      intro hidle j q hq hn
      rcases C.holder I hq hn with D | ⟨p', c, -, hl⟩
      · exact Or.inl (hdecided D)
      · obtain ⟨p'', c', -, hl'⟩ := hothers hidle p' c hl
        exact Or.inr ⟨p'', c', hl'⟩
    cases M with
    | begun hp => exact Or.inr (C.put hpending (hothers (by simp [hp])) (by simp) (by simp))
    | refused hp hq hsame =>
        rcases hbehind (by simp [hp]) hq (hsame.trans hname) with D | hl
        · exact Or.inl D
        · exact Or.inr (C.put hpending (hothers (by simp [hp])) (by simp) (fun _ => hl))
    | scanned hp => exact Or.inr (C.put hpending (hothers (by simp [hp])) (by simp) (by simp))
    | clear hp => exact Or.inr (C.put hpending (hothers (by simp [hp])) (by simp) (by simp))
    | @claimed k hp hfree =>
        by_cases hk : 0 < k
        · have hphase : recheckFrom k 0 = .rechecking k 0 := if_pos hk
          rw [hphase] at hothers ⊢
          exact Or.inr (C.put hpending (hothers (by simp [hp])) (by simp) (by simp))
        · apply Or.inl
          apply hwon
          unfold recheckFrom
          rw [if_neg hk]
          trivial
    | @occupied k q hp hq hmore =>
        have hl : f < k + 1 → Decided name n f σ (s.put a.provider (s.slots, .claiming (k + 1))) ∨
            ∃ p' c, Live name n (s.put a.provider (s.slots, .claiming (k + 1))) p' c := by
          intro hless
          by_cases hk : k = f
          · subst hk
            exact hbehind (by simp [hp]) hq (hslot q hq)
          · obtain ⟨p', c, hl⟩ := C.beaten a.provider hname hpending
              (Or.inr (Or.inr ⟨k, hp, by omega⟩))
            obtain ⟨p'', c', -, hl'⟩ := hothers (by simp [hp]) p' c hl
            exact Or.inr ⟨p'', c', hl'⟩
        by_cases hless : f < k + 1
        · rcases hl hless with D | hl
          · exact Or.inl D
          · exact Or.inr (C.put hpending (hothers (by simp [hp])) (by simp) (fun _ => hl))
        · apply Or.inr
          apply C.put hpending (hothers (by simp [hp])) (by simp)
          intro hbeaten
          simp at hbeaten
          omega
    | @exhausted k q hp hq hlast =>
        have hk := I.claiming _ _ hp
        by_cases hkf : k = f
        · subst hkf
          rcases hbehind (by simp [hp]) hq (hslot q hq) with D | hl
          · exact Or.inl D
          · exact Or.inr (C.put hpending (hothers (by simp [hp])) (by simp) (fun _ => hl))
        · obtain ⟨p', c, hl⟩ := C.beaten a.provider hname hpending
            (Or.inr (Or.inr ⟨k, hp, by omega⟩))
          obtain ⟨p'', c', -, hl'⟩ := hothers (by simp [hp]) p' c hl
          exact Or.inr (C.put hpending (hothers (by simp [hp])) (by simp) (fun _ => ⟨p'', c', hl'⟩))
    | @lost c k q hp hq hsame =>
        have hkc := I.rechecking _ _ _ hp
        rcases C.holder I hq (hsame.trans hname) with D | ⟨p', c', hle, hl⟩
        · exact Or.inl (hdecided D)
        · have hne : p' ≠ a.provider := by
            rintro rfl
            obtain ⟨-, k', hk'⟩ := hl
            rw [hp] at hk'
            cases hk'
            omega
          have hl' : Live name n (s.put a.provider (s.slots, .backingOut c)) p' c' :=
            hl.put_other hne
          apply Or.inr
          apply C.put hpending
          · intro p'' c'' hl''
            by_cases hself : p'' = a.provider
            · subst hself
              obtain ⟨-, k', hk'⟩ := hl''
              rw [hp] at hk'
              cases hk'
              exact ⟨p', c', by omega, hl'⟩
            · exact ⟨p'', c'', Nat.le_refl _, hl''.put_other hself⟩
          · rintro z ⟨⟩
            exact ⟨p', c', by omega, hl'⟩
          · simp
    | @passed c k hp hnone =>
        by_cases hk : k + 1 < c
        · have hphase : recheckFrom c (k + 1) = .rechecking c (k + 1) := if_pos hk
          rw [hphase]
          apply Or.inr
          apply C.put hpending
          · intro p' c' hl
            by_cases hself : p' = a.provider
            · subst hself
              obtain ⟨-, k', hk'⟩ := hl
              rw [hp] at hk'
              cases hk'
              exact ⟨a.provider, c, Nat.le_refl _, hname, k + 1, by simp [State.put]⟩
            · exact ⟨p', c', Nat.le_refl _, hl.put_other hself⟩
          · simp
          · simp
        · apply Or.inl
          apply hwon
          unfold recheckFrom
          rw [if_neg hk]
          trivial
    | @backedOut c hp =>
        obtain ⟨p', c', -, hl⟩ := C.backing a.provider c hname hp
        obtain ⟨p'', c'', -, hl'⟩ := hothers (by simp [hp]) p' c' hl
        exact Or.inr (C.put hpending (hothers (by simp [hp])) (by simp) (fun _ => ⟨p'', c'', hl'⟩))
    | leaving hp => exact Or.inl (hwon trivial)
    | left hp => exact Or.inl (hwon trivial)
    | searched hp => exact Or.inl (hwon trivial)
    | missed hp => exact Or.inl (hwon trivial)
  · -- a step of a provider of another name
    apply Or.inr
    have hsame : ∀ q, name q = n → (s.put a.provider (slots, φ)).phase q = s.phase q := by
      intro q hq
      have hne : q ≠ a.provider := by
        rintro rfl
        exact hname hq
      simp [State.put, hne]
    have hlive : ∀ p' c, Live name n s p' c → Live name n (s.put a.provider (slots, φ)) p' c := by
      rintro p' c ⟨hn, k, hk⟩
      exact ⟨hn, k, by rw [hsame p' hn]; exact hk⟩
    refine ⟨?_, ?_, ?_⟩
    · intro q hq hnot
      rw [hsame q hq]
      exact C.settled q hq hnot
    · intro q z hq hphase
      rw [hsame q hq] at hphase
      obtain ⟨p', c, hless, hl⟩ := C.backing q z hq hphase
      exact ⟨p', c, hless, hlive p' c hl⟩
    · intro q hq hpend hphase
      rw [hsame q hq] at hphase
      obtain ⟨p', c, hl⟩ := C.beaten q hq hpend hphase
      exact ⟨p', c, hlive p' c hl⟩

theorem Contested.start
    (hquiet : ∀ p, name p = n → Pending f (σ.phase p) ∨ Gone (σ.phase p)) :
    Contested name n f σ σ where
  settled := by
    intro p hname hnot
    exact (hquiet p hname).resolve_left hnot
  backing := by
    intro q z hname hphase
    rcases hquiet q hname with hpending | hgone
    · rw [hphase] at hpending
      cases hpending
    · rw [hphase] at hgone
      cases hgone
  beaten := by
    rintro q hname hpending (hphase | hphase | ⟨i, hphase, hless⟩)
    · rw [hphase] at hpending
      cases hpending
    · rw [hphase] at hpending
      cases hpending
    · rw [hphase] at hpending
      exact absurd hpending (Nat.not_le.mpr hless)

/-- Run lemma: of the registrations of a name that run while nobody else holds
it and slot `f` is free of other names, one returns `Registered`. -/
theorem window_won {window : List Action} (I : Inv σ) (hf : f < maxProfiles)
    (hquiet : ∀ p, name p = n → Pending f (σ.phase p) ∨ Gone (σ.phase p))
    (hslot : ∀ before after s₁, window = before ++ after →
      Machine.run (step name) σ before = some s₁ → ∀ q, s₁.slots f = some q → name q = n)
    (hrun : Machine.run (step name) σ window = some s)
    (hover : ∀ p, name p = n → Pending f (σ.phase p) → s.phase p ≠ .unregistered → Over (s.phase p))
    (hsome : ∃ p, name p = n ∧ Pending f (σ.phase p) ∧ s.phase p ≠ .unregistered) :
    Decided name n f σ s := by
  have hfacts : Inv s ∧ (Decided name n f σ s ∨ Contested name n f σ s) := by
    refine @Machine.run_history _ _ (step name) (fun _ s₁ _ => ∀ q, s₁.slots f = some q →
      name q = n)
      (fun _ s₁ => Inv s₁ ∧ (Decided name n f σ s₁ ∨ Contested name n f σ s₁)) σ s window
      ⟨I, Or.inr (Contested.start hquiet)⟩ ?_ ?_ hrun
    · rintro before a s₁ s₂ - ⟨I₁, D | C⟩ hfree hstep
      · exact ⟨I₁.step hstep, Or.inl (D.step hstep)⟩
      · exact ⟨I₁.step hstep, C.step I₁ hf hfree hstep⟩
    · intro before a after s₁ hsplit hbefore
      exact hslot before (a :: after) s₁ hsplit hbefore
  rcases hfacts.2 with D | C
  · exact D
  · -- nobody is live any more, so nobody can have been beaten
    have hnone : ¬ ∃ p c, Live name n s p c := by
      rintro ⟨p, c, hname, k, hphase⟩
      by_cases hpending : Pending f (σ.phase p)
      · have hdone := hover p hname hpending (by rw [hphase]; simp)
        rw [hphase] at hdone
        cases hdone
      · have hgone := C.settled p hname hpending
        rw [hphase] at hgone
        cases hgone
    obtain ⟨p, hname, hpending, hbegun⟩ := hsome
    have hdone := hover p hname hpending hbegun
    have hbeaten := C.beaten p hname hpending
    cases hphase : s.phase p with
    | returned result =>
        rw [hphase] at hbeaten
        cases result with
        | registered => exact ⟨p, hname, hpending, by rw [hphase]; trivial⟩
        | duplicateName => exact absurd (hbeaten (Or.inl rfl)) hnone
        | capacityExhausted => exact absurd (hbeaten (Or.inr (Or.inl rfl))) hnone
    | deregistering k => exact ⟨p, hname, hpending, by rw [hphase]; trivial⟩
    | deregistered => exact ⟨p, hname, hpending, by rw [hphase]; trivial⟩
    | _ =>
        rw [hphase] at hdone
        cases hdone

/-- The registry over every run: unique names if no registration claims a slot
that a same-named holder of a higher one has passed; what a failed registration
leaves behind; and that a name is not lost to everybody. -/
theorem registry_names (name : Provider → Bytes) (actions : List Action) (s : State)
    (hrun : Machine.run (step name) init actions = some s) :
    ((∀ before a after s₁, actions = before ++ a :: after →
        Machine.run (step name) init before = some s₁ → ClaimsInSight name s₁ a) →
      ∀ p q, s.phase p = .returned .registered → s.phase q = .returned .registered →
        name p = name q → p = q) ∧
    (∀ p, s.phase p = .returned .duplicateName ∨ s.phase p = .returned .capacityExhausted →
      ∀ i, s.slots i ≠ some p) ∧
    (∀ a s' i q, step name s a = some s' → s.slots i = some q → s'.slots i ≠ some q →
      a.provider = q) ∧
    ∀ (n : Bytes) (f : Nat) (window : List Action) (s' : State), f < maxProfiles →
      (∀ p, name p = n → Pending f (s.phase p) ∨ Gone (s.phase p)) →
      (∀ before after s₁, window = before ++ after →
        Machine.run (step name) s before = some s₁ → ∀ q, s₁.slots f = some q → name q = n) →
      Machine.run (step name) s window = some s' →
      (∀ p, name p = n → Pending f (s.phase p) → s'.phase p ≠ .unregistered → Over (s'.phase p)) →
      (∃ p, name p = n ∧ Pending f (s.phase p) ∧ s'.phase p ≠ .unregistered) →
      ∃ p, name p = n ∧ Pending f (s.phase p) ∧ Won (s'.phase p) := by
  have I := run_inv hrun
  refine ⟨?_, ?_, ?_, ?_⟩
  · intro hok p q hp hq hname
    exact (run_lowestWins hrun hok).unique I hp hq hname
  · rintro p (hp | hp) i
    · exact I.absent (by simp [hp, Holds]) i
    · exact I.absent (by simp [hp, Holds]) i
  · intro a s' i q hstep hq hgone
    exact step_clears I hstep hq hgone
  · intro n f window s' hf hquiet hslot hwindow hover hsome
    exact window_won I hf hquiet hslot hwindow hover hsome

/-! ### Two registrations of one name -/

/-- A call that runs alone from its start. -/
def alone (p : Provider) (accesses : Nat) : List Action :=
  .registerProvider p :: List.replicate accesses (.access p)

/-- Providers 1 and 2 share a name. -/
def sharedName (p : Provider) : Bytes := if p = 0 then [0] else [1]

/-- Provider 0 holds slot 0. Provider 2 finds the name free; provider 1
registers in slot 1; provider 0 leaves; provider 2 claims slot 0. -/
def freedBelow : List Action :=
  alone 0 9 ++ alone 2 8 ++ alone 1 11 ++ [.deregisterProvider 0, .access 0] ++ [.access 2]

theorem both_registered : ¬ ∀ (name : Provider → Bytes) (actions : List Action) (s : State),
    Machine.run (step name) init actions = some s →
    ∀ p q, s.phase p = .returned .registered → s.phase q = .returned .registered →
      name p = name q → p = q := by
  intro hclaim
  obtain ⟨s, hrun, hone, htwo⟩ : ∃ s, Machine.run (step sharedName) init freedBelow = some s ∧
      s.phase 1 = .returned .registered ∧ s.phase 2 = .returned .registered := ⟨_, rfl, rfl, rfl⟩
  have hsame := hclaim sharedName freedBelow s hrun 1 2 hone htwo rfl
  cases hsame

/-- Provider 1 registers, and provider 2 finds its name taken. -/
def secondRefused : List Action := alone 1 9 ++ alone 2 1

theorem registry_names_secondRefused :
    ∃ s, Machine.run (step sharedName) init secondRefused = some s ∧
      s.phase 1 = .returned .registered ∧ s.phase 2 = .returned .duplicateName ∧
      (∀ p, s.phase p = .returned .registered → sharedName p = sharedName 1 → p = 1) ∧
      ∀ i, s.slots i ≠ some 2 := by
  obtain ⟨s, hrun, hone, htwo⟩ : ∃ s, Machine.run (step sharedName) init secondRefused = some s ∧
      s.phase 1 = .returned .registered ∧ s.phase 2 = .returned .duplicateName := ⟨_, rfl, rfl, rfl⟩
  obtain ⟨hunique, hfailed, -, -⟩ := registry_names sharedName secondRefused s hrun
  have hok : ∀ before a after s₁, secondRefused = before ++ a :: after →
      Machine.run (step sharedName) init before = some s₁ → ClaimsInSight sharedName s₁ a := by
    intro before a after s₁ hsplit hbefore p i ha hphase _ j q _ hq
    have htake : before = secondRefused.take before.length := by rw [hsplit, List.take_left]
    have hget : secondRefused[before.length]? = some a := by rw [hsplit]; simp
    have hlength : before.length < 12 := by
      have hall : secondRefused.length = 12 := rfl
      rw [← hall, hsplit]
      simp
    rw [htake] at hbefore
    generalize before.length = k at hbefore hget hlength
    -- up to the one claim, at the tenth access, every slot is empty
    interval_cases k <;> cases hbefore <;> cases hget <;> cases ha <;> first
      | (cases hphase; done)
      | cases hq
  refine ⟨s, hrun, hone, htwo, ?_, hfailed 2 (Or.inl htwo)⟩
  intro p hp hname
  exact hunique hok p 1 hp hone hname

end Microtel.Sdk.ProviderRegistry
