import Microtel.Wire.ExportTransportChannel

/-!
The shutdown protocol of the channel over every interleaving: the in-flight
count, the one `Cancel`, the deadlines requests are handed, and the moves of
the connection state.
-/

namespace Microtel.Wire.ExportTransportChannel

variable {s s' : State} {a : Action} {φ ψ : SendPhase}

/-! ### Steps -/

/-- What a step does, by the kind of call that takes it. -/
inductive Stepped (s : State) : State → Prop
  | ticked {t} (h : s.clock ≤ t) : Stepped s { s with clock := t }
  | begun (perExport) : Stepped s { s with sends := s.sends ++ [.starting perExport] }
  | sent {k φ t ψ} (hk : s.sends[k]? = some φ) (M : SendMoves s φ t ψ) :
      Stepped s { t with sends := s.sends.set k ψ }
  | shutting (timeout) : Stepped s { s with shutdowns := s.shutdowns ++ [.starting timeout] }
  | timed {k timeout} (hk : s.shutdowns[k]? = some (.starting timeout)) :
      Stepped s { s with shutdowns := s.shutdowns.set k (.setting (s.clock + timeout)) }
  | set {k deadline} (hk : s.shutdowns[k]? = some (.setting deadline)) :
      Stepped s { s with
        shutdownDeadline := some (s.shutdownDeadline.getD deadline)
        shutdowns := s.shutdowns.set k .returned }
  | cancelling : Stepped s { s with cancels := s.cancels ++ [.starting] }
  | again {k} (hk : s.cancels[k]? = some .starting) (h : s.cancelled = true) :
      Stepped s { s with cancels := s.cancels.set k .returned }
  | cancelled {k} (hk : s.cancels[k]? = some .starting) (h : s.cancelled = false) :
      Stepped s { s with
        cancelled := true
        atCancel := some s.sends
        cancels := s.cancels.set k (if 0 < s.inFlight then .calling else .returned) }
  | called {k} (hk : s.cancels[k]? = some .calling) :
      Stepped s { s with
        cancelCalls := s.cancelCalls + 1
        cancels := s.cancels.set k .returned }
  | closed : Stepped s { s with connection := .closed }

theorem step_spec (hexchanges : ∀ (k : Nat) (φ : SendPhase), s.sends[k]? = some φ → Exchanges φ)
    (h : step s a = some s') : Stepped s s' := by
  cases a with
  | tick t =>
      simp only [step] at h
      split at h
      · next hle =>
        cases h
        exact .ticked hle
      · cases h
  | send perExport =>
      cases h
      exact .begun perExport
  | advance k spurious =>
      simp only [step, Option.bind_eq_bind, Option.bind_eq_some_iff] at h
      obtain ⟨⟨t, ψ⟩, ⟨φ, hk, hadvance⟩, hs'⟩ := h
      cases hs'
      exact .sent hk (advance_spec (hexchanges k φ hk) hadvance)
  | answer k answer =>
      simp only [step] at h
      split at h
      · next e deadline hk =>
        cases h
        exact .sent hk (.answered answer)
      · cases h
  | beginShutdown timeout =>
      cases h
      exact .shutting timeout
  | setDeadline k =>
      simp only [step, Option.bind_eq_bind, Option.bind_eq_some_iff] at h
      obtain ⟨⟨t, ψ⟩, ⟨φ, hk, hset⟩, hs'⟩ := h
      cases φ with
      | starting timeout =>
          cases hset
          cases hs'
          exact .timed hk
      | setting deadline =>
          cases hset
          cases hs'
          exact .set hk
      | returned => cases hset
  | cancelInFlight =>
      cases h
      exact .cancelling
  | cancel k =>
      simp only [step, Option.bind_eq_bind, Option.bind_eq_some_iff] at h
      obtain ⟨⟨t, ψ⟩, ⟨φ, hk, hcancel⟩, hs'⟩ := h
      cases φ with
      | starting =>
          simp only [cancelStep] at hcancel
          split at hcancel
          · next hcancelled =>
            cases hcancel
            cases hs'
            exact .again hk hcancelled
          · next hcancelled =>
            cases hcancel
            cases hs'
            exact .cancelled hk (by simpa using hcancelled)
      | calling =>
          cases hcancel
          cases hs'
          exact .called hk
      | returned => cases hcancel
  | markClosed =>
      cases h
      exact .closed

/-! ### The invariant -/

/-- What is known of the entry a send goes on with, under the shutdown deadline
`shutdown`. -/
def EntryOk (shutdown : Option Int) : SendPhase → Prop
  | .clamping _ e => ∀ d, e.shutdown = some d → shutdown = some d ∧ e.now < d
  | .invoking e deadline | .inTransport e deadline =>
      ∀ d, e.shutdown = some d → shutdown = some d ∧ e.now < d ∧ deadline ≤ d
  | _ => True

/-- How many calls of `Cancel` the flag has led to, made or about to be made. -/
def owedCalls : Option (List SendPhase) → Nat
  | some sends => if 0 < sends.countP SendPhase.inside then 1 else 0
  | none => 0

structure Inv (s : State) : Prop where
  count : s.inFlight = s.sends.countP SendPhase.inside
  exchanges : ∀ (k : Nat) (φ : SendPhase), s.sends[k]? = some φ → Exchanges φ
  entries : ∀ (k : Nat) (φ : SendPhase), s.sends[k]? = some φ → EntryOk s.shutdownDeadline φ
  flag : s.cancelled = s.atCancel.isSome
  before : ∀ sends, s.atCancel = some sends → ∀ (k : Nat) (φ : SendPhase), s.sends[k]? = some φ →
    φ.inside = true → ∃ ψ, sends[k]? = some ψ ∧ ψ.inside = true
  calls : s.cancelCalls + s.cancels.countP CancelPhase.isCalling = owedCalls s.atCancel

theorem Inv.init : Inv init where
  count := rfl
  exchanges := by simp [ExportTransportChannel.init]
  entries := by simp [ExportTransportChannel.init]
  flag := rfl
  before := by simp [ExportTransportChannel.init]
  calls := rfl

theorem SendMoves.frame {t : State} (M : SendMoves s φ t ψ) :
    t.cancelled = s.cancelled ∧ t.shutdownDeadline = s.shutdownDeadline ∧ t.cancels = s.cancels ∧
      t.cancelCalls = s.cancelCalls ∧ t.atCancel = s.atCancel ∧ t.clock = s.clock := by
  cases M <;> exact ⟨rfl, rfl, rfl, rfl, rfl, rfl⟩

theorem SendMoves.exchanges {t : State} (M : SendMoves s φ t ψ) : Exchanges ψ := by
  cases M with
  | looked => exact noteLoop_exchanges _ _
  | overtaken => exact noteLoop_exchanges _ _
  | answered a => cases a <;> trivial
  | _ => trivial

theorem noteLoop_inside (success : Bool) (current : ConnectionState) :
    (noteLoop success current).inside = true := by
  unfold noteLoop
  split <;> rfl

/-- The count moves with the phase. -/
theorem SendMoves.count {t : State} (M : SendMoves s φ t ψ)
    (hpos : φ.inside = true → 0 < s.inFlight) :
    t.inFlight + (if φ.inside then 1 else 0) = s.inFlight + (if ψ.inside then 1 else 0) := by
  cases M with
  | looked =>
      rw [noteLoop_inside]
      rfl
  | overtaken =>
      rw [noteLoop_inside]
      rfl
  | answered a => cases a <;> rfl
  | left =>
      have := hpos rfl
      simp [SendPhase.inside]
      omega
  | _ => simp [SendPhase.inside]

/-- A send that is inside was inside before the step, or entered in it. -/
theorem SendMoves.inside {t : State} (M : SendMoves s φ t ψ) (h : ψ.inside = true) :
    φ.inside = true ∨ s.cancelled = false := by
  cases M with
  | entered hcancelled => exact Or.inr hcancelled
  | read => cases h
  | refused => cases h
  | left => cases h
  | _ => exact Or.inl rfl

theorem noteLoop_entry (shutdown : Option Int) (success : Bool) (current : ConnectionState) :
    EntryOk shutdown (noteLoop success current) := by
  unfold noteLoop
  split <;> trivial

theorem SendMoves.entry {t : State} (M : SendMoves s φ t ψ) (h : EntryOk s.shutdownDeadline φ) :
    EntryOk s.shutdownDeadline ψ := by
  cases M with
  | entered hcancelled htime =>
      intro d hd
      exact ⟨hd, htime d hd⟩
  | @clamped perExport e =>
      intro d hd
      obtain ⟨hshutdown, htime⟩ := h d hd
      refine ⟨hshutdown, htime, ?_⟩
      unfold ExportTransportChannel.clamped
      rw [hshutdown]
      exact min_le_right _ _
  | invoked => exact h
  | looked => exact noteLoop_entry _ _ _
  | overtaken => exact noteLoop_entry _ _ _
  | answered a => cases a <;> trivial
  | _ => trivial

theorem Inv.sent (I : Inv s) {k : Nat} {t : State} (hk : s.sends[k]? = some φ)
    (M : SendMoves s φ t ψ) : Inv { t with sends := s.sends.set k ψ } := by
  obtain ⟨hcancelled, hshutdown, hcancels, hcalls, hat, -⟩ := M.frame
  constructor
  · have hcount := Threads.countP_set SendPhase.inside ψ hk
    have hpos : φ.inside = true → 0 < s.inFlight := by
      intro hinside
      rw [I.count, List.countP_pos_iff]
      exact ⟨φ, List.mem_of_getElem? hk, hinside⟩
    have hmoved := M.count hpos
    have hold := I.count
    change t.inFlight = (s.sends.set k ψ).countP SendPhase.inside
    omega
  · exact Threads.forall_set M.exchanges fun j χ _ hj => I.exchanges j χ hj
  · change ∀ j χ, (s.sends.set k ψ)[j]? = some χ → EntryOk t.shutdownDeadline χ
    rw [hshutdown]
    exact Threads.forall_set (P := fun _ χ => EntryOk s.shutdownDeadline χ)
      (M.entry (I.entries k φ hk)) fun j χ _ hj => I.entries j χ hj
  · exact hcancelled.trans (I.flag.trans (by rw [hat]))
  · intro sends hsends
    have hsends : s.atCancel = some sends := hat.symm.trans hsends
    have hold := I.before sends hsends
    have hself : ψ.inside = true → ∃ χ, sends[k]? = some χ ∧ χ.inside = true := by
      intro hinside
      rcases M.inside hinside with hφ | hopen
      · exact hold k φ hk hφ
      · rw [I.flag, hsends] at hopen
        cases hopen
    exact Threads.forall_set
      (P := fun j (χ : SendPhase) => χ.inside = true → ∃ ψ, sends[j]? = some ψ ∧ ψ.inside = true)
      hself fun j χ _ hj => hold j χ hj
  · change t.cancelCalls + t.cancels.countP CancelPhase.isCalling = owedCalls t.atCancel
    rw [hcalls, hcancels, hat]
    exact I.calls

theorem Inv.step (I : Inv s) (h : step s a = some s') : Inv s' := by
  cases step_spec I.exchanges h with
  | ticked hle => exact ⟨I.count, I.exchanges, I.entries, I.flag, I.before, I.calls⟩
  | begun perExport =>
      refine ⟨?_, ?_, ?_, I.flag, ?_, I.calls⟩
      · change s.inFlight = (s.sends ++ [SendPhase.starting perExport]).countP SendPhase.inside
        rw [Threads.countP_push]
        exact I.count
      · exact Threads.forall_push trivial I.exchanges
      · exact Threads.forall_push (P := fun _ φ => EntryOk s.shutdownDeadline φ) trivial I.entries
      · intro sends hsends
        exact Threads.forall_push
          (P := fun j (χ : SendPhase) => χ.inside = true → ∃ ψ, sends[j]? = some ψ ∧
            ψ.inside = true)
          (fun hinside => by cases hinside) (I.before sends hsends)
  | sent hk M => exact I.sent hk M
  | shutting timeout => exact ⟨I.count, I.exchanges, I.entries, I.flag, I.before, I.calls⟩
  | timed hk => exact ⟨I.count, I.exchanges, I.entries, I.flag, I.before, I.calls⟩
  | @set k deadline hk =>
      refine ⟨I.count, I.exchanges, ?_, I.flag, I.before, I.calls⟩
      -- a deadline that is set is not set again
      have hkept : ∀ d, s.shutdownDeadline = some d →
          some (s.shutdownDeadline.getD deadline) = some d := by
        intro d hd
        rw [hd]
        rfl
      intro j φ hj
      have hold := I.entries j φ hj
      cases φ with
      | clamping perExport e =>
          intro d hd
          exact ⟨hkept d (hold d hd).1, (hold d hd).2⟩
      | invoking e dl =>
          intro d hd
          exact ⟨hkept d (hold d hd).1, (hold d hd).2⟩
      | inTransport e dl =>
          intro d hd
          exact ⟨hkept d (hold d hd).1, (hold d hd).2⟩
      | _ => trivial
  | cancelling =>
      refine ⟨I.count, I.exchanges, I.entries, I.flag, I.before, ?_⟩
      change s.cancelCalls + (s.cancels ++ [CancelPhase.starting]).countP CancelPhase.isCalling = _
      rw [Threads.countP_push]
      exact I.calls
  | @again k hk hcancelled =>
      refine ⟨I.count, I.exchanges, I.entries, I.flag, I.before, ?_⟩
      have hset := Threads.countP_set CancelPhase.isCalling .returned hk
      have hcalls := I.calls
      simp only [CancelPhase.isCalling, Bool.false_eq_true, if_false, Nat.add_zero] at hset
      change s.cancelCalls + (s.cancels.set k .returned).countP CancelPhase.isCalling = _
      rw [hset]
      exact hcalls
  | @cancelled k hk hopen =>
      have hnone : s.atCancel = none := by
        have hflag := I.flag
        rw [hopen] at hflag
        cases hat : s.atCancel with
        | none => rfl
        | some sends =>
            rw [hat] at hflag
            cases hflag
      have hcalls := I.calls
      rw [hnone] at hcalls
      refine ⟨I.count, I.exchanges, I.entries, rfl, ?_, ?_⟩
      · intro sends hsends j φ hj hinside
        obtain rfl : s.sends = sends := Option.some.inj hsends
        exact ⟨φ, hj, hinside⟩
      · have hset := Threads.countP_set CancelPhase.isCalling
          (if 0 < s.inFlight then .calling else .returned) hk
        change s.cancelCalls + (s.cancels.set k _).countP CancelPhase.isCalling =
          owedCalls (some s.sends)
        simp only [owedCalls] at hcalls ⊢
        rw [← I.count]
        by_cases hpos : 0 < s.inFlight
        · simp only [hpos, if_true, CancelPhase.isCalling, Bool.false_eq_true, if_false] at hset ⊢
          omega
        · simp only [hpos, if_false, CancelPhase.isCalling, Bool.false_eq_true] at hset ⊢
          omega
  | @called k hk =>
      refine ⟨I.count, I.exchanges, I.entries, I.flag, I.before, ?_⟩
      have hset := Threads.countP_set CancelPhase.isCalling .returned hk
      have hcalls := I.calls
      simp only [CancelPhase.isCalling, Bool.false_eq_true, if_true, if_false] at hset
      change s.cancelCalls + 1 + (s.cancels.set k .returned).countP CancelPhase.isCalling =
        owedCalls s.atCancel
      omega
  | closed => exact ⟨I.count, I.exchanges, I.entries, I.flag, I.before, I.calls⟩

theorem run_inv {actions : List Action} (hrun : Machine.run step init actions = some s) : Inv s :=
  Machine.run_invariant (fun _ _ _ I h => I.step h) Inv.init hrun

/-! ### The connection state -/

/-- The moves of the connection state. -/
inductive Allowed : ConnectionState → ConnectionState → Prop
  | stay (c) : Allowed c c
  | connect : Allowed .disconnected .connected
  | lose : Allowed .connected .reconnecting
  | recover : Allowed .reconnecting .connected
  | close (c) : Allowed c .closed

theorem nextConnection_allowed {success : Bool} {current next : ConnectionState}
    (h : nextConnection success current = some next) : Allowed current next := by
  cases current <;> cases success <;> cases h
  · exact .connect
  · exact .lose
  · exact .stay _
  · exact .recover

theorem step_connection (I : Inv s) (h : step s a = some s') :
    Allowed s.connection s'.connection := by
  cases step_spec I.exchanges h with
  | sent hk M =>
      cases M with
      | exchanged hcurrent hnext =>
          rw [hcurrent]
          exact nextConnection_allowed hnext
      | _ => exact .stay _
  | closed => exact .close _
  | _ => exact .stay _

/-! ### Sends after the deadline -/

/-- The deadline is set and reached, and the send has not entered. -/
def TooLate (d : Int) (k : Nat) (s : State) : Prop :=
  s.shutdownDeadline = some d ∧ d ≤ s.clock ∧ ∀ φ, s.sends[k]? = some φ →
    (∃ perExport, φ = .starting perExport) ∨
      (∃ perExport now, φ = .entering perExport now ∧ d ≤ now) ∨
      φ = .returned

theorem TooLate.step {d : Int} {k : Nat} (T : TooLate d k s) (I : Inv s) (h : step s a = some s') :
    TooLate d k s' := by
  obtain ⟨hdeadline, hclock, hlate⟩ := T
  cases step_spec I.exchanges h with
  | ticked hle => exact ⟨hdeadline, hclock.trans hle, hlate⟩
  | begun perExport =>
      refine ⟨hdeadline, hclock, ?_⟩
      have hall := Threads.forall_push
        (P := fun j (φ : SendPhase) => j = k → (∃ perExport, φ = .starting perExport) ∨
          (∃ perExport now, φ = .entering perExport now ∧ d ≤ now) ∨ φ = .returned)
        (fun _ => Or.inl ⟨perExport, rfl⟩) (l := s.sends) (fun j φ hj hjk => hlate φ (hjk ▸ hj))
      exact fun φ hφ => hall k φ hφ rfl
  | @sent j φ t ψ hj M =>
      obtain ⟨-, hshutdown, -, -, -, htime⟩ := M.frame
      refine ⟨hshutdown.trans hdeadline, htime.symm ▸ hclock, ?_⟩
      by_cases hjk : k = j
      · subst hjk
        intro χ hχ
        have hχ : (s.sends.set k ψ)[k]? = some χ := hχ
        rw [Threads.set_self hj] at hχ
        cases hχ
        rcases hlate φ hj with ⟨perExport, rfl⟩ | ⟨perExport, now, rfl, hnow⟩ | rfl
        · cases M
          exact Or.inr (Or.inl ⟨perExport, s.clock, rfl, hclock⟩)
        · cases M with
          | refused => exact Or.inr (Or.inr rfl)
          | entered hcancelled hearly => exact absurd (hearly d hdeadline) (not_lt.mpr hnow)
        · cases M
      · intro χ hχ
        have hχ : (s.sends.set j ψ)[k]? = some χ := hχ
        rw [Threads.set_other hjk] at hχ
        exact hlate χ hχ
  | @set j deadline hj =>
      refine ⟨?_, hclock, hlate⟩
      change some (s.shutdownDeadline.getD deadline) = some d
      rw [hdeadline]
      rfl
  | _ => exact ⟨hdeadline, hclock, hlate⟩

/-- Run lemma: once the clock has reached the deadline, a send that has not
read it yet never enters. -/
theorem run_tooLate {d : Int} {k : Nat} {later : List Action} (T : TooLate d k s) (I : Inv s)
    (hrun : Machine.run step s later = some s') : TooLate d k s' := by
  have hboth : Inv s' ∧ TooLate d k s' := by
    refine @Machine.run_invariant _ _ step (fun s => Inv s ∧ TooLate d k s) ?_
      s s' later ⟨I, T⟩ hrun
    rintro s₁ a s₂ ⟨I₁, T₁⟩ hstep
    exact ⟨I₁.step hstep, T₁.step I₁ hstep⟩
  exact hboth.2

/-! ### The protocol -/

/-- The channel over every run. -/
theorem shutdown_protocol (actions : List Action) (s : State)
    (hrun : Machine.run step init actions = some s) :
    s.inFlight = s.sends.countP SendPhase.inside ∧
    (s.cancelCalls ≤ 1 ∧
      (0 < s.cancelCalls → ∃ sends, s.atCancel = some sends ∧ 0 < sends.countP SendPhase.inside)) ∧
    (∀ (k : Nat) (e : Entry) (deadline : Int) (spurious : Bool) (s' : State), s.cancelled = true →
      s.sends[k]? = some (.invoking e deadline) → step s (.advance k spurious) = some s' →
      (∃ sends φ, s.atCancel = some sends ∧ sends[k]? = some φ ∧ φ.inside = true) ∧
        (s.cancelCalls = 1 ∨ CancelPhase.calling ∈ s.cancels)) ∧
    (∀ (k : Nat) (e : Entry) (deadline d : Int), s.sends[k]? = some (.inTransport e deadline) →
      e.shutdown = some d → s.shutdownDeadline = some d ∧ e.now < d ∧ deadline ≤ d) ∧
    (∀ (k : Nat) (d : Int), s.shutdownDeadline = some d → d ≤ s.clock →
      (∀ φ, s.sends[k]? = some φ → ∃ perExport, φ = .starting perExport) →
      ∀ later s', Machine.run step s later = some s' →
        ∀ φ, s'.sends[k]? = some φ → φ.inside = false) ∧
    ∀ a s', step s a = some s' → Allowed s.connection s'.connection := by
  have I := run_inv hrun
  have hcalls := I.calls
  have howed : owedCalls s.atCancel ≤ 1 := by
    unfold owedCalls
    split
    · split <;> omega
    · omega
  refine ⟨I.count, ⟨by omega, ?_⟩, ?_, ?_, ?_, ?_⟩
  · intro hcalled
    cases hat : s.atCancel with
    | none =>
        rw [hat] at hcalls
        simp only [owedCalls] at hcalls
        omega
    | some sends =>
        rw [hat] at hcalls
        refine ⟨sends, rfl, ?_⟩
        by_contra hnone
        simp only [owedCalls, hnone, if_false] at hcalls
        omega
  · intro k e deadline spurious s' hcancelled hk _
    obtain ⟨sends, hat⟩ := Option.isSome_iff_exists.mp (I.flag.symm.trans hcancelled)
    obtain ⟨φ, hφ, hinside⟩ := I.before sends hat k _ hk rfl
    refine ⟨⟨sends, φ, hat, hφ, hinside⟩, ?_⟩
    have hpos : 0 < sends.countP SendPhase.inside :=
      List.countP_pos_iff.mpr ⟨φ, List.mem_of_getElem? hφ, hinside⟩
    simp only [hat, owedCalls, hpos, if_true] at hcalls
    rcases Nat.eq_zero_or_pos (s.cancels.countP CancelPhase.isCalling) with hzero | hcalling
    · left
      omega
    · right
      obtain ⟨χ, hmem, hχ⟩ := List.countP_pos_iff.mp hcalling
      cases χ with
      | calling => exact hmem
      | starting => cases hχ
      | returned => cases hχ
  · intro k e deadline d hk hd
    exact I.entries k _ hk d hd
  · intro k d hd hclock hnew later s' hlater φ hφ
    have T : TooLate d k s := ⟨hd, hclock, fun φ hφ => Or.inl (hnew φ hφ)⟩
    obtain ⟨-, -, hlate⟩ := run_tooLate T I hlater
    rcases hlate φ hφ with ⟨perExport, rfl⟩ | ⟨perExport, now, rfl, -⟩ | rfl <;> rfl
  · intro a s' hstep
    exact step_connection I hstep

/-- When the channel is shut down and cancelled, one send is in the transport, one is about
to call it and one has not read the clock yet; then the deadline passes. -/
def cancelledSends : List Action :=
  [.beginShutdown 5, .setDeadline 0, .setDeadline 0,
    .send 100, .advance 0 false, .advance 0 false, .advance 0 false, .advance 0 false,
    .send 100, .advance 1 false, .advance 1 false, .advance 1 false,
    .send 100, .cancelInFlight, .cancel 0, .cancel 0, .tick 5]

/-- The last of the three sends goes on. -/
def lateEntry : List Action := [.advance 2 false, .advance 2 false]

theorem shutdown_protocol_cancelledSends :
    ∃ s : State, Machine.run step init cancelledSends = some s ∧
      (s.inFlight = 2 ∧ s.sends.countP SendPhase.inside = 2) ∧
      (s.cancelCalls = 1 ∧
        ∃ sends, s.atCancel = some sends ∧ 0 < sends.countP SendPhase.inside) ∧
      (∃ e deadline, ∃ s' : State, s.sends[1]? = some (.invoking e deadline) ∧
        step s (.advance 1 false) = some s' ∧
        ∃ (sends : List SendPhase) (φ : SendPhase), s.atCancel = some sends ∧
          sends[1]? = some φ ∧ φ.inside = true) ∧
      (∃ e deadline, s.sends[0]? = some (.inTransport e deadline) ∧ e.shutdown = some 5 ∧
        e.now < 5 ∧ deadline ≤ 5) ∧
      (∃ (s' : State) (φ : SendPhase), Machine.run step s lateEntry = some s' ∧
        s'.sends[2]? = some φ ∧ φ.inside = false) ∧
      ∃ s' : State, step s .markClosed = some s' ∧ Allowed s.connection s'.connection := by
  obtain ⟨s, hrun, hcount, hcalls, hcancelled, hdeadline, hclock⟩ :
      ∃ s, Machine.run step init cancelledSends = some s ∧ s.inFlight = 2 ∧ s.cancelCalls = 1 ∧
        s.cancelled = true ∧ s.shutdownDeadline = some 5 ∧ s.clock = 5 :=
    ⟨_, rfl, rfl, rfl, rfl, rfl, rfl⟩
  have hsends : s.sends =
      [.inTransport ⟨0, some 5⟩ 5, .invoking ⟨0, some 5⟩ 5, .starting 100] := by
    obtain rfl := Option.some.inj hrun
    rfl
  obtain ⟨hinside, ⟨-, hcalled⟩, hinvoked, hentries, hlate, hallowed⟩ :=
    shutdown_protocol cancelledSends s hrun
  have hfirst : s.sends[0]? = some (.inTransport ⟨0, some 5⟩ 5) := by rw [hsends]; rfl
  have hsecond : s.sends[1]? = some (.invoking ⟨0, some 5⟩ 5) := by rw [hsends]; rfl
  have hthird : ∀ φ, s.sends[2]? = some φ → ∃ perExport, φ = .starting perExport := by
    intro φ hφ
    rw [hsends] at hφ
    exact ⟨100, (Option.some.inj hφ).symm⟩
  refine ⟨s, hrun, ⟨hcount, hinside ▸ hcount⟩, ⟨hcalls, hcalled (by omega)⟩, ?_, ?_, ?_, ?_⟩
  · obtain ⟨s', hstep⟩ : ∃ s', step s (.advance 1 false) = some s' := by
      simp [step, advance, hsecond]
    exact ⟨_, _, s', hsecond, hstep, (hinvoked 1 _ _ false s' hcancelled hsecond hstep).1⟩
  · obtain ⟨-, hnow, hle⟩ := hentries 0 _ _ 5 hfirst rfl
    exact ⟨_, _, hfirst, rfl, hnow, hle⟩
  · obtain ⟨s', φ, hlater, hφ⟩ :
        ∃ s' φ, Machine.run step s lateEntry = some s' ∧ s'.sends[2]? = some φ := by
      obtain rfl := Option.some.inj hrun
      exact ⟨_, _, rfl, rfl⟩
    exact ⟨s', φ, hlater, hφ, hlate 2 5 hdeadline (by omega) hthird lateEntry s' hlater φ hφ⟩
  · exact ⟨_, rfl, hallowed .markClosed _ rfl⟩

end Microtel.Wire.ExportTransportChannel
