import Microtel.Transport.Http2Requests

/-!
Every request is answered exactly once. That no promise is set twice, that the
maps are paired and that a refused `Send` is answered holds in every run; the
queue bound and what is left after `Close` depend on what overlaps what.
-/

namespace Microtel.Transport.Http2Transport

variable {s s' t : State} {a : Action}

/-- The promise of the `Send` is set. -/
def Answered (s : State) (k : Nat) : Prop := k ∈ s.tables.answers.map Prod.fst

/-! ### Once -/

theorem Requests.run {actions : List Action}
    (hrun : Machine.run Http2Transport.step Http2Transport.init actions = some s) : Requests s :=
  Machine.run_invariant (fun _ _ _ h hstep => Requests.step h hstep) Requests.init hrun

theorem handedOut_le_one (sends : List SendPhase) (k : Nat) : handedOut sends k ≤ 1 := by
  unfold handedOut
  split <;> omega

theorem Requests.answers_nodup (h : Requests s) : (s.tables.answers.map Prod.fst).Nodup := by
  apply List.nodup_iff_count_le_one.mpr
  intro k
  have hcount := h.accounted k
  have hone := handedOut_le_one s.sends k
  unfold promisesAt StreamTables.promises at hcount
  rw [List.count_append, List.count_append] at hcount
  omega

/-- A `Send` that has returned is answered, or its request is still about. -/
theorem Requests.place (h : Requests s) {k id : Nat} (hk : s.sends[k]? = some (.returned id)) :
    Answered s k ∨ ∃ r ∈ requestsAt s s.io, r.promise = k := by
  have hcount := h.accounted k
  unfold handedOut at hcount
  rw [hk] at hcount
  have hmem : k ∈ promisesAt s s.io := by
    apply List.count_pos_iff.mp
    rw [hcount]
    exact Nat.one_pos
  unfold promisesAt StreamTables.promises at hmem
  rcases List.mem_append.mp hmem with hwaits | htables
  · obtain ⟨r, hr, hpromise⟩ := List.mem_map.mp hwaits
    refine Or.inr ⟨r, mem_requestsAt.mpr ?_, hpromise⟩
    exact (List.mem_append.mp hr).imp_right Or.inl
  · rcases List.mem_append.mp htables with hopen | hanswered
    · obtain ⟨entry, hentry, hpromise⟩ := List.mem_map.mp hopen
      exact Or.inr ⟨origin entry, mem_requestsAt.mpr (Or.inr (Or.inr ⟨entry, hentry, rfl⟩)),
        hpromise⟩
    · exact Or.inl hanswered

theorem Requests.refused_answered (h : Requests s) {k : Nat}
    (hk : s.sends[k]? = some (.returned 0)) : Answered s k := by
  rcases h.place hk with hanswered | ⟨r, hr, hpromise⟩
  · exact hanswered
  · obtain ⟨hreturned, hne⟩ := h.numbered.requests r hr
    rw [hpromise, hk] at hreturned
    exact (hne (SendPhase.returned.inj (Option.some.inj hreturned)).symm).elim

/-! ### The queue bound -/

/-- The bound a `Connect` adopts is not below the length of the queue. -/
def Adopts (s : State) : ConnectPhase → Prop
  | .adopting opts _ => s.pendingQueue.length ≤ opts.maxPendingRequests
  | _ => True

def BudgetKept (s : State) : Action → Prop
  | .advanceConnect k _ => ∀ φ ∈ s.connects[k]?, Adopts s φ
  | _ => True

theorem pending_bounded_step (h : s.pendingQueue.length ≤ s.budgets.maxPendingRequests)
    (hkept : BudgetKept s a) (hstep : step s a = some s') :
    s'.pendingQueue.length ≤ s'.budgets.maxPendingRequests := by
  cases step_spec hstep with
  | sendBegun => exact h
  | sent hk M =>
      cases M with
      | passed | notConnected | numbered | full => exact h
      | pushed hroom =>
          rw [List.length_append]
          exact hroom
  | cancelled hk =>
      unfold cancel
      split
      · exact h
      · exact h
  | connectBegun => exact h
  | @connected k ok φ t ψ hk M =>
      cases M with
      | adopted =>
          exact hkept _ hk
      | claimed | dropped | reclaimed | blocked | dialed | shook | registered | failed | rolledBack
      | published => exact h
  | refusedEarly => exact h
  | closeBegun => exact h
  | closed hk M =>
      cases M with
      | again | closed | stopped | waited | joined | abandoned | tornDown => exact h
      | swept => exact Nat.zero_le _
  | event => exact h
  | io M =>
      generalize s.io = φ at M
      cases M with
      | swappedPending => exact Nat.zero_le _
      | _ => exact h
  | callback M => cases M <;> exact h

/-! ### After `Close` -/

/-- Between the check of the word and the push. -/
def SendPhase.overtaking : SendPhase → Bool
  | .numbering _ | .pushing _ _ => true
  | .checking _ | .returned _ => false

/-- When a `Close` clears the queue no `Send` is past its check and before its
push, and one that finds the transport closed comes after one that has
returned. -/
def SweepClear (s : State) : ClosePhase → Prop
  | .sweeping _ => s.sends.countP SendPhase.overtaking = 0
  | .exchanging =>
      s.state = .closed → .returned .completed ∈ s.closes ∨ .returned .timedOut ∈ s.closes
  | _ => True

def SweepsClear (s : State) : Action → Prop
  | .advanceClose k => ∀ φ ∈ s.closes[k]?, SweepClear s φ
  | _ => True

/-- Nothing of the transport moves but what refuses. -/
structure Quiesced (s : State) : Prop where
  closed : s.state = .closed
  exited : s.io = .exited
  streams : s.tables.streams = []
  pending : s.pendingQueue = []
  sends : s.sends.countP SendPhase.overtaking = 0

theorem exited_step (h : s.io = .exited) (hstep : step s a = some s') : s'.io = .exited := by
  cases step_spec hstep with
  | sendBegun | connectBegun | refusedEarly | closeBegun => exact h
  | sent hk M => exact M.frame.2.2.1.trans h
  | cancelled hk =>
      unfold cancel
      split
      · exact h
      · exact h
  | connected hk M => exact M.frame.1.trans h
  | closed hk M => exact M.frame.2.1.trans h
  | event error read hio =>
      rw [h] at hio
      cases hio
  | io M =>
      rw [h] at M
      cases M
  | callback M => exact M.frame.2.2.1.trans h

/-- Once the I/O thread has exited no stream is opened. -/
theorem streams_step (hpaired : s.tables.Paired) (hexited : s.io = .exited)
    (h : s.tables.streams = []) (hstep : step s a = some s') : s'.tables.streams = [] := by
  have hsub : (∀ entry ∈ s'.tables.streams, entry ∈ s.tables.streams) → s'.tables.streams = [] := by
    intro hmem
    apply List.eq_nil_iff_forall_not_mem.mpr
    intro entry hentry
    have := hmem entry hentry
    rw [h] at this
    cases this
  cases step_spec hstep with
  | sendBegun | connectBegun | closeBegun | event => exact h
  | sent hk M => cases M <;> exact h
  | cancelled hk =>
      unfold cancel
      split
      · exact h
      · exact h
  | connected hk M =>
      dsimp only
      rw [M.tables.1]
      exact h
  | refusedEarly lastStreamId errorCode =>
      exact hsub fun _ => (StreamTables.refuseStreamsAbove_completes hpaired _ _).mem
  | closed hk M =>
      cases M with
      | again | closed | stopped | waited | joined | tornDown => exact h
      | abandoned => rfl
      | swept => exact (sweepPending_tables s.pendingQueue s.tables).1.trans h
  | io M =>
      rw [hexited] at M
      cases M
  | callback M =>
      rcases M.streams hpaired with C | U
      · exact hsub fun _ => C.mem
      · have hkeys := U.keys
        rw [h] at hkeys
        exact List.map_eq_nil_iff.mp hkeys

theorem not_overtaking (h : s.sends.countP SendPhase.overtaking = 0) {k : Nat} {φ : SendPhase}
    (hk : s.sends[k]? = some φ) : φ.overtaking = false := by
  have hnone := List.countP_eq_zero.mp h φ (List.mem_of_getElem? hk)
  simpa using hnone

/-- The calls of a quiesced transport: what checks the word is refused. -/
theorem Quiesced.calls (h : Quiesced s) (hstep : Http2Transport.step s a = some s') :
    s'.pendingQueue = [] ∧ s'.sends.countP SendPhase.overtaking = 0 := by
  cases step_spec hstep with
  | sendBegun payload =>
      refine ⟨h.pending, ?_⟩
      rw [Threads.countP_push, h.sends]
      rfl
  | @sent k φ t ψ hk M =>
      have hφ := not_overtaking h.sends hk
      have hcount := Threads.countP_set SendPhase.overtaking ψ hk
      cases M with
      | passed hconnected =>
          rw [h.closed] at hconnected
          cases hconnected
      | notConnected =>
          rw [h.sends] at hcount
          exact ⟨h.pending, hcount⟩
      | numbered => cases hφ
      | full => cases hφ
      | pushed => cases hφ
  | cancelled hk =>
      unfold cancel
      split
      · exact ⟨h.pending, h.sends⟩
      · exact ⟨h.pending, h.sends⟩
  | connectBegun | refusedEarly | closeBegun | event => exact ⟨h.pending, h.sends⟩
  | connected hk M => cases M <;> exact ⟨h.pending, h.sends⟩
  | closed hk M =>
      cases M with
      | swept => exact ⟨rfl, h.sends⟩
      | again | closed | stopped | waited | joined | abandoned | tornDown =>
          exact ⟨h.pending, h.sends⟩
  | io M =>
      rw [h.exited] at M
      cases M
  | callback M => cases M <;> exact ⟨h.pending, h.sends⟩

theorem Quiesced.step (h : Quiesced s) (hpaired : s.tables.Paired) (hclosed : s'.state = .closed)
    (hstep : Http2Transport.step s a = some s') : Quiesced s' where
  closed := hclosed
  exited := exited_step h.exited hstep
  streams := streams_step hpaired h.exited h.streams hstep
  pending := (h.calls hstep).1
  sends := (h.calls hstep).2

/-- What a `Close` has achieved on its way. -/
def Achieved (s : State) : ClosePhase → Prop
  | .exchanging => True
  | .stopping | .waiting | .joining _ => s.state = .closed
  | .abandoning _ => s.state = .closed ∧ s.io = .exited
  | .sweeping _ => s.state = .closed ∧ s.io = .exited ∧ s.tables.streams = []
  | .tearingDown _ | .returned _ => Quiesced s

theorem Achieved.stays {φ : ClosePhase} (h : Achieved s φ) (hpaired : s.tables.Paired)
    (hclosed : s.state = .closed → s'.state = .closed) (hstep : step s a = some s') :
    Achieved s' φ := by
  cases φ with
  | exchanging => trivial
  | stopping | waiting | joining => exact hclosed h
  | abandoning => exact ⟨hclosed h.1, exited_step h.2 hstep⟩
  | sweeping =>
      obtain ⟨hstate, hexited, hstreams⟩ := h
      exact ⟨hclosed hstate, exited_step hexited hstep, streams_step hpaired hexited hstreams hstep⟩
  | tearingDown | returned => exact Quiesced.step h hpaired (hclosed h.closed) hstep

/-- What is known along a run that is clear for `Close`. -/
structure ClosingFacts (before : List Action) (s : State) : Prop where
  clear : ClearFacts before s
  requests : Requests s
  closes : ∀ (k : Nat) (φ : ClosePhase), s.closes[k]? = some φ → Achieved s φ

theorem ClosingFacts.init : ClosingFacts [] init where
  clear := ClearFacts.init
  requests := Requests.init
  closes := by simp [Http2Transport.init]

theorem ClosingFacts.closed {before : List Action} (h : ClosingFacts before s)
    (hstep : step s a = some s') : s.state = .closed → s'.state = .closed :=
  (step_stateMove h.clear.word h.clear.noStore h.clear.origin hstep).closed

/-- The step of a `Close` itself. -/
theorem ClosingFacts.advance {before : List Action} (h : ClosingFacts before s) {k : Nat}
    (hclear : SweepsClear s (.advanceClose k)) {φ ψ : ClosePhase} (hk : s.closes[k]? = some φ)
    (M : CloseMoves s φ t ψ) (hstep : step s a = some { t with closes := s.closes.set k ψ }) :
    Achieved { t with closes := s.closes.set k ψ } ψ := by
  have hφ := h.closes k φ hk
  have hclosed := h.closed hstep
  replace hclear : SweepClear s φ := hclear φ hk
  cases M with
  | again hstate =>
      -- another `Close` has returned, and left the transport quiesced
      have hquiesced : Quiesced s := by
        rcases hclear hstate with hmem | hmem
        · obtain ⟨j, hj⟩ := List.mem_iff_getElem?.mp hmem
          exact h.closes j _ hj
        · obtain ⟨j, hj⟩ := List.mem_iff_getElem?.mp hmem
          exact h.closes j _ hj
      exact hquiesced.step h.requests.paired rfl hstep
  | closed => exact rfl
  | stopped => exact hφ
  | waited => exact hφ
  | joined hexited => exact ⟨hφ, hexited⟩
  | abandoned => exact ⟨hφ.1, hφ.2, rfl⟩
  | swept =>
      exact ⟨hφ.1, hφ.2.1, (sweepPending_tables s.pendingQueue s.tables).1.trans hφ.2.2,
        rfl, hclear⟩
  | tornDown => exact Quiesced.step hφ h.requests.paired (hclosed hφ.closed) hstep

theorem ClosingFacts.step {before : List Action}
    (hrun : Machine.run Http2Transport.step Http2Transport.init before = some s)
    (h : ClosingFacts before s) (hclear : ClosesClear s a) (hsweeps : SweepsClear s a)
    (hstep : Http2Transport.step s a = some s') : ClosingFacts (before ++ [a]) s' := by
  have hstays : ∀ (k : Nat) (φ : ClosePhase), s.closes[k]? = some φ → Achieved s' φ :=
    fun k φ hk => (h.closes k φ hk).stays h.requests.paired (h.closed hstep) hstep
  have hsame : s'.closes = s.closes → ∀ (k : Nat) (φ : ClosePhase), s'.closes[k]? = some φ →
      Achieved s' φ :=
    fun hcloses k φ hk => hstays k φ (hcloses ▸ hk)
  refine ⟨h.clear.step hrun hclear hstep, h.requests.step hstep, ?_⟩
  cases step_spec hstep with
  | sendBegun | connectBegun | refusedEarly | event => exact hsame rfl
  | sent hk M => exact hsame M.frame.2.2.2.1
  | cancelled hk =>
      apply hsame
      unfold cancel
      split <;> rfl
  | connected hk M => exact hsame M.frame.2.1
  | closeBegun => exact Threads.forall_push (P := fun _ φ => Achieved _ φ) trivial hstays
  | @closed k φ t ψ hk M =>
      apply Threads.forall_set (P := fun _ φ => Achieved _ φ) (h.advance hsweeps hk M hstep)
      exact fun j χ _ hj => hstays j χ hj
  | io M => exact hsame M.frame.2.1
  | callback M => exact hsame M.frame.2.2.2.1

/-- In every run no promise is set twice, the maps are in bijection and a refused
`Send` is answered. The queue keeps to its bound if no `Connect` lowers it below
the queue's length, and every future is resolved once `Close` has returned if it
overlaps no `Send`, `Connect` or lost connection between a check and what the
check was for. -/
theorem requests_answered_once (actions : List Action) (σ : State)
    (hrun : Machine.run step init actions = some σ) :
    (σ.tables.answers.map Prod.fst).Nodup ∧ σ.tables.Paired ∧
    (∀ k : Nat, σ.sends[k]? = some (.returned 0) → Answered σ k) ∧
    ((∀ before a after s, actions = before ++ a :: after → Machine.run step init before = some s →
        BudgetKept s a) →
      σ.pendingQueue.length ≤ σ.budgets.maxPendingRequests) ∧
    ((∀ before a after s, actions = before ++ a :: after → Machine.run step init before = some s →
        ClosesClear s a ∧ SweepsClear s a) →
      ∀ (j : Nat) (status : Status), σ.closes[j]? = some (.returned status) →
        σ.pendingQueue = [] ∧
        ∀ (k id : Nat), σ.sends[k]? = some (.returned id) → Answered σ k) := by
  have hrequests := Requests.run hrun
  refine ⟨hrequests.answers_nodup, hrequests.paired, fun k => hrequests.refused_answered, ?_, ?_⟩
  · intro hkept
    exact @Machine.run_invariant_of _ _ step BudgetKept
      (fun s => s.pendingQueue.length ≤ s.budgets.maxPendingRequests)
      (fun s a s' h hok hstep => pending_bounded_step h hok hstep) init σ actions (Nat.zero_le _)
      hkept hrun
  · intro hclear j status hj
    have hfacts : ClosingFacts actions σ := by
      refine @Machine.run_history _ _ step
        (fun _ s a => ClosesClear s a ∧ SweepsClear s a) ClosingFacts
        init σ actions ClosingFacts.init ?_ hclear hrun
      intro before a s₁ s₂ hbefore hfacts hok hstep
      exact hfacts.step hbefore hok.1 hok.2 hstep
    have hquiesced : Quiesced σ := hfacts.closes j _ hj
    refine ⟨hquiesced.pending, ?_⟩
    intro k id hk
    rcases hrequests.place hk with hanswered | ⟨r, hr, -⟩
    · exact hanswered
    · unfold requestsAt at hr
      rw [hquiesced.pending, hquiesced.exited, hquiesced.streams] at hr
      cases hr

/-- A `Send` checks the word before `Close` and pushes after it. -/
def overtakenSend : List Action :=
  [.connect {}, .advanceConnect 0 true, .advanceConnect 0 true, .advanceConnect 0 true,
    .advanceConnect 0 true, .advanceConnect 0 true, .advanceConnect 0 true,
    .send ⟨0, 1⟩, .advanceSend 0, .close, .advanceClose 0, .advanceClose 0, .advanceIo true 1,
    .advanceClose 0, .advanceClose 0, .advanceClose 0, .advanceClose 0, .advanceClose 0,
    .advanceSend 0, .advanceSend 0]

theorem left_after_close : ¬ ∀ actions σ, Machine.run step init actions = some σ →
    ∀ (j : Nat) (status : Status), σ.closes[j]? = some (.returned status) →
      σ.pendingQueue = [] ∧
      ∀ (k id : Nat), σ.sends[k]? = some (.returned id) → Answered σ k := by
  intro hclaim
  have hend : (Machine.run step init overtakenSend).map
      (fun σ => (σ.closes, σ.pendingQueue.length, σ.sends, σ.tables.answers.length)) =
      some ([.returned .completed], 1, [.returned 1], 0) := by decide +kernel
  obtain ⟨σ, hrun, hσ⟩ := Option.map_eq_some_iff.mp hend
  simp only [Prod.mk.injEq] at hσ
  obtain ⟨hcloses, hpending, -, -⟩ := hσ
  have hempty := (hclaim overtakenSend σ hrun 0 .completed (by rw [hcloses]; rfl)).1
  rw [hempty] at hpending
  cases hpending

instance : (s : State) → (φ : ConnectPhase) → Decidable (Adopts s φ)
  | s, .adopting opts _ =>
      inferInstanceAs (Decidable (s.pendingQueue.length ≤ opts.maxPendingRequests))
  | _, .claiming _ | _, .reclaiming _ | _, .dialing _ | _, .handshaking _ | _, .registering _
  | _, .rollingBack _ | _, .publishing | _, .returned _ => isTrue trivial

instance : (s : State) → (φ : ClosePhase) → Decidable (SweepClear s φ)
  | s, .sweeping _ => inferInstanceAs (Decidable (s.sends.countP SendPhase.overtaking = 0))
  | s, .exchanging =>
      inferInstanceAs (Decidable (s.state = .closed →
        .returned .completed ∈ s.closes ∨ .returned .timedOut ∈ s.closes))
  | _, .stopping | _, .waiting | _, .joining _ | _, .abandoning _ | _, .tearingDown _
  | _, .returned _ => isTrue trivial

instance : (s : State) → (a : Action) → Decidable (BudgetKept s a)
  | s, .advanceConnect k _ => inferInstanceAs (Decidable (∀ φ ∈ s.connects[k]?, Adopts s φ))
  | _, .send _ | _, .advanceSend _ | _, .cancel _ | _, .connect _ | _, .handshakeGoaway _ _ _
  | _, .close | _, .advanceClose _ | _, .event _ _ | _, .advanceIo _ _ | _, .callback _ =>
      isTrue trivial

instance : (s : State) → (a : Action) → Decidable (SweepsClear s a)
  | s, .advanceClose k => inferInstanceAs (Decidable (∀ φ ∈ s.closes[k]?, SweepClear s φ))
  | _, .send _ | _, .advanceSend _ | _, .cancel _ | _, .connect _ | _, .advanceConnect _ _
  | _, .handshakeGoaway _ _ _ | _, .close | _, .event _ _ | _, .advanceIo _ _ | _, .callback _ =>
      isTrue trivial

/-- One request is answered by the peer and one is still queued when `Close`
comes; a third `Send` is refused. -/
def closeWithQueued : List Action :=
  [.connect {}, .advanceConnect 0 true, .advanceConnect 0 true, .advanceConnect 0 true,
    .advanceConnect 0 true, .advanceConnect 0 true, .advanceConnect 0 true,
    .send ⟨0, 1⟩, .advanceSend 0, .advanceSend 0, .advanceSend 0,
    .advanceIo true 1, .advanceIo true 1, .advanceIo true 1, .advanceIo true 1, .advanceIo true 1,
    .callback (.payloadRead 1 16), .callback (.streamClose 1 0), .advanceIo true 1,
    .send ⟨1, 1⟩, .advanceSend 1, .advanceSend 1, .advanceSend 1,
    .advanceIo true 1, .advanceIo true 1, .advanceIo true 1, .advanceIo true 1,
    .close, .advanceClose 0, .advanceClose 0, .advanceIo true 1,
    .advanceClose 0, .advanceClose 0, .advanceClose 0, .advanceClose 0, .advanceClose 0,
    .send ⟨2, 1⟩, .advanceSend 2]

theorem requests_answered_once_closed :
    ∃ σ, Machine.run step init closeWithQueued = some σ ∧ σ.closes = [.returned .completed] ∧
      σ.sends = [.returned 1, .returned 2, .returned 0] ∧ Answered σ 0 ∧ Answered σ 1 ∧
      Answered σ 2 ∧ σ.pendingQueue = [] ∧ (σ.tables.answers.map Prod.fst).Nodup := by
  have hend : (Machine.run step init closeWithQueued).map (fun σ => (σ.closes, σ.sends)) =
      some ([.returned .completed], [.returned 1, .returned 2, .returned 0]) := by decide +kernel
  have hclear : Machine.throughout step ClosesClear init closeWithQueued = true := by decide +kernel
  have hsweeps : Machine.throughout step SweepsClear init closeWithQueued = true := by
    decide +kernel
  obtain ⟨σ, hrun, hσ⟩ := Option.map_eq_some_iff.mp hend
  simp only [Prod.mk.injEq] at hσ
  obtain ⟨hcloses, hsends⟩ := hσ
  obtain ⟨honce, -, hrefused, -, hclosed⟩ := requests_answered_once closeWithQueued σ hrun
  obtain ⟨hpending, hanswered⟩ := hclosed
    (fun before a after s hsplit hbefore =>
      ⟨Machine.throughout_sound hclear before a after s hsplit hbefore,
        Machine.throughout_sound hsweeps before a after s hsplit hbefore⟩)
    0 .completed (by rw [hcloses]; rfl)
  refine ⟨σ, hrun, hcloses, hsends, ?_, ?_, ?_, hpending, honce⟩
  · exact hanswered 0 1 (by rw [hsends]; rfl)
  · exact hanswered 1 2 (by rw [hsends]; rfl)
  · exact hrefused 2 (by rw [hsends]; rfl)

end Microtel.Transport.Http2Transport
