import Microtel.Transport.Http2Steps

/-!
The state word of the transport. One `Connect` at a time holds the slot it
claimed, and it and an I/O thread that has found the transport connected exclude
each other; every store to the word is made by one of these or by `Close`.
-/

namespace Microtel.Transport.Http2Transport

variable {s s' t : State} {a : Action}

/-- Between the claim and the last store of a `Connect`. -/
def ConnectPhase.holds : ConnectPhase → Bool
  | .adopting _ _ | .dialing _ | .handshaking _ | .registering _ | .rollingBack _ | .publishing =>
      true
  | .claiming _ | .reclaiming _ | .returned _ => false

/-- What a `Connect` would restore. -/
def ConnectPhase.prior : ConnectPhase → Option ConnectionState
  | .adopting _ prior | .dialing prior | .handshaking prior | .registering prior
  | .rollingBack prior => some prior
  | .claiming _ | .reclaiming _ | .publishing | .returned _ => none

/-- Past a check that found the transport connected. -/
def IoPhase.live : IoPhase → Bool
  | .looping | .waiting | .checking _ _ | .gating | .exited => false
  | _ => true

def holders (s : State) : Nat := s.connects.countP ConnectPhase.holds

/-! ### Who may store -/

structure Word (s : State) : Prop where
  alone : s.io.live = true → holders s = 0
  single : holders s ≤ 1
  slot : s.state ≠ .closed → holders s = if s.state = .connecting then 1 else 0
  live : s.io.live = true → s.state = .connected ∨ s.state = .closed
  priors : ∀ (k : Nat) (φ : ConnectPhase) (p : ConnectionState), s.connects[k]? = some φ →
    φ.prior = some p → p = .disconnected ∨ p = .reconnecting

theorem Word.init : Word init where
  alone := by intro h; cases h
  single := Nat.zero_le _
  slot := fun _ => rfl
  live := by intro h; cases h
  priors := by simp [Http2Transport.init]

/-- Only these parts of the state matter. -/
theorem Word.congr (h : Word s) (hstate : t.state = s.state) (hconnects : t.connects = s.connects)
    (hio : t.io = s.io) : Word t := by
  have hholders : holders t = holders s := by
    unfold holders
    rw [hconnects]
  constructor
  · rw [hio, hholders]
    exact h.alone
  · rw [hholders]
    exact h.single
  · rw [hstate, hholders]
    exact h.slot
  · rw [hio, hstate]
    exact h.live
  · rw [hconnects]
    exact h.priors

theorem SendMoves.frame {k : Nat} {φ ψ : SendPhase} (M : SendMoves s k φ t ψ) :
    t.state = s.state ∧ t.connects = s.connects ∧ t.io = s.io ∧ t.closes = s.closes ∧
      t.stop = s.stop := by
  cases M <;> exact ⟨rfl, rfl, rfl, rfl, rfl⟩

theorem CallbackMoves.frame {c : Callback} (M : CallbackMoves s c t) :
    t.state = s.state ∧ t.connects = s.connects ∧ t.io = s.io ∧ t.closes = s.closes ∧
      t.stop = s.stop ∧ t.sends = s.sends := by
  cases M <;> exact ⟨rfl, rfl, rfl, rfl, rfl, rfl⟩

theorem IoMoves.frame {ok : Bool} {φ ψ : IoPhase} (M : IoMoves s ok φ t ψ) :
    t.connects = s.connects ∧ t.closes = s.closes ∧ t.stop = s.stop ∧ t.sends = s.sends := by
  cases M <;> exact ⟨rfl, rfl, rfl, rfl⟩

theorem CloseMoves.frame {φ ψ : ClosePhase} (M : CloseMoves s φ t ψ) :
    t.connects = s.connects ∧ t.io = s.io ∧ t.sends = s.sends := by
  cases M <;> exact ⟨rfl, rfl, rfl⟩

theorem ConnectMoves.frame {φ ψ : ConnectPhase} (M : ConnectMoves s φ t ψ) :
    t.io = s.io ∧ t.closes = s.closes ∧ t.stop = s.stop ∧ t.sends = s.sends := by
  cases M <;> exact ⟨rfl, rfl, rfl, rfl⟩

/-- A step of `Connect`: what it does to the slot and to the word. -/
inductive SlotMove (word word' : ConnectionState) (φ ψ : ConnectPhase) : Prop
  | keeps (hword : word' = word) (hholds : ψ.holds = φ.holds)
      (hprior : ∀ p, ψ.prior = some p → φ.prior = some p) (hafter : ψ ≠ .returned .connected)
  | claims (hfree : word = .disconnected ∨ word = .reconnecting) (hword : word' = .connecting)
      (hbefore : φ.holds = false) (hholds : ψ.holds = true) (hprior : ψ.prior = some word)
  | publishes (hword : word' = .connected) (hbefore : φ = .publishing)
      (hafter : ψ = .returned .connected)
  | restores (hbefore : φ.holds = true) (hprior : φ.prior = some word')
      (hafter : ψ = .returned .failed)

theorem ConnectMoves.slotMove {φ ψ : ConnectPhase} (M : ConnectMoves s φ t ψ) :
    SlotMove s.state t.state φ ψ := by
  have hblocked : ConnectPhase.returned (blockedBy s.state) ≠ .returned .connected := by
    unfold blockedBy
    split <;> simp
  cases M with
  | claimed h => exact .claims (Or.inl h) rfl rfl rfl (congrArg some h.symm)
  | dropped h => exact .keeps rfl rfl (by intro p hp; cases hp) (by simp)
  | reclaimed h => exact .claims (Or.inr h) rfl rfl rfl (congrArg some h.symm)
  | blocked hφ =>
      rcases hφ with rfl | rfl
      · exact .keeps rfl rfl (by intro p hp; cases hp) hblocked
      · exact .keeps rfl rfl (by intro p hp; cases hp) hblocked
  | adopted => exact .keeps rfl rfl (fun _ hp => hp) (by simp)
  | dialed => exact .keeps rfl rfl (fun _ hp => hp) (by simp)
  | shook => exact .keeps rfl rfl (fun _ hp => hp) (by simp)
  | registered => exact .keeps rfl rfl (by intro p hp; cases hp) (by simp)
  | failed hφ =>
      rcases hφ with rfl | rfl | rfl
      · exact .keeps rfl rfl (fun _ hp => hp) (by simp)
      · exact .keeps rfl rfl (fun _ hp => hp) (by simp)
      · exact .keeps rfl rfl (fun _ hp => hp) (by simp)
  | rolledBack => exact .restores rfl rfl rfl
  | published => exact .publishes rfl rfl rfl

/-- How a step of the I/O thread gets past its checks and leaves again. -/
inductive LiveMove (word word' : ConnectionState) (φ ψ : IoPhase) : Prop
  | keeps (hword : word' = word) (hlive : ψ.live = true → φ.live = true)
  | enters (hword : word' = word) (hstate : word = .connected)
  | leaves (hword : word' = .reconnecting) (hbefore : φ.live = true) (hafter : ψ.live = false)
      (hstate : word = .connected ∨ φ = .losing)

theorem IoMoves.liveMove {ok : Bool} {φ ψ : IoPhase} (M : IoMoves s ok φ t ψ) :
    LiveMove s.state t.state φ ψ := by
  cases M with
  | errored h => exact .enters rfl h
  | readable h => exact .enters rfl h
  | writable h => exact .enters rfl h
  | gated h => exact .enters rfl h
  | lost => exact .leaves rfl rfl rfl (Or.inr rfl)
  | @retired inLoop h =>
      apply LiveMove.leaves rfl rfl _ (Or.inl h)
      cases inLoop <;> rfl
  | stopped | dispatching | dispatched | ignored | flushed | skipped =>
      exact .keeps rfl (by intro h; cases h)
  | abandoned | received | broken | busy | idle | overtaken | swappedPending | submittedAll
  | submitted | submitFailed | sent | swappedCancels | cancelledAll | unknown | found | reset =>
      exact .keeps rfl (fun _ => rfl)

theorem Word.connects (h : Word s) {k : Nat} {φ ψ : ConnectPhase} (hk : s.connects[k]? = some φ)
    (M : SlotMove s.state t.state φ ψ) (hconnects : t.connects = s.connects.set k ψ)
    (hio : t.io = s.io) : Word t := by
  have hcount := Threads.countP_set ConnectPhase.holds ψ hk
  rw [← hconnects] at hcount
  change holders t + _ = holders s + _ at hcount
  have hpriors : ∀ p, ψ.prior = some p → p = .disconnected ∨ p = .reconnecting := by
    intro p hp
    cases M with
    | keeps _ _ hprior => exact h.priors k φ p hk (hprior p hp)
    | claims hfree _ _ _ hprior =>
        rw [hprior] at hp
        cases hp
        exact hfree
    | publishes _ _ hafter =>
        rw [hafter] at hp
        cases hp
    | restores _ _ hafter =>
        rw [hafter] at hp
        cases hp
  have hset := Threads.forall_set (l := s.connects) (k := k) (φ := ψ)
    (P := fun _ φ => ∀ p, φ.prior = some p → p = .disconnected ∨ p = .reconnecting)
    hpriors (fun j φ _ hj p hp => h.priors j φ p hj hp)
  have hsingle := h.single
  have hpriors' : ∀ (j : Nat) (φ : ConnectPhase) (p : ConnectionState), t.connects[j]? = some φ →
      φ.prior = some p → p = .disconnected ∨ p = .reconnecting := by
    rw [hconnects]
    exact fun j φ p hj hp => hset j φ hj p hp
  cases M with
  | keeps hword hholds hprior hafter =>
      rw [hholds] at hcount
      have hsame : holders t = holders s := Nat.add_right_cancel hcount
      refine ⟨?_, ?_, ?_, ?_, hpriors'⟩
      · rw [hio, hsame]
        exact h.alone
      · rw [hsame]
        exact hsingle
      · rw [hword, hsame]
        exact h.slot
      · rw [hio, hword]
        exact h.live
  | claims hfree hword hbefore hholds hprior =>
      have hidle : s.state ≠ .connected ∧ s.state ≠ .closed ∧ s.state ≠ .connecting := by
        rcases hfree with h | h <;> simp [h]
      have hnone : holders s = 0 := by
        rw [h.slot hidle.2.1, if_neg hidle.2.2]
      have hdead : t.io.live = true → False := by
        rw [hio]
        intro hlive
        rcases h.live hlive with hstate | hstate
        · exact hidle.1 hstate
        · exact hidle.2.1 hstate
      rw [hbefore, hholds, hnone] at hcount
      refine ⟨fun hlive => (hdead hlive).elim, ?_, ?_, fun hlive => (hdead hlive).elim, hpriors'⟩
      · simp at hcount
        omega
      · intro _
        simpa [hword] using hcount
  | publishes hword hbefore hafter =>
      subst hbefore hafter
      have hnone : holders t = 0 := by
        simp only [ConnectPhase.holds] at hcount
        simp at hcount
        omega
      refine ⟨fun _ => hnone, by omega, ?_, fun _ => Or.inl hword, hpriors'⟩
      intro _
      rw [hword, hnone]
      rfl
  | restores hbefore hprior hafter =>
      subst hafter
      have hcount' : holders t + 1 = holders s := by
        rw [hbefore] at hcount
        simpa [ConnectPhase.holds] using hcount
      have hnone : holders t = 0 := by omega
      refine ⟨fun _ => hnone, by omega, ?_, ?_, hpriors'⟩
      · intro _
        rcases h.priors k φ _ hk hprior with hp | hp <;> simp [hp, hnone]
      · intro hlive
        rw [hio] at hlive
        have := h.alone hlive
        omega

theorem Word.io (h : Word s) {ψ : IoPhase} (M : LiveMove s.state t.state s.io ψ)
    (hio : t.io = ψ) (hconnects : t.connects = s.connects) : Word t := by
  have hholders : holders t = holders s := by
    unfold holders
    rw [hconnects]
  have hpriors := h.priors
  rw [← hconnects] at hpriors
  subst hio
  cases M with
  | keeps hword hlive =>
      refine ⟨?_, ?_, ?_, ?_, hpriors⟩
      · rw [hholders]
        exact fun hafter => h.alone (hlive hafter)
      · rw [hholders]
        exact h.single
      · rw [hholders, hword]
        exact h.slot
      · rw [hword]
        exact fun hafter => h.live (hlive hafter)
  | enters hword hstate =>
      have hnone : holders s = 0 := by
        rw [h.slot (by simp [hstate]), hstate]
        rfl
      refine ⟨?_, ?_, ?_, ?_, hpriors⟩
      · rw [hholders]
        exact fun _ => hnone
      · rw [hholders]
        exact h.single
      · rw [hholders, hword]
        exact h.slot
      · rw [hword]
        exact fun _ => Or.inl hstate
  | leaves hword hbefore hafter hstate =>
      have hnone := h.alone hbefore
      refine ⟨?_, ?_, ?_, ?_, hpriors⟩
      · rw [hholders]
        exact fun _ => hnone
      · rw [hholders]
        exact h.single
      · rw [hholders, hword, hnone]
        exact fun _ => rfl
      · intro hlive
        rw [hafter] at hlive
        cases hlive

theorem Word.closes (h : Word s) (hword : t.state = s.state ∨ t.state = .closed)
    (hconnects : t.connects = s.connects) (hio : t.io = s.io) : Word t := by
  rcases hword with hword | hword
  · exact h.congr hword hconnects hio
  · have hholders : holders t = holders s := by
      unfold holders
      rw [hconnects]
    refine ⟨?_, ?_, ?_, ?_, ?_⟩
    · rw [hio, hholders]
      exact h.alone
    · rw [hholders]
      exact h.single
    · exact fun hopen => (hopen hword).elim
    · exact fun _ => Or.inr hword
    · rw [hconnects]
      exact h.priors

theorem CloseMoves.word {φ ψ : ClosePhase} (M : CloseMoves s φ t ψ) :
    t.state = s.state ∨ (φ = .exchanging ∧ t.state = .closed) := by
  cases M with
  | again => exact Or.inr ⟨rfl, rfl⟩
  | closed => exact Or.inr ⟨rfl, rfl⟩
  | stopped | waited | joined | abandoned | swept | tornDown => exact Or.inl rfl

theorem Word.step (h : Word s) (hstep : step s a = some s') : Word s' := by
  cases step_spec hstep with
  | sendBegun => exact h.congr rfl rfl rfl
  | sent hk M => exact h.congr M.frame.1 M.frame.2.1 M.frame.2.2.1
  | @cancelled k id hk =>
      unfold cancel
      split
      · exact h
      · exact h.congr rfl rfl rfl
  | connectBegun opts =>
      have hholders : holders { s with connects := s.connects ++ [.claiming opts] } =
          holders s := by
        unfold holders
        rw [Threads.countP_push]
        rfl
      have hpush := Threads.forall_push (l := s.connects) (φ := .claiming opts)
        (P := fun _ φ => ∀ p, φ.prior = some p → p = .disconnected ∨ p = .reconnecting)
        (by intro p hp; cases hp) (fun k φ hk p hp => h.priors k φ p hk hp)
      refine ⟨?_, ?_, ?_, h.live, fun k φ p hk hp => hpush k φ hk p hp⟩
      · rw [hholders]
        exact h.alone
      · rw [hholders]
        exact h.single
      · rw [hholders]
        exact h.slot
  | connected hk M => exact h.connects hk M.slotMove rfl M.frame.1
  | refusedEarly => exact h.congr rfl rfl rfl
  | closeBegun => exact h.congr rfl rfl rfl
  | closed hk M => exact h.closes (M.word.imp_right And.right) M.frame.1 M.frame.2.1
  | event error read hio =>
      have hmove : LiveMove s.state s.state s.io (.checking error read) :=
        .keeps rfl (by intro hafter; cases hafter)
      exact h.io hmove rfl rfl
  | io M => exact h.io M.liveMove rfl M.frame.1
  | callback M => exact h.congr M.frame.1 M.frame.2.1 M.frame.2.2.1

/-! ### Where a claim came from -/

/-- What the word was when a step moved it to `Connecting`. -/
def claims (s : State) (a : Action) : Option ConnectionState :=
  match step s a with
  | some s' => if s.state ≠ .connecting ∧ s'.state = .connecting then some s.state else none
  | none => none

/-- What the word was before the last claim of a run. -/
def claimedFrom (actions : List Action) : Option ConnectionState :=
  (Machine.trace step claims init actions).getLast?

/-- The `Connect`s that would restore something are those of before, or there is
one, which has just claimed the slot. -/
inductive Origin (s s' : State) (claimed : Option ConnectionState) : Prop
  | kept (hclaim : claimed = none)
      (hpriors : ∀ (j : Nat) (ψ : ConnectPhase) (p : ConnectionState), s'.connects[j]? = some ψ →
        ψ.prior = some p → ∃ φ, s.connects[j]? = some φ ∧ φ.prior = some p)
  | claimed (hclaim : claimed = some s.state)
      (hpriors : ∀ (j : Nat) (ψ : ConnectPhase) (p : ConnectionState), s'.connects[j]? = some ψ →
        ψ.prior = some p → p = s.state)

theorem claims_eq_none (hstep : step s a = some s')
    (h : s'.state = .connecting → s.state = .connecting) :
    claims s a = none := by
  unfold claims
  rw [hstep]
  dsimp only
  rw [if_neg]
  rintro ⟨hbefore, hafter⟩
  exact hbefore (h hafter)

theorem Origin.same (hstep : step s a = some s') (hconnects : s'.connects = s.connects)
    (h : s'.state = .connecting → s.state = .connecting) : Origin s s' (claims s a) := by
  apply Origin.kept (claims_eq_none hstep h)
  intro j ψ p hj hp
  rw [hconnects] at hj
  exact ⟨ψ, hj, hp⟩

theorem holds_of_prior {φ : ConnectPhase} {p : ConnectionState} (h : φ.prior = some p) :
    φ.holds = true := by
  cases φ with
  | adopting | dialing | handshaking | registering | rollingBack => rfl
  | claiming | reclaiming | publishing | returned => cases h

/-- With no holder no `Connect` would restore anything. -/
theorem prior_none (hnone : holders s = 0) {j : Nat} {φ : ConnectPhase}
    (hj : s.connects[j]? = some φ) : φ.prior = none := by
  cases hprior : φ.prior with
  | none => rfl
  | some p =>
      have hmem : φ ∈ s.connects := List.mem_of_getElem? hj
      have hpos : 0 < s.connects.countP ConnectPhase.holds :=
        List.countP_pos_iff.mpr ⟨φ, hmem, holds_of_prior hprior⟩
      unfold holders at hnone
      omega

theorem step_origin (hw : Word s) (hstep : step s a = some s') : Origin s s' (claims s a) := by
  cases step_spec hstep with
  | sendBegun => exact .same hstep rfl (fun h => h)
  | sent hk M =>
      apply Origin.same hstep M.frame.2.1
      intro h
      exact M.frame.1 ▸ h
  | @cancelled k id hk =>
      unfold cancel at hstep ⊢
      split
      · next hzero =>
        rw [if_pos hzero] at hstep
        exact .same hstep rfl (fun h => h)
      · next hid =>
        rw [if_neg hid] at hstep
        exact .same hstep rfl (fun h => h)
  | connectBegun opts =>
      apply Origin.kept (claims_eq_none hstep (fun h => h))
      have hpush := Threads.forall_push (l := s.connects) (φ := .claiming opts)
        (P := fun j ψ => ∀ p, ψ.prior = some p → ∃ φ, s.connects[j]? = some φ ∧ φ.prior = some p)
        (by intro p hp; cases hp) (fun j ψ hj p hp => ⟨ψ, hj, hp⟩)
      exact fun j ψ p hj hp => hpush j ψ hj p hp
  | @connected k ok φ t ψ hk M =>
      have hset : (∀ p, ψ.prior = some p → φ.prior = some p) →
          ∀ (j : Nat) (χ : ConnectPhase), (s.connects.set k ψ)[j]? = some χ →
            ∀ p, χ.prior = some p →
            ∃ φ, s.connects[j]? = some φ ∧ φ.prior = some p := by
        intro hprior
        apply Threads.forall_set
        · exact fun p hp => ⟨φ, hk, hprior p hp⟩
        · exact fun j χ _ hj p hp => ⟨χ, hj, hp⟩
      cases M.slotMove with
      | keeps hword hholds hprior hafter =>
          apply Origin.kept (claims_eq_none hstep (fun h => hword ▸ h))
          exact fun j χ p hj hp => hset hprior j χ hj p hp
      | claims hfree hword hbefore hholds hprior =>
          have hidle : s.state ≠ .closed ∧ s.state ≠ .connecting := by
            rcases hfree with h | h <;> simp [h]
          have hnone : holders s = 0 := by
            rw [hw.slot hidle.1, if_neg hidle.2]
          apply Origin.claimed
          · unfold Http2Transport.claims
            rw [hstep]
            dsimp only
            rw [if_pos ⟨hidle.2, hword⟩]
          · have hothers : ∀ (j : Nat) (χ : ConnectPhase), (s.connects.set k ψ)[j]? = some χ →
                ∀ p, χ.prior = some p → p = s.state := by
              apply Threads.forall_set
              · intro p hp
                rw [hprior] at hp
                exact (Option.some.inj hp).symm
              · intro j χ _ hj p hp
                rw [prior_none hnone hj] at hp
                cases hp
            exact fun j χ p hj hp => hothers j χ hj p hp
      | publishes hword hbefore hafter =>
          subst hafter
          apply Origin.kept (claims_eq_none hstep (by intro h; rw [hword] at h; cases h))
          exact fun j χ p hj hp => hset (by intro p hp; cases hp) j χ hj p hp
      | restores hbefore hprior hafter =>
          subst hafter
          have hnot : t.state ≠ .connecting := by
            rcases hw.priors k φ _ hk hprior with h | h <;> simp [h]
          apply Origin.kept (claims_eq_none hstep (fun h => (hnot h).elim))
          exact fun j χ p hj hp => hset (by intro p hp; cases hp) j χ hj p hp
  | refusedEarly => exact .same hstep rfl (fun h => h)
  | closeBegun => exact .same hstep rfl (fun h => h)
  | closed hk M =>
      apply Origin.same hstep M.frame.1
      intro h
      rcases M.word with hword | ⟨-, hword⟩
      · exact hword ▸ h
      · rw [hword] at h
        cases h
  | event error read hio => exact .same hstep rfl (fun h => h)
  | io M =>
      apply Origin.same hstep M.frame.1
      intro h
      cases M.liveMove with
      | keeps hword => exact hword ▸ h
      | enters hword => exact hword ▸ h
      | leaves hword =>
          rw [hword] at h
          cases h
  | callback M =>
      apply Origin.same hstep M.frame.2.1
      intro h
      exact M.frame.1 ▸ h

/-! ### Closed is final -/

/-- `Close` publishes `Closed` into no window that ends in a plain store: no
`Connect` holds the slot, and `OnIoEvent` has not found the connection lost; nor
does it find so after that. -/
def ClosesClear (s : State) : Action → Prop
  | .advanceClose k =>
      s.closes[k]? = some .exchanging → holders s = 0 ∧ s.io ≠ .abandoning ∧ s.io ≠ .losing
  | .advanceIo ok _ => s.io = .receiving → s.state = .closed → ok = true
  | _ => True

instance : (s : State) → (a : Action) → Decidable (ClosesClear s a)
  | s, .advanceClose k =>
      inferInstanceAs (Decidable (s.closes[k]? = some .exchanging →
        holders s = 0 ∧ s.io ≠ .abandoning ∧ s.io ≠ .losing))
  | s, .advanceIo ok _ =>
      inferInstanceAs (Decidable (s.io = .receiving → s.state = .closed → ok = true))
  | _, .send _ | _, .advanceSend _ | _, .cancel _ | _, .connect _ | _, .advanceConnect _ _
  | _, .handshakeGoaway _ _ _ | _, .close | _, .event _ _ | _, .callback _ => isTrue trivial

/-- No plain store is to come. -/
def NoStore (s : State) : Prop := holders s = 0 ∧ s.io ≠ .abandoning ∧ s.io ≠ .losing

/-- The moves of the state word, `origin` being where the last claim came from. -/
inductive StateMove (origin : Option ConnectionState) (word word' : ConnectionState) : Prop
  | stays (h : word' = word)
  | claims (h : word = .disconnected ∨ word = .reconnecting) (h' : word' = .connecting)
  | connects (h : word = .connecting) (h' : word' = .connected)
  | rollsBack (h : word = .connecting) (h' : origin = some word')
  | loses (h : word = .connected) (h' : word' = .reconnecting)
  | closes (h' : word' = .closed)

theorem NoStore.congr (h : NoStore s) (hconnects : t.connects = s.connects) (hio : t.io = s.io) :
    NoStore t := by
  unfold NoStore holders
  rw [hconnects, hio]
  exact h

/-- How `OnIoEvent` comes to a store. -/
theorem IoMoves.losing {ok : Bool} {φ ψ : IoPhase} (M : IoMoves s ok φ t ψ) :
    (ψ = .abandoning → s.state = .connected ∨ φ = .receiving ∧ ok = false) ∧
      (ψ = .losing → φ = .abandoning) := by
  cases M with
  | errored h => exact ⟨fun _ => Or.inl h, by simp⟩
  | broken hok => exact ⟨fun _ => Or.inr ⟨rfl, hok⟩, by simp⟩
  | abandoned => exact ⟨by simp, fun _ => rfl⟩
  | @busy inLoop => cases inLoop <;> exact ⟨by simp, by simp⟩
  | @retired inLoop => cases inLoop <;> exact ⟨by simp, by simp⟩
  | @overtaken inLoop => cases inLoop <;> exact ⟨by simp, by simp⟩
  | stopped | dispatching | dispatched | ignored | flushed | skipped | readable | writable | gated
  | lost | received | idle | swappedPending | submittedAll | submitted | submitFailed | sent
  | swappedCancels | cancelledAll | unknown | found | reset => exact ⟨by simp, by simp⟩

/-- No plain store comes after `Closed`. -/
theorem noStore_step (hw : Word s) (h : s.state = .closed → NoStore s) (hclear : ClosesClear s a)
    (hstep : step s a = some s') : s'.state = .closed → NoStore s' := by
  cases step_spec hstep with
  | sendBegun => exact h
  | sent hk M =>
      obtain ⟨hword, hconnects, hio, -⟩ := M.frame
      intro hclosed
      exact (h (hword ▸ hclosed)).congr hconnects hio
  | cancelled hk =>
      unfold cancel
      split
      · exact h
      · exact h
  | connectBegun opts =>
      intro hclosed
      obtain ⟨hnone, hio⟩ := h hclosed
      refine ⟨?_, hio⟩
      unfold holders at hnone ⊢
      rw [Threads.countP_push, hnone]
      rfl
  | @connected k ok φ t ψ hk M =>
      intro hclosed
      have hcount := Threads.countP_set ConnectPhase.holds ψ hk
      cases M.slotMove with
      | keeps hword hholds hprior hafter =>
          dsimp only at hclosed
          obtain ⟨hnone, hio⟩ := h (hword ▸ hclosed)
          rw [hholds] at hcount
          refine ⟨?_, ?_⟩
          · exact (Nat.add_right_cancel hcount).trans hnone
          · dsimp only
            rw [M.frame.1]
            exact hio
      | claims hfree hword =>
          dsimp only at hclosed
          rw [hword] at hclosed
          cases hclosed
      | publishes hword =>
          dsimp only at hclosed
          rw [hword] at hclosed
          cases hclosed
      | restores hbefore hprior hafter =>
          dsimp only at hclosed
          rcases hw.priors k φ _ hk hprior with hp | hp
          · rw [hp] at hclosed
            cases hclosed
          · rw [hp] at hclosed
            cases hclosed
  | refusedEarly => exact h
  | closeBegun => exact h
  | @closed k φ t ψ hk M =>
      intro hclosed
      rcases M.word with hword | ⟨rfl, -⟩
      · exact (h (hword ▸ hclosed)).congr M.frame.1 M.frame.2.1
      · exact NoStore.congr (hclear hk) M.frame.1 M.frame.2.1
  | event error read hio =>
      intro hclosed
      exact ⟨(h hclosed).1, by simp, by simp⟩
  | @io ok _ t ψ M =>
      intro hclosed
      have hword : s.state = .closed := by
        cases M.liveMove with
        | keeps hword => exact hword ▸ hclosed
        | enters hword => exact hword ▸ hclosed
        | leaves hword =>
            dsimp only at hclosed
            rw [hword] at hclosed
            cases hclosed
      obtain ⟨hnone, habandoning, hlosing⟩ := h hword
      have hholders : holders { t with io := ψ } = 0 := by
        unfold holders at hnone ⊢
        dsimp only
        rw [M.frame.1]
        exact hnone
      refine ⟨hholders, ?_, ?_⟩
      · intro habandons
        rcases M.losing.1 habandons with hconnected | ⟨hreceiving, hok⟩
        · rw [hconnected] at hword
          cases hword
        · rw [hclear hreceiving hword] at hok
          cases hok
      · intro hloses
        exact habandoning (M.losing.2 hloses)
  | callback M =>
      obtain ⟨hword, hconnects, hio, -⟩ := M.frame
      intro hclosed
      exact (h (hword ▸ hclosed)).congr hconnects hio

theorem holder_open {k : Nat} {φ : ConnectPhase} (h : s.state = .closed → NoStore s)
    (hk : s.connects[k]? = some φ) (hholds : φ.holds = true) : s.state ≠ .closed := by
  intro hclosed
  have hpos : 0 < s.connects.countP ConnectPhase.holds :=
    List.countP_pos_iff.mpr ⟨φ, List.mem_of_getElem? hk, hholds⟩
  have hnone := (h hclosed).1
  unfold holders at hnone
  omega

theorem holder_connecting {k : Nat} {φ : ConnectPhase} (hw : Word s)
    (h : s.state = .closed → NoStore s) (hk : s.connects[k]? = some φ) (hholds : φ.holds = true) :
    s.state = .connecting := by
  have hpos : 0 < s.connects.countP ConnectPhase.holds :=
    List.countP_pos_iff.mpr ⟨φ, List.mem_of_getElem? hk, hholds⟩
  have hslot := hw.slot (holder_open h hk hholds)
  by_contra hnot
  rw [if_neg hnot] at hslot
  unfold holders at hslot
  omega

theorem step_stateMove {origin : Option ConnectionState} (hw : Word s)
    (h : s.state = .closed → NoStore s)
    (horigin : ∀ (k : Nat) (φ : ConnectPhase) (p : ConnectionState), s.connects[k]? = some φ →
      φ.prior = some p → origin = some p)
    (hstep : step s a = some s') : StateMove origin s.state s'.state := by
  cases step_spec hstep with
  | sendBegun => exact .stays rfl
  | sent hk M => exact .stays M.frame.1
  | cancelled hk =>
      unfold cancel
      split
      · exact .stays rfl
      · exact .stays rfl
  | connectBegun opts => exact .stays rfl
  | @connected k ok φ t ψ hk M =>
      cases M.slotMove with
      | keeps hword => exact .stays hword
      | claims hfree hword => exact .claims hfree hword
      | publishes hword hbefore =>
          subst hbefore
          exact .connects (holder_connecting hw h hk rfl) hword
      | restores hbefore hprior =>
          exact .rollsBack (holder_connecting hw h hk hbefore) (horigin k φ _ hk hprior)
  | refusedEarly => exact .stays rfl
  | closeBegun => exact .stays rfl
  | closed hk M =>
      rcases M.word with hword | ⟨-, hword⟩
      · exact .stays hword
      · exact .closes hword
  | event error read hio => exact .stays rfl
  | io M =>
      cases M.liveMove with
      | keeps hword => exact .stays hword
      | enters hword => exact .stays hword
      | leaves hword hbefore hafter hstate =>
          rcases hstate with hconnected | hlosing
          · exact .loses hconnected hword
          · rcases hw.live hbefore with hconnected | hclosed
            · exact .loses hconnected hword
            · exact ((h hclosed).2.2 hlosing).elim
  | callback M => exact .stays M.frame.1

theorem StateMove.closed {origin : Option ConnectionState} {word word' : ConnectionState}
    (M : StateMove origin word word') (h : word = .closed) : word' = .closed := by
  subst h
  cases M with
  | stays h => exact h
  | claims h => rcases h with h | h <;> cases h
  | connects h => cases h
  | rollsBack h => cases h
  | loses h => cases h
  | closes h' => exact h'

/-- What is known along a run whose steps are all clear. -/
structure ClearFacts (before : List Action) (s : State) : Prop where
  word : Word s
  noStore : s.state = .closed → NoStore s
  origin : ∀ (k : Nat) (φ : ConnectPhase) (p : ConnectionState), s.connects[k]? = some φ →
    φ.prior = some p → claimedFrom before = some p

theorem ClearFacts.init : ClearFacts [] init where
  word := Word.init
  noStore := by intro h; cases h
  origin := by simp [Http2Transport.init]

theorem ClearFacts.step {before : List Action}
    (hrun : Machine.run Http2Transport.step Http2Transport.init before = some s)
    (h : ClearFacts before s) (hclear : ClosesClear s a)
    (hstep : Http2Transport.step s a = some s') : ClearFacts (before ++ [a]) s' := by
  refine ⟨h.word.step hstep, noStore_step h.word h.noStore hclear hstep, ?_⟩
  intro k φ p hk hp
  unfold claimedFrom
  rw [Machine.trace_snoc claims hrun hstep]
  cases step_origin h.word hstep with
  | kept hclaim hpriors =>
      obtain ⟨φ', hk', hp'⟩ := hpriors k φ p hk hp
      rw [hclaim, Option.toList_none, List.append_nil]
      exact h.origin k φ' p hk' hp'
  | claimed hclaim hpriors =>
      rw [hclaim, Option.toList_some, List.getLast?_concat, hpriors k φ p hk hp]

/-- What a later `Connect` or `Send` can have come to. -/
structure Refused (s σ : State) : Prop where
  closed : σ.state = .closed
  connects : ∀ k : Nat, σ.connects[k]? = some (.returned .connected) →
    s.connects[k]? = some (.returned .connected)
  sends : ∀ (k : Nat) (φ : SendPhase), σ.sends[k]? = some φ →
    (∀ ψ, s.sends[k]? = some ψ → ∃ payload, ψ = .checking payload) →
    (∃ payload, φ = .checking payload) ∨ φ = .returned 0

theorem Refused.refl (h : s.state = .closed) : Refused s s where
  closed := h
  connects := fun _ hk => hk
  sends := fun _ φ hk hbefore => Or.inl (hbefore φ hk)

/-- Under a closed word no `Connect` ends with success. -/
theorem connect_refused {σ σ' : State} {k : Nat} (hclosed : σ.state = .closed) (hstore : NoStore σ)
    (hstep : step σ a = some σ') (hk : σ'.connects[k]? = some (.returned .connected)) :
    σ.connects[k]? = some (.returned .connected) := by
  cases step_spec hstep with
  | sendBegun => exact hk
  | sent _ M => exact M.frame.2.1 ▸ hk
  | cancelled =>
      unfold cancel at hk
      split at hk
      · exact hk
      · exact hk
  | connectBegun opts =>
      have hpush := Threads.forall_push (l := σ.connects) (φ := .claiming opts)
        (P := fun j φ => φ = .returned .connected → σ.connects[j]? = some (.returned .connected))
        (by intro h; cases h) (fun j φ hj hφ => hφ ▸ hj)
      exact hpush k _ hk rfl
  | @connected j ok φ t ψ hj M =>
      have hψ : ψ ≠ .returned .connected := by
        intro hψ
        cases M.slotMove with
        | keeps _ _ _ hafter => exact hafter hψ
        | claims _ _ _ hholds =>
            rw [hψ] at hholds
            cases hholds
        | publishes _ hbefore =>
            subst hbefore
            exact holder_open (fun _ => hstore) hj rfl hclosed
        | restores _ _ hafter =>
            rw [hafter] at hψ
            cases hψ
      have hset := Threads.forall_set (l := σ.connects) (k := j) (φ := ψ)
        (P := fun i φ => φ = .returned .connected → σ.connects[i]? = some (.returned .connected))
        (fun h => (hψ h).elim) (fun i φ _ hi hφ => hφ ▸ hi)
      exact hset k _ hk rfl
  | refusedEarly => exact hk
  | closeBegun => exact hk
  | closed _ M => exact M.frame.1 ▸ hk
  | event => exact hk
  | io M => exact M.frame.1 ▸ hk
  | callback M => exact M.frame.2.1 ▸ hk

/-- Under a closed word a `Send` that has yet to check the word is refused. -/
theorem send_refused {σ σ' : State} {k : Nat} {ψ : SendPhase} (hclosed : σ.state = .closed)
    (hstep : step σ a = some σ') (hk : σ'.sends[k]? = some ψ)
    (hbefore : ∀ φ, σ.sends[k]? = some φ → (∃ payload, φ = .checking payload) ∨ φ = .returned 0) :
    (∃ payload, ψ = .checking payload) ∨ ψ = .returned 0 := by
  cases step_spec hstep with
  | sendBegun payload =>
      have hpush := Threads.forall_push (l := σ.sends) (φ := .checking payload)
        (P := fun j φ => j = k → (∃ payload, φ = .checking payload) ∨ φ = .returned 0)
        (fun _ => Or.inl ⟨payload, rfl⟩) (fun j φ hj hjk => hbefore φ (hjk ▸ hj))
      exact hpush k ψ hk rfl
  | @sent j φ t χ hj M =>
      have hmoved : j = k → (∃ payload, χ = .checking payload) ∨ χ = .returned 0 := by
        rintro rfl
        rcases hbefore φ hj with ⟨payload, rfl⟩ | rfl
        · cases M with
          | passed hconnected =>
              rw [hconnected] at hclosed
              cases hclosed
          | notConnected => exact Or.inr rfl
        · cases M
      have hset := Threads.forall_set (l := σ.sends) (k := j) (φ := χ)
        (P := fun i φ => i = k → (∃ payload, φ = .checking payload) ∨ φ = .returned 0)
        hmoved (fun i φ _ hi hik => hbefore φ (hik ▸ hi))
      exact hset k ψ hk rfl
  | cancelled =>
      unfold cancel at hk
      split at hk
      · exact hbefore ψ hk
      · exact hbefore ψ hk
  | connectBegun => exact hbefore ψ hk
  | connected _ M => exact hbefore ψ (M.frame.2.2.2 ▸ hk)
  | refusedEarly => exact hbefore ψ hk
  | closeBegun => exact hbefore ψ hk
  | closed _ M => exact hbefore ψ (M.frame.2.2 ▸ hk)
  | event => exact hbefore ψ hk
  | io M => exact hbefore ψ (M.frame.2.2.2 ▸ hk)
  | callback M => exact hbefore ψ (M.frame.2.2.2.2.2 ▸ hk)

theorem Refused.step {σ σ' : State} {before : List Action} (h : Refused s σ)
    (hfacts : ClearFacts before σ) (hstep : Http2Transport.step σ a = some σ') : Refused s σ' where
  closed := (step_stateMove hfacts.word hfacts.noStore hfacts.origin hstep).closed h.closed
  connects k hk := h.connects k (connect_refused h.closed (hfacts.noStore h.closed) hstep hk)
  sends k _ hk hbefore := send_refused h.closed hstep hk fun φ hφ => h.sends k φ hφ hbefore

theorem clearFacts_run {actions : List Action} {σ : State}
    (hclear : ∀ before a after s, actions = before ++ a :: after →
      Machine.run step init before = some s → ClosesClear s a)
    (hrun : Machine.run step init actions = some σ) : ClearFacts actions σ := by
  refine @Machine.run_history _ _ step (fun _ s a => ClosesClear s a) ClearFacts init σ actions
    ClearFacts.init ?_ hclear hrun
  intro before a s₁ s₂ hbefore hfacts hok hstep
  exact hfacts.step hbefore hok hstep

/-- When `Close` publishes into no window before a plain store, the word stays
`Closed` from then on, whatever checks it after that is refused, and up to then
it makes no other move than those of the design. -/
theorem closed_final (actions : List Action) (σ : State)
    (hrun : Machine.run step init actions = some σ)
    (hclear : ∀ before a after s, actions = before ++ a :: after →
      Machine.run step init before = some s → ClosesClear s a) :
    (∀ before after s, actions = before ++ after → Machine.run step init before = some s →
      s.state = .closed → Refused s σ) ∧
    (∀ before a after s s', actions = before ++ a :: after →
      Machine.run step init before = some s → step s a = some s' →
      StateMove (claimedFrom before) s.state s'.state) := by
  have hprefix : ∀ before after s, actions = before ++ after →
      Machine.run step init before = some s → ClearFacts before s := by
    intro before after s hsplit hbefore
    apply clearFacts_run _ hbefore
    intro b a c s' hb hs'
    apply hclear b a (c ++ after) s' _ hs'
    rw [hsplit, hb, List.append_assoc, List.cons_append]
  constructor
  · intro before after s hsplit hbefore hclosed
    have hjoin : ∀ b, Machine.run step init (before ++ b) = Machine.run step s b := by
      intro b
      rw [Machine.run_append, hbefore]
      rfl
    rw [hsplit, hjoin] at hrun
    refine @Machine.run_history _ _ step (fun b s₁ _ => ClearFacts (before ++ b) s₁)
      (fun _ σ => Refused s σ) s σ after (.refl hclosed) ?_ ?_ hrun
    · intro b a s₁ s₂ _ hrefused hfacts hstep
      exact hrefused.step hfacts hstep
    · intro b a c s₁ hb hs₁
      apply hprefix (before ++ b) (a :: c) s₁
      · rw [hsplit, hb, List.append_assoc]
      · rw [hjoin]
        exact hs₁
  · intro before a after s s' hsplit hbefore hstep
    have hfacts := hprefix before (a :: after) s hsplit hbefore
    exact step_stateMove hfacts.word hfacts.noStore hfacts.origin hstep

/-- `Close` while a `Connect` is between its claim and its last store. -/
def closeUnderConnect : List Action :=
  [.connect {}, .advanceConnect 0 true, .close, .advanceClose 0]

/-- The rest of that `Connect`. -/
def connectGoesOn : List Action := List.replicate 5 (.advanceConnect 0 true)

theorem reopened : ¬ ∀ before after s σ, Machine.run step init before = some s →
    s.state = .closed → Machine.run step init (before ++ after) = some σ → σ.state = .closed := by
  intro hclaim
  have hword : (Machine.run step init closeUnderConnect).map State.state = some .closed := by
    decide +kernel
  have hword' : (Machine.run step init (closeUnderConnect ++ connectGoesOn)).map State.state =
      some .connected := by
    decide +kernel
  obtain ⟨s, hbefore, hclosed⟩ := Option.map_eq_some_iff.mp hword
  obtain ⟨σ, hrun, hconnected⟩ := Option.map_eq_some_iff.mp hword'
  have hstill := hclaim closeUnderConnect connectGoesOn s σ hbefore hclosed hrun
  rw [hconnected] at hstill
  cases hstill

/-- A connection that is made, lost, made again and closed. -/
def connectLoseClose : List Action :=
  [.connect {}, .advanceConnect 0 true, .advanceConnect 0 true, .advanceConnect 0 true,
    .advanceConnect 0 true, .advanceConnect 0 true, .advanceConnect 0 true,
    .advanceIo true 1, .event true false, .advanceIo true 1, .advanceIo true 1, .advanceIo true 1,
    .connect {}, .advanceConnect 1 true, .advanceConnect 1 true, .advanceConnect 1 true,
    .advanceConnect 1 true, .advanceConnect 1 true, .advanceConnect 1 true, .advanceConnect 1 true,
    .close, .advanceClose 0]

def lateSend : List Action := [.send ⟨0, 1⟩, .advanceSend 0]

theorem closed_final_reconnected :
    ∃ s σ, Machine.run step init connectLoseClose = some s ∧ s.state = .closed ∧
      Machine.run step init (connectLoseClose ++ lateSend) = some σ ∧ σ.state = .closed ∧
      σ.sends = [.returned 0] := by
  have hword : (Machine.run step init connectLoseClose).map State.state = some .closed := by
    decide +kernel
  have hsend : (Machine.run step init (connectLoseClose ++ lateSend)).map State.sends =
      some [.returned 0] := by
    decide +kernel
  have hclear : Machine.throughout step ClosesClear init (connectLoseClose ++ lateSend) = true := by
    decide +kernel
  obtain ⟨s, hbefore, hclosed⟩ := Option.map_eq_some_iff.mp hword
  obtain ⟨σ, hrun, hσ⟩ := Option.map_eq_some_iff.mp hsend
  obtain ⟨hfinal, -⟩ := closed_final _ σ hrun (Machine.throughout_sound hclear)
  have hrefused := hfinal connectLoseClose lateSend s rfl hbefore hclosed
  exact ⟨s, σ, hbefore, hclosed, hrun, hrefused.closed, hσ⟩

end Microtel.Transport.Http2Transport
