import Microtel.Transport.Http2Answers

/-!
Cancelled requests. A cancelled handle is in the cancel queue, or the loop is
about to reset its stream, or its request is settled: provided that the loop
takes no cancel while the request itself still waits in the other queue, and
that the reset it submits closes the stream.
-/

namespace Microtel.Transport.Http2Transport

variable {s s' t : State} {a : Action} {id : Nat}

/-- Neither waiting nor with a stream. -/
def Settled (s : State) (id : Nat) : Prop := ∀ r ∈ requestsAt s s.io, r.handleId ≠ id

def NotPending (s : State) (id : Nat) : Prop := ∀ r ∈ s.pendingQueue, r.handleId ≠ id

/-- Among the handles the loop has taken and not yet dealt with. -/
def Taken (s : State) (id : Nat) : IoPhase → Prop
  | .cancelling l => id ∈ l
  | .resetting streamId l => id ∈ l ∨ s.tables.streamOf id = some streamId
  | _ => False

/-- Settled, or about to be. -/
def Underway (s : State) (id : Nat) : Prop := Settled s id ∨ NotPending s id ∧ Taken s id s.io

/-- When the loop swaps the cancel queue no request of a handle in it waits in the
pending queue, and a reset has closed its stream when nghttp2 returns. -/
def CancelClear (s : State) : IoPhase → Prop
  | .swappingCancels => ∀ id ∈ s.cancelQueue, ∀ r ∈ s.pendingQueue, r.handleId ≠ id
  | .resetting streamId _ => s.tables.find streamId = none
  | _ => True

def CancelsClear (s : State) : Action → Prop
  | .advanceIo _ _ => CancelClear s s.io
  | _ => True

/-- A handle some `Send` has returned. -/
def Issued (s : State) (id : Nat) : Prop := id ≠ 0 ∧ ∃ k : Nat, s.sends[k]? = some (.returned id)

/-! ### Requests only come by a push -/

theorem returned_step {k : Nat} (h : s.sends[k]? = some (.returned id))
    (hstep : step s a = some s') :
    s'.sends[k]? = some (.returned id) := by
  cases step_spec hstep with
  | sendBegun => exact Threads.push_old h
  | @sent j φ t ψ hj M =>
      have hkj : k ≠ j := by
        rintro rfl
        rw [h] at hj
        exact M.running id (Option.some.inj hj).symm
      dsimp only
      rw [Threads.set_other hkj]
      exact h
  | cancelled hk =>
      unfold cancel
      split
      · exact h
      · exact h
  | connectBegun | refusedEarly | closeBegun | event => exact h
  | connected hk M => exact M.frame.2.2.2 ▸ h
  | closed hk M => exact M.frame.2.2 ▸ h
  | io M => exact M.frame.2.2.2 ▸ h
  | callback M => exact M.frame.2.2.2.2.2 ▸ h

theorem Issued.step (h : Issued s id) (hstep : step s a = some s') : Issued s' id := by
  obtain ⟨hne, k, hk⟩ := h
  exact ⟨hne, k, returned_step hk hstep⟩

/-- A request after the step was there before, or a `Send` was about to push it. -/
theorem requests_step (h : Requests s) (hstep : step s a = some s') :
    (∀ r ∈ requestsAt s' s'.io, r ∈ requestsAt s s.io ∨
      ∃ (k : Nat) (payload : PayloadSpan), s.sends[k]? = some (.pushing payload r.handleId)) ∧
    (∀ r ∈ s'.pendingQueue, r ∈ s.pendingQueue ∨
      ∃ (k : Nat) (payload : PayloadSpan), s.sends[k]? = some (.pushing payload r.handleId)) := by
  have hsame : (∀ r ∈ requestsAt s' s'.io, r ∈ requestsAt s s.io) →
      (∀ r ∈ s'.pendingQueue, r ∈ s.pendingQueue) →
      (∀ r ∈ requestsAt s' s'.io, r ∈ requestsAt s s.io ∨
        ∃ (k : Nat) (payload : PayloadSpan), s.sends[k]? = some (.pushing payload r.handleId)) ∧
      (∀ r ∈ s'.pendingQueue, r ∈ s.pendingQueue ∨
        ∃ (k : Nat) (payload : PayloadSpan), s.sends[k]? = some (.pushing payload r.handleId)) :=
    fun hrequests hpending =>
      ⟨fun r hr => Or.inl (hrequests r hr), fun r hr => Or.inl (hpending r hr)⟩
  cases step_spec hstep with
  | sendBegun | connectBegun | closeBegun => exact hsame (fun _ hr => hr) (fun _ hr => hr)
  | @sent k φ t ψ hk M =>
      cases M with
      | passed | notConnected | numbered | full => exact hsame (fun _ hr => hr) (fun _ hr => hr)
      | @pushed payload handle =>
          have hpending : ∀ r ∈ s.pendingQueue ++ [⟨payload, k, handle⟩], r ∈ s.pendingQueue ∨
              ∃ (k : Nat) (payload : PayloadSpan),
                s.sends[k]? = some (.pushing payload r.handleId) := by
            intro r hr
            rcases List.mem_append.mp hr with hold | hnew
            · exact Or.inl hold
            · cases List.mem_singleton.mp hnew
              exact Or.inr ⟨k, payload, hk⟩
          refine ⟨?_, hpending⟩
          intro r hr
          rw [mem_requestsAt] at hr ⊢
          rcases hr with hr | hr | hr
          · exact (hpending r hr).imp_left Or.inl
          · exact Or.inl (Or.inr (Or.inl hr))
          · exact Or.inl (Or.inr (Or.inr hr))
  | cancelled hk =>
      unfold cancel at hsame ⊢
      split
      · next hid =>
        rw [if_pos hid] at hsame
        exact hsame (fun _ hr => hr) (fun _ hr => hr)
      · next hid =>
        rw [if_neg hid] at hsame
        exact hsame (fun _ hr => hr) (fun _ hr => hr)
  | connected hk M => cases M <;> exact hsame (fun _ hr => hr) (fun _ hr => hr)
  | refusedEarly lastStreamId errorCode =>
      have C := StreamTables.refuseStreamsAbove_completes h.paired lastStreamId
        (goawayDetail lastStreamId errorCode)
      exact hsame (tables_requests (s := s) (t := onGoaway s lastStreamId errorCode) rfl h.paired
        (Or.inl C) s.io).1 (fun _ hr => hr)
  | closed hk M =>
      apply hsame
      · dsimp only
        rw [M.frame.2.1]
        exact M.requests.1
      · cases M with
        | again | closed | stopped | waited | joined | abandoned | tornDown => exact fun _ hr => hr
        | swept => exact fun _ hr => nomatch hr
  | event error read hio =>
      apply hsame _ (fun _ hr => hr)
      intro r hr
      unfold requestsAt at hr ⊢
      rw [hio]
      exact hr
  | io M =>
      apply hsame M.requests
      generalize s.io = φ at M
      cases M with
      | swappedPending => exact fun _ hr => nomatch hr
      | _ => exact fun _ hr => hr
  | callback M =>
      have hpending : s'.pendingQueue = s.pendingQueue := by cases M <;> rfl
      apply hsame
      · rw [M.frame.2.2.1]
        exact (tables_requests hpending h.paired (M.streams h.paired) s.io).1
      · rw [hpending]
        exact fun _ hr => hr

/-- A handle that was returned is not about to be pushed. -/
theorem Issued.not_pushing (h : Issued s id) (hn : Numbered s) {k : Nat} {payload : PayloadSpan} :
    s.sends[k]? ≠ some (.pushing payload id) := by
  intro hk
  obtain ⟨hne, j, hj⟩ := h
  have hjk : j = k := hn.distinct j k _ _ hj hk rfl hne
  rw [hjk, hk] at hj
  cases hj

theorem Settled.step (hs : Settled s id) (h : Requests s) (hissued : Issued s id)
    (hstep : step s a = some s') : Settled s' id := by
  rintro r hr rfl
  rcases (requests_step h hstep).1 r hr with hold | ⟨k, payload, hk⟩
  · exact hs r hold rfl
  · exact hissued.not_pushing h.numbered hk

theorem NotPending.step (hs : NotPending s id) (h : Requests s) (hissued : Issued s id)
    (hstep : step s a = some s') : NotPending s' id := by
  rintro r hr rfl
  rcases (requests_step h hstep).2 r hr with hold | ⟨k, payload, hk⟩
  · exact hs r hold rfl
  · exact hissued.not_pushing h.numbered hk

/-! ### What was taken is dealt with -/

/-- No step but one of the I/O thread gives a handle another stream. -/
theorem streamOf_step (h : Requests s) (hstep : step s a = some s')
    (hio : ∀ ok streamId, a ≠ .advanceIo ok streamId) (id : Nat) :
    s'.tables.streamOf id = s.tables.streamOf id ∨ s'.tables.streamOf id = none := by
  cases step_spec hstep with
  | sendBegun | connectBegun | closeBegun | event => exact Or.inl rfl
  | sent hk M => cases M <;> exact Or.inl rfl
  | cancelled hk =>
      unfold cancel
      split <;> exact Or.inl rfl
  | connected hk M =>
      dsimp only
      rw [M.tables.1]
      exact Or.inl rfl
  | refusedEarly lastStreamId errorCode =>
      exact (StreamTables.refuseStreamsAbove_completes h.paired _ _).streamOf id
  | closed hk M =>
      cases M with
      | again | closed | stopped | waited | joined | tornDown => exact Or.inl rfl
      | abandoned => exact Or.inr rfl
      | swept =>
          left
          unfold StreamTables.streamOf sweepPending
          dsimp only
          rw [(sweepPending_tables s.pendingQueue s.tables).2.1]
  | io M => exact (hio _ _ rfl).elim
  | callback M =>
      rcases M.streams h.paired with C | U
      · exact C.streamOf id
      · left
        unfold StreamTables.streamOf
        rw [U.handles]

/-- A handle that does not wait and has no stream is settled. -/
theorem settled_of_no_stream (h : Requests s) (hpending : NotPending s id) (hheld : s.io.held = [])
    (hstream : s.tables.streamOf id = none) : Settled s id := by
  rintro r hr rfl
  rcases mem_requestsAt.mp hr with hr | hr | ⟨⟨streamId, state⟩, hentry, rfl⟩
  · exact hpending r hr rfl
  · rw [hheld] at hr
    cases hr
  · have hopen := (h.paired.inverse state.handleId streamId).mpr
      ⟨state, h.paired.find_of_mem hentry, rfl⟩
    exact nomatch hopen.symm.trans hstream

theorem io_step (hstep : step s a = some s') (hio : ∀ ok streamId, a ≠ .advanceIo ok streamId) :
    s'.io = s.io ∨ s.io = .waiting := by
  cases step_spec hstep with
  | sendBegun | connectBegun | closeBegun | refusedEarly => exact Or.inl rfl
  | sent hk M => exact Or.inl M.frame.2.2.1
  | cancelled hk =>
      left
      unfold cancel
      split <;> rfl
  | connected hk M => exact Or.inl M.frame.1
  | closed hk M => exact Or.inl M.frame.2.1
  | event error read hwaiting => exact Or.inr hwaiting
  | io M => exact (hio _ _ rfl).elim
  | callback M => exact Or.inl M.frame.2.2.1

theorem Taken.held {φ : IoPhase} (h : Taken s id φ) : φ.held = [] := by
  cases φ with
  | cancelling | resetting => rfl
  | _ => cases h

/-- The loop's own steps on the handles it has taken. -/
theorem Taken.advance (h : Requests s) {ok : Bool} {ψ : IoPhase} (hpending : NotPending s id)
    (htaken : Taken s id s.io) (hclear : CancelClear s s.io) (M : IoMoves s ok s.io t ψ) :
    Settled s id ∨ Taken t id ψ := by
  have hheld := htaken.held
  generalize hφ : s.io = φ at M htaken hclear hheld
  cases M with
  | @unknown head rest hnone =>
      rcases List.mem_cons.mp htaken with rfl | hrest
      · exact Or.inl (settled_of_no_stream h hpending (hφ ▸ hheld) hnone)
      · exact Or.inr hrest
  | @found head rest streamId hsome =>
      rcases List.mem_cons.mp htaken with rfl | hrest
      · exact Or.inr (Or.inr hsome)
      · exact Or.inr (Or.inl hrest)
  | @reset streamId rest =>
      rcases htaken with hrest | hstream
      · exact Or.inr hrest
      · obtain ⟨state, hfind, -⟩ := (h.paired.inverse id streamId).mp hstream
        rw [hclear] at hfind
        cases hfind
  | cancelledAll => cases htaken
  | _ => cases htaken

theorem Underway.step (hu : Underway s id) (h : Requests s) (hissued : Issued s id)
    (hclear : CancelsClear s a) (hstep : Http2Transport.step s a = some s') : Underway s' id := by
  have h' := h.step hstep
  rcases hu with hsettled | ⟨hpending, htaken⟩
  · exact Or.inl (hsettled.step h hissued hstep)
  · have hpending' := hpending.step h hissued hstep
    by_cases hio : ∃ ok streamId, a = .advanceIo ok streamId
    · obtain ⟨ok, streamId, rfl⟩ := hio
      cases hspec : step_spec hstep with
      | @io _ _ t ψ M =>
          rcases Taken.advance h hpending htaken hclear M with hsettled | htaken'
          · exact Or.inl (hsettled.step h hissued hstep)
          · refine Or.inr ⟨hpending', ?_⟩
            cases ψ with
            | cancelling => exact htaken'
            | resetting => exact htaken'
            | _ => cases htaken'
    · have hother : ∀ ok streamId, a ≠ .advanceIo ok streamId :=
        fun ok streamId ha => hio ⟨ok, streamId, ha⟩
      have hsame : s'.io = s.io := by
        rcases io_step hstep hother with hsame | hwaiting
        · exact hsame
        · rw [hwaiting] at htaken
          cases htaken
      rcases streamOf_step h hstep hother id with hstream | hnone
      · refine Or.inr ⟨hpending', ?_⟩
        rw [hsame]
        generalize s.io = φ at htaken
        cases φ with
        | cancelling => exact htaken
        | resetting =>
            unfold Taken
            rw [hstream]
            exact htaken
        | _ => cases htaken
      · left
        apply settled_of_no_stream h' hpending' _ hnone
        rw [hsame]
        exact htaken.held

/-! ### The drain -/

/-- Whether the loop is between the swap of the cancel queue and its end. -/
def IoPhase.drainsCancels : IoPhase → Bool
  | .cancelling _ | .resetting _ _ => true
  | _ => false

structure CancelFacts (s : State) : Prop where
  requests : Requests s
  issued : ∀ id ∈ s.cancels, Issued s id
  placed : ∀ id ∈ s.cancels, id ∈ s.cancelQueue ∨ Underway s id
  swapped : ∀ id ∈ s.atSwap, id ∈ s.cancels ∧ (s.io.drainsCancels = true → Underway s id)
  drained : ∀ id ∈ s.drained, id ∈ s.cancels ∧ Settled s id

theorem CancelFacts.init : CancelFacts init where
  requests := Requests.init
  issued := by intro id h; cases h
  placed := by intro id h; cases h
  swapped := by intro id h; cases h
  drained := by intro id h; cases h

/-- What a step does to the cancelled handles. -/
inductive CancelMove (s : State) (a : Action) (s' : State) : Prop
  | kept (hcancels : s'.cancels = s.cancels) (hqueue : s'.cancelQueue = s.cancelQueue)
      (hswap : s'.atSwap = s.atSwap) (hdrained : s'.drained = s.drained)
      (hdrains : s'.io.drainsCancels = true → s.io.drainsCancels = true)
  | added {handle : Nat} (hissued : Issued s handle) (hcancels : s'.cancels = s.cancels ++ [handle])
      (hqueue : s'.cancelQueue = s.cancelQueue ++ [handle]) (hswap : s'.atSwap = s.atSwap)
      (hdrained : s'.drained = s.drained) (hio : s'.io = s.io)
  | swappedPending (hcancels : s'.cancels = s.cancels) (hqueue : s'.cancelQueue = s.cancelQueue)
      (hswap : s'.atSwap = s.cancels) (hdrained : s'.drained = s.drained)
      (hdrains : s'.io.drainsCancels = false)
  | swappedCancels {ok : Bool} {streamId : Nat} (ha : a = .advanceIo ok streamId)
      (hbefore : s.io = .swappingCancels) (hcancels : s'.cancels = s.cancels)
      (hswap : s'.atSwap = s.atSwap) (hdrained : s'.drained = s.drained)
      (hio : s'.io = .cancelling s.cancelQueue) (hpending : s'.pendingQueue = s.pendingQueue)
  | finished (hbefore : s.io = .cancelling []) (hcancels : s'.cancels = s.cancels)
      (hqueue : s'.cancelQueue = s.cancelQueue) (hswap : s'.atSwap = s.atSwap)
      (hdrained : s'.drained = s.atSwap) (hdrains : s'.io.drainsCancels = false)

theorem IoMoves.cancelMove {ok : Bool} {ψ : IoPhase} (M : IoMoves s ok s.io t ψ)
    (streamId : Nat) : CancelMove s (.advanceIo ok streamId) { t with io := ψ } := by
  generalize hio : s.io = φ at M
  cases M with
  | swappedPending => exact .swappedPending rfl rfl rfl rfl rfl
  | swappedCancels => exact .swappedCancels rfl hio rfl rfl rfl rfl rfl
  | cancelledAll => exact .finished hio rfl rfl rfl rfl rfl
  | unknown => exact .kept rfl rfl rfl rfl (fun _ => hio ▸ rfl)
  | found => exact .kept rfl rfl rfl rfl (fun _ => hio ▸ rfl)
  | reset => exact .kept rfl rfl rfl rfl (fun _ => hio ▸ rfl)
  | @busy inLoop => cases inLoop <;> exact .kept rfl rfl rfl rfl (by intro h; cases h)
  | @retired inLoop => cases inLoop <;> exact .kept rfl rfl rfl rfl (by intro h; cases h)
  | @overtaken inLoop => cases inLoop <;> exact .kept rfl rfl rfl rfl (by intro h; cases h)
  | stopped | dispatching | dispatched | ignored | errored | readable | writable | abandoned | lost
  | received | broken | idle | flushed | gated | skipped | submittedAll | submitted | submitFailed
  | sent => exact .kept rfl rfl rfl rfl (by intro h; cases h)

theorem step_cancelMove (hstep : step s a = some s') : CancelMove s a s' := by
  cases step_spec hstep with
  | sendBegun | connectBegun | closeBegun | refusedEarly =>
      exact .kept rfl rfl rfl rfl (fun h => h)
  | sent hk M => cases M <;> exact .kept rfl rfl rfl rfl (fun h => h)
  | @cancelled k id hk =>
      unfold cancel
      split
      · exact .kept rfl rfl rfl rfl (fun h => h)
      · next hid => exact .added ⟨hid, k, hk⟩ rfl rfl rfl rfl rfl
  | connected hk M => cases M <;> exact .kept rfl rfl rfl rfl (fun h => h)
  | closed hk M => cases M <;> exact .kept rfl rfl rfl rfl (fun h => h)
  | event => exact .kept rfl rfl rfl rfl (by intro h; cases h)
  | io M => exact M.cancelMove _
  | callback M => cases M <;> exact .kept rfl rfl rfl rfl (fun h => h)

theorem CancelFacts.step (h : CancelFacts s) (hclear : CancelsClear s a)
    (hstep : Http2Transport.step s a = some s') : CancelFacts s' := by
  have hissued : ∀ id ∈ s.cancels, Issued s' id := fun id hid => (h.issued id hid).step hstep
  have hunderway : ∀ id ∈ s.cancels, Underway s id → Underway s' id :=
    fun id hid hu => hu.step h.requests (h.issued id hid) hclear hstep
  have hsettled : ∀ id ∈ s.cancels, Settled s id → Settled s' id :=
    fun id hid hs => hs.step h.requests (h.issued id hid) hstep
  have hdrained : ∀ id ∈ s.drained, id ∈ s.cancels ∧ Settled s' id :=
    fun id hid => ⟨(h.drained id hid).1, hsettled id (h.drained id hid).1 (h.drained id hid).2⟩
  have hrequests := h.requests.step hstep
  cases step_cancelMove hstep with
  | kept hcancels hqueue hswap hdrain hdrains =>
      refine ⟨hrequests, ?_, ?_, ?_, ?_⟩
      · rw [hcancels]
        exact hissued
      · rw [hcancels, hqueue]
        exact fun id hid => (h.placed id hid).imp_right (hunderway id hid)
      · rw [hcancels, hswap]
        intro id hid
        obtain ⟨hmem, hdrains'⟩ := h.swapped id hid
        exact ⟨hmem, fun hafter => hunderway id hmem (hdrains' (hdrains hafter))⟩
      · rw [hcancels, hdrain]
        exact hdrained
  | @added handle hnew hcancels hqueue hswap hdrain hio =>
      refine ⟨hrequests, ?_, ?_, ?_, ?_⟩
      · rw [hcancels]
        intro id hid
        rcases List.mem_append.mp hid with hold | hid
        · exact hissued id hold
        · rw [List.mem_singleton.mp hid]
          exact hnew.step hstep
      · rw [hcancels, hqueue]
        intro id hid
        rcases List.mem_append.mp hid with hold | hid
        · exact (h.placed id hold).imp (List.mem_append_left _) (hunderway id hold)
        · exact Or.inl (List.mem_append_right _ hid)
      · rw [hcancels, hswap, hio]
        intro id hid
        obtain ⟨hmem, hdrains⟩ := h.swapped id hid
        exact ⟨List.mem_append_left _ hmem, fun hafter => hunderway id hmem (hdrains hafter)⟩
      · rw [hcancels, hdrain]
        exact fun id hid => ⟨List.mem_append_left _ (hdrained id hid).1, (hdrained id hid).2⟩
  | swappedPending hcancels hqueue hswap hdrain hdrains =>
      refine ⟨hrequests, ?_, ?_, ?_, ?_⟩
      · rw [hcancels]
        exact hissued
      · rw [hcancels, hqueue]
        exact fun id hid => (h.placed id hid).imp_right (hunderway id hid)
      · rw [hcancels, hswap]
        intro id hid
        refine ⟨hid, fun hafter => ?_⟩
        rw [hdrains] at hafter
        cases hafter
      · rw [hcancels, hdrain]
        exact hdrained
  | swappedCancels ha hbefore hcancels hswap hdrain hio hpending =>
      -- what was in the queue is taken, and by the condition does not wait
      have hwaits : ∀ id ∈ s.cancelQueue, NotPending s id := by
        rw [ha] at hclear
        unfold CancelsClear at hclear
        rw [hbefore] at hclear
        exact hclear
      have htaken : ∀ id ∈ s.cancels, Underway s' id := by
        intro id hid
        rcases h.placed id hid with hqueued | hu
        · refine Or.inr ⟨?_, ?_⟩
          · unfold NotPending
            rw [hpending]
            exact hwaits id hqueued
          · rw [hio]
            exact hqueued
        · exact hunderway id hid hu
      refine ⟨hrequests, ?_, ?_, ?_, ?_⟩
      · rw [hcancels]
        exact hissued
      · rw [hcancels]
        exact fun id hid => Or.inr (htaken id hid)
      · rw [hcancels, hswap]
        intro id hid
        obtain ⟨hmem, -⟩ := h.swapped id hid
        exact ⟨hmem, fun _ => htaken id hmem⟩
      · rw [hcancels, hdrain]
        exact hdrained
  | finished hbefore hcancels hqueue hswap hdrain hdrains =>
      refine ⟨hrequests, ?_, ?_, ?_, ?_⟩
      · rw [hcancels]
        exact hissued
      · rw [hcancels, hqueue]
        exact fun id hid => (h.placed id hid).imp_right (hunderway id hid)
      · rw [hcancels, hswap]
        intro id hid
        refine ⟨(h.swapped id hid).1, fun hafter => ?_⟩
        rw [hdrains] at hafter
        cases hafter
      · rw [hcancels, hdrain]
        intro id hid
        obtain ⟨hmem, hu⟩ := h.swapped id hid
        refine ⟨hmem, hsettled id hmem ?_⟩
        rcases hu (by rw [hbefore]; rfl) with hs | ⟨-, htaken⟩
        · exact hs
        · rw [hbefore] at htaken
          cases htaken

/-- In every run that is clear for the cancels, a handle whose `Cancel` returned
before the loop began a drain that it has since completed has no stream, and its
future is resolved. -/
theorem cancelled_resolved (actions : List Action) (σ : State)
    (hrun : Machine.run step init actions = some σ)
    (hclear : ∀ before a after s, actions = before ++ a :: after →
      Machine.run step init before = some s → CancelsClear s a) :
    ∀ id ∈ σ.drained, σ.tables.streamOf id = none ∧
      ∃ k : Nat, σ.sends[k]? = some (.returned id) ∧ Answered σ k := by
  have hfacts : CancelFacts σ := @Machine.run_invariant_of _ _ step CancelsClear CancelFacts
    (fun s a s' h hok hstep => h.step hok hstep) init σ actions CancelFacts.init hclear hrun
  intro id hid
  obtain ⟨hcancelled, hsettled⟩ := hfacts.drained id hid
  obtain ⟨-, k, hk⟩ := hfacts.issued id hcancelled
  constructor
  · cases hstream : σ.tables.streamOf id with
    | none => rfl
    | some streamId =>
        obtain ⟨state, hfind, hid⟩ := (hfacts.requests.paired.inverse id streamId).mp hstream
        have hmem : origin (streamId, state) ∈ requestsAt σ σ.io :=
          mem_requestsAt.mpr (Or.inr (Or.inr ⟨_, StreamTables.find_mem hfind, rfl⟩))
        exact (hsettled _ hmem hid).elim
  · refine ⟨k, hk, ?_⟩
    rcases hfacts.requests.place hk with hanswered | ⟨r, hr, hpromise⟩
    · exact hanswered
    · obtain ⟨hreturned, -⟩ := hfacts.requests.numbered.requests r hr
      rw [hpromise, hk] at hreturned
      exact (hsettled r hr (SendPhase.returned.inj (Option.some.inj hreturned)).symm).elim

instance : (s : State) → (φ : IoPhase) → Decidable (CancelClear s φ)
  | s, .swappingCancels =>
      inferInstanceAs (Decidable (∀ id ∈ s.cancelQueue, ∀ r ∈ s.pendingQueue, r.handleId ≠ id))
  | s, .resetting streamId _ => inferInstanceAs (Decidable (s.tables.find streamId = none))
  | _, .looping | _, .waiting | _, .checking _ _ | _, .abandoning | _, .losing | _, .receiving
  | _, .finishing _ | _, .exchanging _ | _, .flushing | _, .gating | _, .swappingPending
  | _, .submitting _ | _, .sending _ | _, .cancelling _ | _, .exited => isTrue trivial

instance : (s : State) → (a : Action) → Decidable (CancelsClear s a)
  | s, .advanceIo _ _ => inferInstanceAs (Decidable (CancelClear s s.io))
  | _, .send _ | _, .advanceSend _ | _, .cancel _ | _, .connect _ | _, .advanceConnect _ _
  | _, .handshakeGoaway _ _ _ | _, .close | _, .advanceClose _ | _, .event _ _ | _, .callback _ =>
      isTrue trivial

/-- A connected transport and a loop that has just begun a drain. -/
def drainBegun : List Action :=
  [.connect {}, .advanceConnect 0 true, .advanceConnect 0 true, .advanceConnect 0 true,
    .advanceConnect 0 true, .advanceConnect 0 true, .advanceConnect 0 true,
    .advanceIo true 1, .advanceIo true 1, .advanceIo true 1, .advanceIo true 1]

/-- A `Send` and its `Cancel` fall between the two swaps of one drain, and the next
drain opens the stream. -/
def cancelBetweenSwaps : List Action :=
  [Action.send ⟨0, 1⟩, .advanceSend 0, .advanceSend 0, .advanceSend 0, .cancel 0] ++
    List.replicate 14 (Action.advanceIo true 1)

theorem cancelled_runs_on : ¬ ∀ actions σ, Machine.run step init actions = some σ →
    ∀ id ∈ σ.drained, σ.tables.streamOf id = none ∧
      ∃ k : Nat, σ.sends[k]? = some (.returned id) ∧ Answered σ k := by
  intro hclaim
  have hend : (Machine.run step init (drainBegun ++ cancelBetweenSwaps)).map
      (fun σ => (σ.drained, σ.tables.streamOf 1)) = some ([1], some 1) := by decide +kernel
  obtain ⟨σ, hrun, hσ⟩ := Option.map_eq_some_iff.mp hend
  simp only [Prod.mk.injEq] at hσ
  obtain ⟨hdrained, hstream⟩ := hσ
  have hclosed := (hclaim _ σ hrun 1 (by rw [hdrained]; exact List.mem_singleton_self 1)).1
  exact nomatch hstream.symm.trans hclosed

/-- A request is cancelled while it waits; the next drain opens its stream and
closes it. -/
def cancelBeforeDrain : List Action :=
  List.replicate 4 (Action.advanceIo true 1) ++
    [Action.send ⟨0, 1⟩, .advanceSend 0, .advanceSend 0, .advanceSend 0, .cancel 0] ++
    List.replicate 9 (Action.advanceIo true 1) ++
    [Action.callback (.streamClose 1 8), .advanceIo true 1, .advanceIo true 1]

theorem cancelled_resolved_beforeDrain :
    ∃ σ, Machine.run step init (drainBegun ++ cancelBeforeDrain) = some σ ∧ σ.drained = [1] ∧
      σ.tables.streamOf 1 = none ∧ ∃ k : Nat, σ.sends[k]? = some (.returned 1) ∧ Answered σ k := by
  have hend : (Machine.run step init (drainBegun ++ cancelBeforeDrain)).map State.drained =
      some [1] := by decide +kernel
  have hclear : Machine.throughout step CancelsClear init (drainBegun ++ cancelBeforeDrain) =
      true := by
    decide +kernel
  obtain ⟨σ, hrun, hdrained⟩ := Option.map_eq_some_iff.mp hend
  obtain ⟨hstream, k, hk, hanswered⟩ :=
    cancelled_resolved _ σ hrun (Machine.throughout_sound hclear) 1
    (by rw [hdrained]; exact List.mem_singleton_self 1)
  exact ⟨σ, hrun, hdrained, hstream, k, hk, hanswered⟩

end Microtel.Transport.Http2Transport
