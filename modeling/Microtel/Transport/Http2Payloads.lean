import Microtel.Transport.Http2Requests

/-!
Which requests have payload bytes left to read: those that wait, and those whose
stream has not come to the end of the payload. No step adds one but the push of a
`Send`.
-/

namespace Microtel.Transport.Http2Transport

variable {s s' t : State} {a : Action}

/-- The request has bytes that nghttp2 may yet ask for. -/
def UnreadAt (s : State) (φ : IoPhase) (r : PendingRequest) : Prop :=
  (r ∈ s.pendingQueue ∨ r ∈ φ.held) ∧ 0 < r.payload.size ∨
    ∃ entry ∈ s.tables.streams, origin entry = r ∧ entry.2.payloadOffset < entry.2.payload.size

/-- The promises of those requests. -/
def unreadPromises (s : State) : List Nat :=
  ((s.pendingQueue ++ s.io.held).filter fun r => 0 < r.payload.size).map PendingRequest.promise ++
    (s.tables.streams.filter fun entry => entry.2.payloadOffset < entry.2.payload.size).map
      fun entry => entry.2.promise

theorem UnreadAt.promise {r : PendingRequest} (h : UnreadAt s s.io r) :
    r.promise ∈ unreadPromises s := by
  unfold unreadPromises
  rcases h with ⟨hwaits, hsize⟩ | ⟨entry, hentry, rfl, hleft⟩
  · apply List.mem_append_left
    apply List.mem_map_of_mem
    exact List.mem_filter.mpr ⟨List.mem_append.mpr hwaits, by simpa using hsize⟩
  · apply List.mem_append_right
    exact List.mem_map.mpr ⟨entry, List.mem_filter.mpr ⟨hentry, by simpa using hleft⟩, rfl⟩

theorem UnreadAt.request {φ : IoPhase} {r : PendingRequest} (h : UnreadAt s φ r) :
    r ∈ requestsAt s φ := by
  rw [mem_requestsAt]
  rcases h with ⟨hwaits, -⟩ | ⟨entry, hentry, horigin, -⟩
  · exact hwaits.imp_right Or.inl
  · exact Or.inr (Or.inr ⟨entry, hentry, horigin⟩)

/-- Fewer unread requests when the queue is kept and every stream was there, with
no more of its payload read. -/
theorem UnreadAt.mono {φ : IoPhase} (hpending : ∀ r ∈ t.pendingQueue, r ∈ s.pendingQueue)
    (hstreams : ∀ entry ∈ t.tables.streams, ∃ old ∈ s.tables.streams, origin old = origin entry ∧
      old.2.payloadOffset ≤ entry.2.payloadOffset)
    {r : PendingRequest} (h : UnreadAt t φ r) : UnreadAt s φ r := by
  rcases h with ⟨hwaits, hsize⟩ | ⟨entry, hentry, rfl, hleft⟩
  · exact Or.inl ⟨hwaits.imp_left (hpending r), hsize⟩
  · obtain ⟨old, hold, horigin, hoffset⟩ := hstreams entry hentry
    refine Or.inr ⟨old, hold, horigin, ?_⟩
    have hpayload : old.2.payload = entry.2.payload := congrArg PendingRequest.payload horigin
    rw [hpayload]
    omega

theorem update_entries {u : StreamTables} {streamId : Nat} {old new : StreamState}
    (hfind : u.find streamId = some old) (horigin : origin (streamId, old) = origin (streamId, new))
    (hoffset : old.payloadOffset ≤ new.payloadOffset) :
    ∀ entry ∈ (u.update streamId new).streams, ∃ before ∈ u.streams, origin before = origin entry ∧
      before.2.payloadOffset ≤ entry.2.payloadOffset := by
  intro entry hentry
  rcases KeyedList.mem_put hentry with rfl | hold
  · exact ⟨_, StreamTables.find_mem hfind, horigin, hoffset⟩
  · exact ⟨entry, hold, rfl, Nat.le_refl _⟩

theorem withHeader_keeps (maxTrailerBytes : Nat) (state : StreamState) (isTrailer : Bool)
    (field : HeaderField) (streamId : Nat) :
    origin (streamId, state) = origin (streamId, withHeader maxTrailerBytes state isTrailer field) ∧
      state.payloadOffset = (withHeader maxTrailerBytes state isTrailer field).payloadOffset := by
  unfold withHeader
  split
  · exact ⟨rfl, rfl⟩
  · split
    · dsimp only
      split <;> exact ⟨rfl, rfl⟩
    · exact ⟨rfl, rfl⟩

theorem withData_keeps (maxResponseBytes : Nat) (state : StreamState) (data : Bytes)
    (streamId : Nat) :
    origin (streamId, state) = origin (streamId, withData maxResponseBytes state data) ∧
      state.payloadOffset = (withData maxResponseBytes state data).payloadOffset := by
  unfold withData
  split
  · exact ⟨rfl, rfl⟩
  · split <;> exact ⟨rfl, rfl⟩

theorem completes_entries {u v : StreamTables} (C : u.Completes v) :
    ∀ entry ∈ v.streams, ∃ before ∈ u.streams, origin before = origin entry ∧
      before.2.payloadOffset ≤ entry.2.payloadOffset :=
  fun entry hentry => ⟨entry, C.mem hentry, rfl, Nat.le_refl _⟩

theorem CallbackMoves.entries {c : Callback} (M : CallbackMoves s c t) (h : s.tables.Paired) :
    ∀ entry ∈ t.tables.streams, ∃ before ∈ s.tables.streams, origin before = origin entry ∧
      before.2.payloadOffset ≤ entry.2.payloadOffset := by
  cases M with
  | header streamId isTrailer field =>
      unfold onResponseHeader
      dsimp only
      split
      · exact completes_entries .refl
      · next state hfind =>
        obtain ⟨horigin, hoffset⟩ :=
          withHeader_keeps s.budgets.maxTrailerBytes state isTrailer field streamId
        exact update_entries hfind horigin (Nat.le_of_eq hoffset)
  | data streamId bytes =>
      unfold onResponseData
      dsimp only
      split
      · exact completes_entries .refl
      · next state hfind =>
        obtain ⟨horigin, hoffset⟩ := withData_keeps s.budgets.maxResponseBytes state bytes streamId
        exact update_entries hfind horigin (Nat.le_of_eq hoffset)
  | streamClose => exact completes_entries (StreamTables.fulfillStream_completes _ _ _)
  | goaway => exact completes_entries (StreamTables.refuseStreamsAbove_completes h _ _)
  | payloadRead length hsending hfind => exact update_entries hfind rfl (Nat.le_add_right _ _)

theorem IoMoves.unread {ok : Bool} {φ ψ : IoPhase} (M : IoMoves s ok φ t ψ) {r : PendingRequest}
    (h : UnreadAt t ψ r) : UnreadAt s φ r := by
  cases M with
  | abandoned =>
      rcases h with hwaits | ⟨entry, hentry, -⟩
      · exact Or.inl hwaits
      · cases hentry
  | @busy inLoop => cases inLoop <;> exact h
  | @retired inLoop => cases inLoop <;> exact h
  | @overtaken inLoop => cases inLoop <;> exact h
  | swappedPending =>
      rcases h with ⟨hwaits, hsize⟩ | hopen
      · rcases hwaits with hnone | hheld
        · cases hnone
        · exact Or.inl ⟨Or.inl hheld, hsize⟩
      · exact Or.inr hopen
  | @submitted req rest n hn =>
      rcases h with ⟨hwaits, hsize⟩ | ⟨entry, hentry, rfl, hleft⟩
      · exact Or.inl ⟨hwaits.imp_right (List.mem_cons_of_mem _), hsize⟩
      · rcases KeyedList.mem_put hentry with rfl | hold
        · exact Or.inl ⟨Or.inr List.mem_cons_self, hleft⟩
        · exact Or.inr ⟨entry, hold, rfl, hleft⟩
  | submitFailed =>
      rcases h with ⟨hwaits, hsize⟩ | hopen
      · exact Or.inl ⟨hwaits.imp_right (List.mem_cons_of_mem _), hsize⟩
      · exact Or.inr hopen
  | stopped | dispatching | dispatched | ignored | errored | readable | writable | lost | received
  | broken | idle | flushed | gated | skipped | submittedAll | sent | swappedCancels | cancelledAll
  | unknown | found | reset => exact h

theorem CloseMoves.unread {φ ψ : ClosePhase} (M : CloseMoves s φ t ψ) {χ : IoPhase}
    {r : PendingRequest} (h : UnreadAt t χ r) : UnreadAt s χ r := by
  cases M with
  | again | closed | stopped | waited | joined | tornDown => exact h
  | abandoned =>
      rcases h with hwaits | ⟨entry, hentry, -⟩
      · exact Or.inl hwaits
      · cases hentry
  | swept =>
      apply UnreadAt.mono _ _ h
      · exact fun _ hr => nomatch hr
      · unfold sweepPending
        dsimp only
        rw [(sweepPending_tables s.pendingQueue s.tables).1]
        exact completes_entries .refl

/-- A request that is unread after a step was so before, or a `Send` has just
pushed it. -/
theorem unread_step (h : s.tables.Paired) (hstep : step s a = some s') {r : PendingRequest}
    (hunread : UnreadAt s' s'.io r) : UnreadAt s s.io r ∨
      s.sends[r.promise]? = some (.pushing r.payload r.handleId) := by
  cases step_spec hstep with
  | sendBegun | connectBegun | closeBegun => exact Or.inl hunread
  | @sent k φ t ψ hk M =>
      cases M with
      | passed | notConnected | numbered | full => exact Or.inl hunread
      | pushed =>
          rcases hunread with ⟨hwaits, hsize⟩ | hopen
          · rcases hwaits with hqueued | hheld
            · rcases List.mem_append.mp hqueued with hold | hnew
              · exact Or.inl (Or.inl ⟨Or.inl hold, hsize⟩)
              · cases List.mem_singleton.mp hnew
                exact Or.inr hk
            · exact Or.inl (Or.inl ⟨Or.inr hheld, hsize⟩)
          · exact Or.inl (Or.inr hopen)
  | cancelled hk =>
      left
      unfold cancel at hunread
      split at hunread
      · exact hunread
      · exact hunread
  | connected hk M => cases M <;> exact Or.inl hunread
  | refusedEarly lastStreamId errorCode =>
      have C := StreamTables.refuseStreamsAbove_completes h lastStreamId
        (goawayDetail lastStreamId errorCode)
      exact Or.inl (UnreadAt.mono (s := s) (t := onGoaway s lastStreamId errorCode) (fun _ hr => hr)
        (completes_entries C) hunread)
  | closed hk M =>
      left
      dsimp only at hunread
      rw [M.frame.2.1] at hunread
      exact M.unread hunread
  | event error read hio =>
      left
      rw [hio]
      exact hunread
  | io M => exact Or.inl (M.unread hunread)
  | callback M =>
      left
      rw [M.frame.2.2.1] at hunread
      apply hunread.mono _ (M.entries h)
      cases M <;> exact fun _ hr => hr

/-- The payload a `Send` has yet to push. -/
def SendPhase.payload : SendPhase → Option PayloadSpan
  | .checking payload | .numbering payload | .pushing payload _ => some payload
  | .returned _ => none

/-- A `Send` keeps its payload, and only a new call brings one. -/
theorem payload_step (hstep : step s a = some s') {k : Nat} {ψ : SendPhase} {p : PayloadSpan}
    (hk : s'.sends[k]? = some ψ) (hp : ψ.payload = some p) :
    (∃ φ, s.sends[k]? = some φ ∧ φ.payload = some p) ∨ k = s.sends.length ∧ a = .send p := by
  cases step_spec hstep with
  | sendBegun payload =>
      have hpush := Threads.forall_push (l := s.sends) (φ := .checking payload)
        (P := fun j χ => χ.payload = some p →
          (∃ φ, s.sends[j]? = some φ ∧ φ.payload = some p) ∨ j = s.sends.length ∧ payload = p)
        (fun h => Or.inr ⟨rfl, Option.some.inj h⟩) (fun j χ hj h => Or.inl ⟨χ, hj, h⟩)
      refine (hpush k ψ hk hp).imp_right ?_
      rintro ⟨hlength, rfl⟩
      exact ⟨hlength, rfl⟩
  | @sent j φ t χ hj M =>
      have hset := Threads.forall_set (l := s.sends) (k := j) (φ := χ)
        (P := fun i χ => χ.payload = some p → ∃ φ, s.sends[i]? = some φ ∧ φ.payload = some p)
        (fun h => ⟨φ, hj, by cases M <;> first | exact h | cases h⟩) (fun i χ _ hi h => ⟨χ, hi, h⟩)
      exact Or.inl (hset k ψ hk hp)
  | cancelled =>
      left
      unfold cancel at hk
      split at hk
      · exact ⟨ψ, hk, hp⟩
      · exact ⟨ψ, hk, hp⟩
  | connectBegun | closeBegun | refusedEarly | event => exact Or.inl ⟨ψ, hk, hp⟩
  | connected _ M => exact Or.inl ⟨ψ, M.frame.2.2.2 ▸ hk, hp⟩
  | closed _ M => exact Or.inl ⟨ψ, M.frame.2.2 ▸ hk, hp⟩
  | io M => exact Or.inl ⟨ψ, M.frame.2.2.2 ▸ hk, hp⟩
  | callback M => exact Or.inl ⟨ψ, M.frame.2.2.2.2.2 ▸ hk, hp⟩

end Microtel.Transport.Http2Transport
