import Microtel.Transport.Http2States
import Microtel.Transport.Http2Tables

/-!
Where the requests of the transport are. The promise of a `Send` that has
returned is set, or its request waits to be submitted, or it has a stream: one
of these, and once.
-/

namespace Microtel.Transport.Http2Transport

variable {s s' t : State} {a : Action}

/-- The requests the loop has taken from the queue and not yet submitted. -/
def IoPhase.held : IoPhase → List PendingRequest
  | .submitting l | .sending l => l
  | _ => []

/-- The promises of the waiting requests, of the streams and of the answers, with
the I/O thread at `φ`. -/
def promisesAt (s : State) (φ : IoPhase) : List Nat :=
  (s.pendingQueue ++ φ.held).map PendingRequest.promise ++ s.tables.promises

/-- Whether the `Send` has handed out its future. -/
def handedOut (sends : List SendPhase) (k : Nat) : Nat :=
  match sends[k]? with
  | some (.returned _) => 1
  | _ => 0

def SendPhase.handle : SendPhase → Nat
  | .checking _ | .numbering _ => 0
  | .pushing _ id | .returned id => id

/-! ### The connection a stream belongs to -/

structure OnSession (s : State) : Prop where
  /-- The ids a session may still give are above those of the open streams. -/
  fresh : ∀ n, s.session = some n → ∀ entry ∈ s.tables.streams, entry.1 < n
  /-- There are streams on a connection that is up, or that `Close` has yet to
  take down. -/
  up : s.tables.streams ≠ [] → holders s = 0 ∧ (s.state = .connected ∨ s.state = .closed)
  leaving : s.io = .losing ∨ (∃ inLoop, s.io = .exchanging inLoop) → s.tables.streams = []

theorem OnSession.init : OnSession init where
  fresh := by intro n hn; cases hn
  up := by intro h; exact (h rfl).elim
  leaving := fun _ => rfl

/-- Kept by a step that leaves the word or closes it, if every stream it leaves
was there. -/
theorem OnSession.congr (h : OnSession s) (hsession : ∀ n, t.session = some n → s.session = some n)
    (hword : t.state = s.state ∨ t.state = .closed) (hholders : holders t = holders s)
    (hleaving : t.io = .losing ∨ (∃ inLoop, t.io = .exchanging inLoop) →
      s.io = .losing ∨ ∃ inLoop, s.io = .exchanging inLoop)
    (hstreams : ∀ streamId ∈ t.tables.streams.map Prod.fst,
      streamId ∈ s.tables.streams.map Prod.fst) :
    OnSession t := by
  have hempty : s.tables.streams = [] → t.tables.streams = [] := by
    intro hnone
    rw [hnone] at hstreams
    cases hstreams' : t.tables.streams with
    | nil => rfl
    | cons entry rest =>
        rw [hstreams'] at hstreams
        have := hstreams entry.1 (by simp)
        cases this
  constructor
  · intro n hn entry hentry
    obtain ⟨old, hold, hkey⟩ := List.mem_map.mp (hstreams entry.1 (List.mem_map_of_mem hentry))
    rw [← hkey]
    exact h.fresh n (hsession n hn) old hold
  · intro hsome
    obtain ⟨hnone, hup⟩ := h.up (fun hnone => hsome (hempty hnone))
    refine ⟨hholders.trans hnone, ?_⟩
    rcases hword with hword | hword
    · rw [hword]
      exact hup
    · exact Or.inr hword
  · exact fun hafter => hempty (h.leaving (hleaving hafter))

theorem OnSession.same (h : OnSession s) (hsession : t.session = s.session)
    (hstate : t.state = s.state) (hconnects : t.connects = s.connects) (hio : t.io = s.io)
    (hstreams : t.tables.streams = s.tables.streams) : OnSession t := by
  apply h.congr
  · rw [hsession]
    exact fun n hn => hn
  · exact Or.inl hstate
  · unfold holders
    rw [hconnects]
  · rw [hio]
    exact fun hleaving => hleaving
  · rw [hstreams]
    exact fun _ hmem => hmem

theorem OnSession.of_empty (hnone : t.tables.streams = []) : OnSession t where
  fresh := by
    rw [hnone]
    intro n _ entry hentry
    cases hentry
  up := fun hsome => (hsome hnone).elim
  leaving := fun _ => hnone

theorem ConnectMoves.tables {φ ψ : ConnectPhase} (M : ConnectMoves s φ t ψ) :
    t.tables = s.tables ∧ (φ.holds = false → t.session = s.session) := by
  cases M with
  | claimed | dropped | reclaimed | blocked | adopted | dialed | registered | published | failed =>
      exact ⟨rfl, fun _ => rfl⟩
  | shook => exact ⟨rfl, by intro h; cases h⟩
  | rolledBack => exact ⟨rfl, by intro h; cases h⟩

theorem sweepPending_tables (reqs : List PendingRequest) (t : StreamTables) :
    (reqs.foldl (fun t req =>
      t.setValue req.promise { error := some ⟨.cancelled, "transport closed"⟩ })
      t).streams = t.streams ∧
    (reqs.foldl (fun t req =>
      t.setValue req.promise { error := some ⟨.cancelled, "transport closed"⟩ })
      t).handleToStream = t.handleToStream ∧
    (reqs.foldl (fun t req =>
      t.setValue req.promise { error := some ⟨.cancelled, "transport closed"⟩ })
      t).answers.map Prod.fst = t.answers.map Prod.fst ++ reqs.map PendingRequest.promise := by
  induction reqs generalizing t with
  | nil => simp
  | cons req reqs ih =>
      obtain ⟨hstreams, hhandles, hanswers⟩ :=
        ih (t.setValue req.promise { error := some ⟨.cancelled, "transport closed"⟩ })
      refine ⟨hstreams, hhandles, ?_⟩
      rw [List.foldl_cons, hanswers]
      simp [StreamTables.setValue]

theorem CallbackMoves.streams {c : Callback} (M : CallbackMoves s c t) (h : s.tables.Paired) :
    s.tables.Completes t.tables ∨ s.tables.Updates t.tables := by
  cases M with
  | header => exact Or.inr (StreamTables.onResponseHeader_updates _ _ _ _ _)
  | data => exact Or.inr (StreamTables.onResponseData_updates _ _ _ _)
  | streamClose => exact Or.inl (StreamTables.fulfillStream_completes _ _ _)
  | goaway => exact Or.inl (StreamTables.refuseStreamsAbove_completes h _ _)
  | payloadRead length hsending hfind =>
      exact Or.inr (StreamTables.update_updates hfind rfl rfl rfl)

theorem OnSession.connects (h : OnSession s) {k : Nat} {φ ψ : ConnectPhase}
    (hk : s.connects[k]? = some φ) (M : ConnectMoves s φ t ψ) :
    OnSession { t with connects := s.connects.set k ψ } := by
  by_cases hnone : s.tables.streams = []
  · apply OnSession.of_empty
    dsimp only
    rw [M.tables.1]
    exact hnone
  · obtain ⟨hfree, hup⟩ := h.up hnone
    have hφ : φ.holds = false := by
      cases hholds : φ.holds with
      | false => rfl
      | true =>
          have hpos : 0 < s.connects.countP ConnectPhase.holds :=
            List.countP_pos_iff.mpr ⟨φ, List.mem_of_getElem? hk, hholds⟩
          unfold holders at hfree
          omega
    cases M.slotMove with
    | keeps hword hholds hprior hafter =>
        have hcount := Threads.countP_set ConnectPhase.holds ψ hk
        rw [hholds] at hcount
        apply h.congr
        · dsimp only
          rw [M.tables.2 hφ]
          exact fun n hn => hn
        · exact Or.inl hword
        · exact Nat.add_right_cancel hcount
        · dsimp only
          rw [M.frame.1]
          exact fun hleaving => hleaving
        · dsimp only
          rw [M.tables.1]
          exact fun streamId hmem => hmem
    | claims hfree hword hbefore hholds hprior =>
        rcases hfree with hstate | hstate <;> rcases hup with hup | hup <;>
          exact nomatch hstate.symm.trans hup
    | publishes hword hbefore hafter =>
        subst hbefore
        cases hφ
    | restores hbefore hprior hafter =>
        rw [hφ] at hbefore
        cases hbefore

theorem OnSession.below (h : OnSession s) {streamId : Nat} (hn : FreshStream s.session streamId) :
    ∀ entry ∈ s.tables.streams, entry.1 < streamId := by
  obtain ⟨least, hleast, hle⟩ := hn
  intro entry hentry
  exact Nat.lt_of_lt_of_le (h.fresh least hleast entry hentry) hle

theorem OnSession.unused (h : OnSession s) {streamId : Nat} (hn : FreshStream s.session streamId) :
    s.tables.find streamId = none := by
  cases hfound : s.tables.find streamId with
  | none => rfl
  | some state =>
      have := h.below hn _ (StreamTables.find_mem hfound)
      exact (Nat.lt_irrefl streamId this).elim

theorem OnSession.submitted (h : OnSession s) (hw : Word s) (hlive : s.io.live = true)
    {req : PendingRequest} {rest : List PendingRequest} {streamId : Nat}
    (hn : FreshStream s.session streamId) :
    OnSession { submitStream s req streamId with io := .sending rest } := by
  refine ⟨?_, ?_, ?_⟩
  · intro m hm entry hentry
    dsimp only [submitStream] at hm hentry
    cases hm
    rw [StreamTables.insert_streams req (h.unused hn)] at hentry
    rcases List.mem_append.mp hentry with hold | hnew
    · exact Nat.lt_succ_of_lt (h.below hn entry hold)
    · rw [List.mem_singleton.mp hnew]
      exact Nat.lt_succ_self streamId
  · exact fun _ => ⟨hw.alone hlive, hw.live hlive⟩
  · rintro (hleaving | ⟨inLoop, hleaving⟩)
    · cases hleaving
    · cases hleaving

theorem OnSession.io (h : OnSession s) (hw : Word s) {ok : Bool} {ψ : IoPhase}
    (M : IoMoves s ok s.io t ψ) : OnSession { t with io := ψ } := by
  generalize hio : s.io = φ at M
  -- most moves leave everything but the phase, and end neither in a store nor before one
  have hsame : ∀ χ : IoPhase, χ ≠ .losing → (∀ inLoop, χ ≠ .exchanging inLoop) →
      OnSession { s with io := χ } := by
    intro χ hlosing hexchanging
    refine h.congr (fun n hn => hn) (Or.inl rfl) rfl ?_ (fun _ hmem => hmem)
    · rintro (hleaving | ⟨inLoop, hleaving⟩)
      · exact (hlosing hleaving).elim
      · exact (hexchanging inLoop hleaving).elim
  cases M with
  | abandoned => exact .of_empty rfl
  | lost => exact .of_empty (h.leaving (Or.inl hio))
  | idle hnone => exact .of_empty hnone
  | @retired inLoop => exact .of_empty (h.leaving (Or.inr ⟨inLoop, hio⟩))
  | @overtaken inLoop => exact .of_empty (h.leaving (Or.inr ⟨inLoop, hio⟩))
  | submitted hn =>
      apply h.submitted hw _ hn
      rw [hio]
      rfl
  | @busy inLoop => cases inLoop <;> exact hsame _ (by simp) (by simp)
  | stopped | dispatching | dispatched | ignored | errored | readable | writable | received | broken
  | flushed | gated | skipped | submittedAll | sent | unknown | found | reset =>
      exact hsame _ (by simp) (by simp)
  | swappedPending =>
      exact (hsame (.submitting s.pendingQueue) (by simp) (by simp)).same rfl rfl rfl rfl rfl
  | @submitFailed req rest =>
      exact (hsame (.submitting rest) (by simp) (by simp)).same rfl rfl rfl rfl rfl
  | swappedCancels =>
      exact (hsame (.cancelling s.cancelQueue) (by simp) (by simp)).same rfl rfl rfl rfl rfl
  | cancelledAll => exact (hsame (.finishing true) (by simp) (by simp)).same rfl rfl rfl rfl rfl

theorem OnSession.closes (h : OnSession s) {φ ψ : ClosePhase} (M : CloseMoves s φ t ψ) :
    OnSession t := by
  cases M with
  | again | closed =>
      exact h.congr (fun n hn => hn) (Or.inr rfl) rfl (fun h => h) (fun _ hmem => hmem)
  | stopped | waited | joined =>
      exact h.same rfl rfl rfl rfl rfl
  | abandoned => exact .of_empty rfl
  | swept =>
      exact h.same rfl rfl rfl rfl (sweepPending_tables s.pendingQueue s.tables).1
  | tornDown =>
      exact h.congr (by intro n hn; cases hn) (Or.inl rfl) rfl (fun h => h) (fun _ hmem => hmem)

theorem OnSession.step (h : OnSession s) (hw : Word s) (hpaired : s.tables.Paired)
    (hstep : Http2Transport.step s a = some s') : OnSession s' := by
  cases step_spec hstep with
  | sendBegun => exact h.same rfl rfl rfl rfl rfl
  | sent hk M => cases M <;> exact h.same rfl rfl rfl rfl rfl
  | cancelled hk =>
      unfold cancel
      split
      · exact h
      · exact h.same rfl rfl rfl rfl rfl
  | connectBegun opts =>
      refine h.congr (fun n hn => hn) (Or.inl rfl) ?_ (fun h => h) (fun _ hmem => hmem)
      unfold holders
      rw [Threads.countP_push]
      rfl
  | connected hk M => exact h.connects hk M
  | refusedEarly lastStreamId errorCode hk =>
      exact h.congr (fun n hn => hn) (Or.inl rfl) rfl (fun h => h) fun _ hmem =>
        (StreamTables.refuseStreamsAbove_completes hpaired _ _).keys hmem
  | closeBegun => exact h.same rfl rfl rfl rfl rfl
  | closed hk M =>
      exact (h.closes M).same rfl rfl rfl rfl rfl
  | event error read hio =>
      refine h.congr (fun n hn => hn) (Or.inl rfl) rfl ?_ (fun _ hmem => hmem)
      rintro (hleaving | ⟨inLoop, hleaving⟩)
      · cases hleaving
      · cases hleaving
  | io M => exact h.io hw M
  | callback M =>
      obtain ⟨hword, hconnects, hio, -⟩ := M.frame
      apply h.congr
      · cases M <;> exact fun n hn => hn
      · exact Or.inl hword
      · unfold holders
        rw [hconnects]
      · rw [hio]
        exact fun hleaving => hleaving
      · intro streamId hmem
        rcases M.streams hpaired with C | U
        · exact C.keys hmem
        · exact U.keys ▸ hmem

/-! ### What a step does to the requests -/

/-- The request a stream was opened for. -/
def origin (entry : Nat × StreamState) : PendingRequest :=
  ⟨entry.2.payload, entry.2.promise, entry.2.handleId⟩

/-- The requests without an answer, with the I/O thread at `φ`. -/
def requestsAt (s : State) (φ : IoPhase) : List PendingRequest :=
  s.pendingQueue ++ φ.held ++ s.tables.streams.map origin

theorem mem_requestsAt {φ : IoPhase} {r : PendingRequest} :
    r ∈ requestsAt s φ ↔ r ∈ s.pendingQueue ∨ r ∈ φ.held ∨
      ∃ entry ∈ s.tables.streams, origin entry = r := by
  unfold requestsAt
  rw [List.mem_append, List.mem_append, List.mem_map, or_assoc]

theorem origin_of_request {entry entry' : Nat × StreamState}
    (h : StreamTables.request entry = StreamTables.request entry') :
    origin entry = origin entry' := by
  unfold StreamTables.request at h
  simp only [Prod.mk.injEq] at h
  unfold origin
  rw [h.2.1, h.2.2.1, h.2.2.2]

theorem tables_requests (hpending : t.pendingQueue = s.pendingQueue) (h : s.tables.Paired)
    (hmove : s.tables.Completes t.tables ∨ s.tables.Updates t.tables) (φ : IoPhase) :
    (∀ r ∈ requestsAt t φ, r ∈ requestsAt s φ) ∧ (promisesAt t φ).Perm (promisesAt s φ) := by
  constructor
  · intro r hr
    rw [mem_requestsAt] at hr ⊢
    rw [hpending] at hr
    refine hr.imp_right (Or.imp_right ?_)
    rintro ⟨entry, hentry, rfl⟩
    rcases hmove with C | U
    · exact ⟨entry, C.mem hentry, rfl⟩
    · obtain ⟨old, hold, hrequest⟩ := U.mem hentry
      exact ⟨old, hold, (origin_of_request hrequest).symm⟩
  · unfold promisesAt
    rw [hpending]
    apply List.Perm.append_left
    rcases hmove with C | U
    · exact C.promises h
    · rw [U.promises]

theorem IoMoves.requests {ok : Bool} {φ ψ : IoPhase} (M : IoMoves s ok φ t ψ) :
    ∀ r ∈ requestsAt t ψ, r ∈ requestsAt s φ := by
  cases M with
  | abandoned =>
      intro r hr
      simp only [requestsAt, abandonInFlight, IoPhase.held, List.map_nil, List.append_nil] at hr ⊢
      exact List.mem_append_left _ hr
  | @busy inLoop => cases inLoop <;> exact fun _ h => h
  | @retired inLoop => cases inLoop <;> exact fun _ h => h
  | @overtaken inLoop => cases inLoop <;> exact fun _ h => h
  | swappedPending =>
      intro r hr
      rw [mem_requestsAt] at hr ⊢
      rcases hr with hr | hr | hr
      · cases hr
      · exact Or.inl hr
      · exact Or.inr (Or.inr hr)
  | @submitted req rest n hn =>
      intro r hr
      rw [mem_requestsAt] at hr ⊢
      rcases hr with hr | hr | ⟨entry, hentry, rfl⟩
      · exact Or.inl hr
      · exact Or.inr (Or.inl (List.mem_cons_of_mem _ hr))
      · rcases KeyedList.mem_put hentry with rfl | hold
        · exact Or.inr (Or.inl List.mem_cons_self)
        · exact Or.inr (Or.inr ⟨entry, hold, rfl⟩)
  | submitFailed =>
      intro r hr
      rw [mem_requestsAt] at hr ⊢
      exact hr.imp_right (Or.imp_left (List.mem_cons_of_mem _))
  | stopped | dispatching | dispatched | ignored | errored | readable | writable | lost | received
  | broken | idle | flushed | gated | skipped | submittedAll | sent | swappedCancels | cancelledAll
  | unknown | found | reset => exact fun _ h => h

theorem IoMoves.promises {ok : Bool} {φ ψ : IoPhase} (M : IoMoves s ok φ t ψ)
    (hfresh : ∀ n, FreshStream s.session n → s.tables.find n = none) :
    (promisesAt t ψ).Perm (promisesAt s φ) := by
  have hhead : ∀ (req : PendingRequest) (rest : List PendingRequest) {u : StreamTables},
      u.promises.Perm (req.promise :: s.tables.promises) →
      ((s.pendingQueue ++ rest).map PendingRequest.promise ++ u.promises).Perm
        ((s.pendingQueue ++ req :: rest).map PendingRequest.promise ++ s.tables.promises) := by
    intro req rest u hu
    apply (hu.append_left _).trans
    rw [List.map_append, List.map_append, List.map_cons, List.append_assoc, List.append_assoc,
      List.cons_append]
    exact List.perm_middle.append_left _
  cases M with
  | abandoned => exact (StreamTables.abandonInFlight_promises _ _).append_left _
  | @busy inLoop => cases inLoop <;> exact List.Perm.refl _
  | @retired inLoop => cases inLoop <;> exact List.Perm.refl _
  | @overtaken inLoop => cases inLoop <;> exact List.Perm.refl _
  | swappedPending =>
      unfold promisesAt
      simp only [IoPhase.held, List.nil_append, List.append_nil]
      exact List.Perm.refl _
  | @submitted req rest n hn =>
      exact hhead req rest (StreamTables.insert_promises req (hfresh n hn))
  | @submitFailed req rest => exact hhead req rest (StreamTables.promises_setValue _ _ _)
  | stopped | dispatching | dispatched | ignored | errored | readable | writable | lost | received
  | broken | idle | flushed | gated | skipped | submittedAll | sent | swappedCancels | cancelledAll
  | unknown | found | reset => exact List.Perm.refl _

theorem CloseMoves.requests {φ ψ : ClosePhase} (M : CloseMoves s φ t ψ) {χ : IoPhase} :
    (∀ r ∈ requestsAt t χ, r ∈ requestsAt s χ) ∧ (promisesAt t χ).Perm (promisesAt s χ) := by
  cases M with
  | again | closed | stopped | waited | joined | tornDown =>
      exact ⟨fun _ h => h, List.Perm.refl _⟩
  | abandoned =>
      constructor
      · intro r hr
        simp only [requestsAt, abandonInFlight, List.map_nil, List.append_nil] at hr ⊢
        exact List.mem_append_left _ hr
      · exact (StreamTables.abandonInFlight_promises _ _).append_left _
  | swept =>
      obtain ⟨hstreams, -, hanswers⟩ := sweepPending_tables s.pendingQueue s.tables
      constructor
      · intro r hr
        unfold requestsAt sweepPending at hr
        dsimp only at hr
        rw [hstreams, List.nil_append] at hr
        unfold requestsAt
        rw [List.append_assoc]
        exact List.mem_append_right _ hr
      · unfold promisesAt sweepPending StreamTables.promises
        dsimp only
        rw [hstreams, hanswers, List.nil_append, List.map_append, List.append_assoc]
        generalize χ.held.map PendingRequest.promise = held
        generalize s.pendingQueue.map PendingRequest.promise = pending
        generalize s.tables.answers.map Prod.fst = answers
        rw [← List.append_assoc _ answers pending, ← List.append_assoc held]
        exact List.perm_append_comm

/-! ### Handles and accounts -/

/-- The ids of the handles are the `Send`s' own, and every request knows the one
it was made by. -/
structure Numbered (s : State) : Prop where
  positive : 0 < s.nextHandleId
  pushing : ∀ (k : Nat) (payload : PayloadSpan) (id : Nat),
    s.sends[k]? = some (.pushing payload id) →
    id ≠ 0
  below : ∀ (k : Nat) (φ : SendPhase), s.sends[k]? = some φ → φ.handle < s.nextHandleId
  distinct : ∀ (j k : Nat) (φ ψ : SendPhase), s.sends[j]? = some φ → s.sends[k]? = some ψ →
    φ.handle = ψ.handle → φ.handle ≠ 0 → j = k
  requests : ∀ r ∈ requestsAt s s.io,
    s.sends[r.promise]? = some (.returned r.handleId) ∧ r.handleId ≠ 0

/-- The promise of every `Send` that has returned is in one place, once. -/
def Accounted (s : State) : Prop :=
  ∀ k, (promisesAt s s.io).count k = handedOut s.sends k

theorem Numbered.init : Numbered init where
  positive := Nat.one_pos
  pushing := by simp [Http2Transport.init]
  below := by simp [Http2Transport.init]
  distinct := by simp [Http2Transport.init]
  requests := by
    intro r hr
    cases hr

theorem Accounted.init : Accounted init := fun _ => rfl

theorem Numbered.keeps (h : Numbered s) (hnext : t.nextHandleId = s.nextHandleId)
    (hsends : t.sends = s.sends) (hrequests : ∀ r ∈ requestsAt t t.io, r ∈ requestsAt s s.io) :
    Numbered t where
  positive := by
    rw [hnext]
    exact h.positive
  pushing := by
    rw [hsends]
    exact h.pushing
  below := by
    rw [hsends, hnext]
    exact h.below
  distinct := by
    rw [hsends]
    exact h.distinct
  requests := by
    intro r hr
    rw [hsends]
    exact h.requests r (hrequests r hr)

theorem Accounted.keeps (h : Accounted s) (hsends : t.sends = s.sends)
    (hpromises : (promisesAt t t.io).Perm (promisesAt s s.io)) : Accounted t := by
  intro k
  rw [hpromises.count_eq, hsends]
  exact h k

theorem handedOut_set {sends : List SendPhase} {k : Nat} {φ ψ : SendPhase}
    (hk : sends[k]? = some φ) (j : Nat) :
    handedOut (sends.set k ψ) j = if j = k then handedOut [ψ] 0 else handedOut sends j := by
  by_cases hjk : j = k
  · rw [if_pos hjk, hjk]
    unfold handedOut
    rw [Threads.set_self hk]
    rfl
  · rw [if_neg hjk]
    unfold handedOut
    rw [Threads.set_other hjk]

theorem Numbered.set (h : Numbered s) {k : Nat} {φ ψ : SendPhase} (hk : s.sends[k]? = some φ)
    (hrunning : ∀ id, φ ≠ .returned id) (hsends : t.sends = s.sends.set k ψ)
    (hnext : s.nextHandleId ≤ t.nextHandleId)
    (hpushing : ∀ payload id, ψ = .pushing payload id → id ≠ 0)
    (hbelow : ψ.handle < t.nextHandleId)
    (hown : ψ.handle = 0 ∨ ψ.handle = φ.handle ∨ ψ.handle = s.nextHandleId)
    (hrequests : ∀ r ∈ requestsAt t t.io, r ∈ requestsAt s s.io ∨
      r.promise = k ∧ ψ = .returned r.handleId ∧ r.handleId ≠ 0) : Numbered t := by
  have hpositive := h.positive
  -- no other call has the handle of this one
  have hother : ∀ (j : Nat) (χ : SendPhase), j ≠ k → s.sends[j]? = some χ → χ.handle = ψ.handle →
      ψ.handle = 0 := by
    intro j χ hjk hj hsame
    by_contra hne
    rcases hown with hzero | hold | hnew
    · exact hne hzero
    · exact hjk (h.distinct j k χ φ hj hk (hsame.trans hold) (hsame ▸ hne))
    · have := h.below j χ hj
      omega
  constructor
  · omega
  · rw [hsends]
    have hset := Threads.forall_set (l := s.sends) (k := k) (φ := ψ)
      (P := fun _ χ => ∀ payload id, χ = .pushing payload id → id ≠ 0) hpushing
      (fun j χ _ hj payload id hχ => h.pushing j payload id (hχ ▸ hj))
    exact fun j payload id hj => hset j _ hj payload id rfl
  · rw [hsends]
    apply Threads.forall_set (P := fun _ (χ : SendPhase) => χ.handle < t.nextHandleId) hbelow
    intro j χ _ hj
    have := h.below j χ hj
    omega
  · rw [hsends]
    intro i j χ χ' hi hj hsame hne
    by_cases hik : i = k
    · by_cases hjk : j = k
      · rw [hik, hjk]
      · rw [hik, Threads.set_self hk] at hi
        cases hi
        rw [Threads.set_other hjk] at hj
        exact (hne (hother j χ' hjk hj hsame.symm)).elim
    · rw [Threads.set_other hik] at hi
      by_cases hjk : j = k
      · rw [hjk, Threads.set_self hk] at hj
        cases hj
        rw [hsame] at hne
        exact (hne (hother i χ hik hi hsame)).elim
      · rw [Threads.set_other hjk] at hj
        exact h.distinct i j χ χ' hi hj hsame hne
  · intro r hr
    rw [hsends]
    rcases hrequests r hr with hold | ⟨hpromise, hψ, hne⟩
    · obtain ⟨hreturned, hne⟩ := h.requests r hold
      have hrk : r.promise ≠ k := by
        intro hrk
        rw [hrk, hk] at hreturned
        exact hrunning _ (Option.some.inj hreturned)
      rw [Threads.set_other hrk]
      exact ⟨hreturned, hne⟩
    · rw [hpromise, Threads.set_self hk, hψ]
      exact ⟨rfl, hne⟩

theorem SendMoves.running {k : Nat} {φ ψ : SendPhase} (M : SendMoves s k φ t ψ) (id : Nat) :
    φ ≠ .returned id := by
  cases M <;> simp

theorem handedOut_running {k : Nat} {φ : SendPhase} (hk : s.sends[k]? = some φ)
    (hrunning : ∀ id, φ ≠ .returned id) : handedOut s.sends k = 0 := by
  unfold handedOut
  rw [hk]
  cases φ with
  | checking | numbering | pushing => rfl
  | returned id => exact (hrunning id rfl).elim

theorem Numbered.sent (h : Numbered s) {k : Nat} {φ ψ : SendPhase} (hk : s.sends[k]? = some φ)
    (M : SendMoves s k φ t ψ) : Numbered { t with sends := s.sends.set k ψ } := by
  have hpositive := h.positive
  have hbelow := h.below k φ hk
  cases M with
  | passed =>
      exact h.set hk (by simp) rfl (Nat.le_refl _) (by simp) hpositive (Or.inl rfl)
        (fun r hr => Or.inl hr)
  | notConnected =>
      exact h.set hk (by simp) rfl (Nat.le_refl _) (by simp) hpositive (Or.inl rfl)
        (fun r hr => Or.inl hr)
  | numbered =>
      refine h.set hk (by simp) rfl (Nat.le_succ _) ?_ (Nat.lt_succ_self _) (Or.inr (Or.inr rfl))
        (fun r hr => Or.inl hr)
      intro payload id hψ
      cases hψ
      exact Nat.ne_of_gt hpositive
  | full =>
      exact h.set hk (by simp) rfl (Nat.le_refl _) (by simp) hpositive (Or.inl rfl)
        (fun r hr => Or.inl hr)
  | @pushed payload id =>
      refine h.set hk (by simp) rfl (Nat.le_refl _) (by simp) hbelow (Or.inr (Or.inl rfl)) ?_
      intro r hr
      rw [mem_requestsAt] at hr ⊢
      rcases hr with hr | hr | hr
      · rcases List.mem_append.mp hr with hold | hnew
        · exact Or.inl (Or.inl hold)
        · cases List.mem_singleton.mp hnew
          exact Or.inr ⟨rfl, rfl, h.pushing k payload id hk⟩
      · exact Or.inl (Or.inr (Or.inl hr))
      · exact Or.inl (Or.inr (Or.inr hr))

theorem Accounted.sent (h : Accounted s) {k : Nat} {φ ψ : SendPhase} (hk : s.sends[k]? = some φ)
    (M : SendMoves s k φ t ψ) : Accounted { t with sends := s.sends.set k ψ } := by
  have hzero := handedOut_running hk M.running
  have hstays : (promisesAt t t.io).Perm (promisesAt s s.io) → handedOut [ψ] 0 = 0 →
      Accounted { t with sends := s.sends.set k ψ } := by
    intro hperm hψ j
    change (promisesAt t t.io).count j = _
    rw [hperm.count_eq, h j, handedOut_set hk, hψ]
    split
    · next hjk => rw [hjk, hzero]
    · rfl
  have hadds : (promisesAt t t.io).Perm (k :: promisesAt s s.io) → handedOut [ψ] 0 = 1 →
      Accounted { t with sends := s.sends.set k ψ } := by
    intro hperm hψ j
    change (promisesAt t t.io).count j = _
    rw [hperm.count_eq, List.count_cons, h j, handedOut_set hk, hψ]
    by_cases hjk : j = k
    · rw [hjk, hzero]
      simp
    · rw [if_neg hjk, if_neg (by simpa using Ne.symm hjk), Nat.add_zero]
  have hanswer : ∀ result, (promisesAt { s with tables := s.tables.setValue k result } s.io).Perm
      (k :: promisesAt s s.io) := by
    intro result
    exact ((StreamTables.promises_setValue _ _ _).append_left _).trans List.perm_middle
  cases M with
  | passed => exact hstays (List.Perm.refl _) rfl
  | notConnected => exact hadds (hanswer _) rfl
  | numbered => exact hstays (List.Perm.refl _) rfl
  | full => exact hadds (hanswer _) rfl
  | pushed =>
      apply hadds _ rfl
      unfold promisesAt
      simp only [List.map_append, List.map_cons, List.append_assoc, List.singleton_append]
      exact List.perm_middle

theorem Numbered.begun (h : Numbered s) (payload : PayloadSpan) :
    Numbered { s with sends := s.sends ++ [.checking payload] } := by
  have hpositive := h.positive
  refine ⟨hpositive, ?_, ?_, ?_, ?_⟩
  · have hpush := Threads.forall_push (l := s.sends) (φ := .checking payload)
      (P := fun _ χ => ∀ payload id, χ = .pushing payload id → id ≠ 0) (by simp)
      (fun j χ hj payload id hχ => h.pushing j payload id (hχ ▸ hj))
    exact fun j payload id hj => hpush j _ hj payload id rfl
  · exact Threads.forall_push (P := fun _ (χ : SendPhase) => χ.handle < s.nextHandleId) hpositive
      h.below
  · have hold : ∀ (j : Nat) (χ : SendPhase), (s.sends ++ [.checking payload])[j]? = some χ →
        χ.handle ≠ 0 → s.sends[j]? = some χ := by
      apply Threads.forall_push
      · intro hne
        exact (hne rfl).elim
      · exact fun j χ hj _ => hj
    intro i j χ χ' hi hj hsame hne
    exact h.distinct i j χ χ' (hold i χ hi hne) (hold j χ' hj (hsame ▸ hne)) hsame hne
  · intro r hr
    obtain ⟨hreturned, hne⟩ := h.requests r hr
    exact ⟨Threads.push_old hreturned, hne⟩

theorem Accounted.begun (h : Accounted s) (payload : PayloadSpan) :
    Accounted { s with sends := s.sends ++ [.checking payload] } := by
  intro k
  change (promisesAt s s.io).count k = _
  rw [h k]
  unfold handedOut
  dsimp only
  rcases Nat.lt_trichotomy k s.sends.length with hlt | rfl | hgt
  · rw [List.getElem?_append_left hlt]
  · rw [List.getElem?_concat_length, List.getElem?_eq_none (Nat.le_refl _)]
  · rw [List.getElem?_eq_none (Nat.le_of_lt hgt), List.getElem?_eq_none (by simp; omega)]

/-! ### The invariant -/

structure Requests (s : State) : Prop where
  word : Word s
  session : OnSession s
  paired : s.tables.Paired
  numbered : Numbered s
  accounted : Accounted s

theorem Requests.init : Requests init where
  word := Word.init
  session := OnSession.init
  paired := StreamTables.abandonInFlight_paired {} ""
  numbered := Numbered.init
  accounted := Accounted.init

/-- A request waits or has a stream, not both. -/
theorem Requests.not_both (h : Requests s) {req : PendingRequest} (hreq : req ∈ s.io.held) :
    s.tables.streamOf req.handleId = none := by
  cases hstream : s.tables.streamOf req.handleId with
  | none => rfl
  | some streamId =>
      obtain ⟨state, hfind, hid⟩ := (h.paired.inverse _ _).mp hstream
      have hmem := StreamTables.find_mem hfind
      obtain ⟨hreturned, hne⟩ := h.numbered.requests req
        (mem_requestsAt.mpr (Or.inr (Or.inl hreq)))
      obtain ⟨hreturned', -⟩ := h.numbered.requests (origin (streamId, state))
        (mem_requestsAt.mpr (Or.inr (Or.inr ⟨_, hmem, rfl⟩)))
      have hpromise : req.promise = state.promise :=
        h.numbered.distinct _ _ _ _ hreturned hreturned' hid.symm hne
      -- the promise is then counted among the waiting and among the streams
      have hwaits : 0 <
          ((s.pendingQueue ++ s.io.held).map PendingRequest.promise).count req.promise := by
        apply List.count_pos_iff.mpr
        exact List.mem_map_of_mem (List.mem_append_right _ hreq)
      have hopen : 0 < s.tables.promises.count req.promise := by
        apply List.count_pos_iff.mpr
        rw [hpromise]
        exact List.mem_append_left _ (List.mem_map.mpr ⟨_, hmem, rfl⟩)
      have hcount := h.accounted req.promise
      unfold promisesAt handedOut at hcount
      rw [hreturned, List.count_append] at hcount
      dsimp only at hcount
      omega

theorem Requests.io (h : Requests s) {ok : Bool} {ψ : IoPhase} (M : IoMoves s ok s.io t ψ) :
    Requests { t with io := ψ } where
  word := h.word.io M.liveMove rfl M.frame.1
  session := h.session.io h.word M
  paired := by
    generalize hio : s.io = φ at M
    cases M with
    | abandoned => exact StreamTables.abandonInFlight_paired _ _
    | @submitted req rest n hn =>
        apply h.paired.insert req (h.session.unused hn)
        apply h.not_both
        rw [hio]
        exact List.mem_cons_self
    | submitFailed => exact h.paired.answered rfl rfl
    | stopped | dispatching | dispatched | ignored | errored | readable | writable | lost | received
    | broken | busy | idle | retired | overtaken | flushed | gated | skipped | swappedPending
    | submittedAll | sent | swappedCancels | cancelledAll | unknown | found | reset =>
        exact h.paired
  numbered := by
    have hnext : t.nextHandleId = s.nextHandleId := by
      generalize s.io = φ at M
      cases M <;> rfl
    exact h.numbered.keeps hnext M.frame.2.2.2 M.requests
  accounted := h.accounted.keeps M.frame.2.2.2 (M.promises fun _ => h.session.unused)

theorem Requests.step (h : Requests s) (hstep : Http2Transport.step s a = some s') :
    Requests s' := by
  have hw := h.word.step hstep
  have hsession := h.session.step h.word h.paired hstep
  cases step_spec hstep with
  | sendBegun payload =>
      exact ⟨hw, hsession, h.paired, h.numbered.begun payload, h.accounted.begun payload⟩
  | sent hk M =>
      refine ⟨hw, hsession, ?_, h.numbered.sent hk M, h.accounted.sent hk M⟩
      cases M <;> exact h.paired.answered rfl rfl
  | @cancelled k id hk =>
      unfold cancel at hw hsession ⊢
      split
      · exact h
      · next hid =>
        rw [if_neg hid] at hw hsession
        exact ⟨hw, hsession, h.paired, h.numbered.keeps rfl rfl (fun _ hr => hr),
          h.accounted.keeps rfl (List.Perm.refl _)⟩
  | connectBegun opts =>
      exact ⟨hw, hsession, h.paired, h.numbered.keeps rfl rfl (fun _ hr => hr),
        h.accounted.keeps rfl (List.Perm.refl _)⟩
  | connected hk M =>
      cases M <;> exact ⟨hw, hsession, h.paired, h.numbered.keeps rfl rfl (fun _ hr => hr),
        h.accounted.keeps rfl (List.Perm.refl _)⟩
  | refusedEarly lastStreamId errorCode hk =>
      have C := StreamTables.refuseStreamsAbove_completes h.paired lastStreamId
        (goawayDetail lastStreamId errorCode)
      obtain ⟨hrequests, hpromises⟩ :=
        tables_requests (s := s) (t := onGoaway s lastStreamId errorCode) rfl h.paired
          (Or.inl C) s.io
      exact ⟨hw, hsession, C.paired h.paired, h.numbered.keeps rfl rfl hrequests,
        h.accounted.keeps rfl hpromises⟩
  | closeBegun =>
      exact ⟨hw, hsession, h.paired, h.numbered.keeps rfl rfl (fun _ hr => hr),
        h.accounted.keeps rfl (List.Perm.refl _)⟩
  | @closed k φ t ψ hk M =>
      obtain ⟨hconnects, hio, hsends⟩ := M.frame
      obtain ⟨hrequests, hpromises⟩ := M.requests (χ := s.io)
      have hpaired : t.tables.Paired := by
        cases M with
        | again | closed | stopped | waited | joined | tornDown => exact h.paired
        | abandoned => exact StreamTables.abandonInFlight_paired _ _
        | swept =>
            obtain ⟨hstreams, hhandles, -⟩ := sweepPending_tables s.pendingQueue s.tables
            exact h.paired.answered hstreams hhandles
      have hnext : t.nextHandleId = s.nextHandleId := by cases M <;> rfl
      have hrequests' : ∀ r ∈ requestsAt t t.io, r ∈ requestsAt s s.io := by
        rw [hio]
        exact hrequests
      have hpromises' : (promisesAt t t.io).Perm (promisesAt s s.io) := by
        rw [hio]
        exact hpromises
      exact ⟨hw, hsession, hpaired, h.numbered.keeps hnext hsends hrequests',
        h.accounted.keeps hsends hpromises'⟩
  | event error read hio =>
      have hheld : s.io.held = [] := by
        rw [hio]
        rfl
      refine ⟨hw, hsession, h.paired, h.numbered.keeps rfl rfl ?_, h.accounted.keeps rfl ?_⟩
      · intro r hr
        unfold requestsAt at hr ⊢
        rw [hheld]
        exact hr
      · unfold promisesAt
        rw [hheld]
        exact List.Perm.refl _
  | io M => exact h.io M
  | callback M =>
      obtain ⟨-, -, hio, -, -, hsends⟩ := M.frame
      have hpending : s'.pendingQueue = s.pendingQueue := by cases M <;> rfl
      have hnext : s'.nextHandleId = s.nextHandleId := by cases M <;> rfl
      have hmove := M.streams h.paired
      obtain ⟨hrequests, hpromises⟩ := tables_requests hpending h.paired hmove s'.io
      rw [hio] at hrequests hpromises
      refine ⟨hw, hsession, ?_, h.numbered.keeps hnext hsends ?_, h.accounted.keeps hsends ?_⟩
      · rcases hmove with C | U
        · exact C.paired h.paired
        · exact U.paired h.paired
      · rw [hio]
        exact hrequests
      · rw [hio]
        exact hpromises

end Microtel.Transport.Http2Transport
