import Microtel.Transport.Http2Streams

/-!
The two maps are each other's inverse, and completing a stream moves its promise
to the promises that are set: nothing is lost and nothing set twice.
-/

namespace Microtel.Transport.StreamTables

variable {t : StreamTables} {streamId id : Nat} {state : StreamState}

/-- The promises of the open streams and the promises that are set. -/
def promises (t : StreamTables) : List Nat :=
  t.streams.map (fun entry => entry.2.promise) ++ t.answers.map Prod.fst

/-- `m_streams` and `m_handle_to_stream` are in bijection. -/
structure Paired (t : StreamTables) : Prop where
  streams : (t.streams.map Prod.fst).Nodup
  handles : (t.handleToStream.map Prod.fst).Nodup
  inverse : ∀ id streamId, t.streamOf id = some streamId ↔
    ∃ state, t.find streamId = some state ∧ state.handleId = id

theorem find_some : t.find streamId = some state ↔
    KeyedList.find Prod.fst t.streams streamId = some (streamId, state) := by
  unfold find
  rw [Option.map_eq_some_iff]
  constructor
  · rintro ⟨⟨key, state'⟩, hfind, rfl⟩
    have hkey := KeyedList.find_key hfind
    dsimp only at hkey
    rw [hfind, hkey]
  · intro h
    exact ⟨_, h, rfl⟩

theorem find_mem (h : t.find streamId = some state) : (streamId, state) ∈ t.streams :=
  KeyedList.find_mem (find_some.mp h)

theorem Paired.find_of_mem (h : t.Paired) (hmem : (streamId, state) ∈ t.streams) :
    t.find streamId = some state :=
  find_some.mpr (KeyedList.find_of_mem h.streams hmem)

/-- Only the maps matter. -/
theorem Paired.answered {u : StreamTables} (h : t.Paired) (hstreams : u.streams = t.streams)
    (hhandles : u.handleToStream = t.handleToStream) : u.Paired := by
  have hfind : ∀ key, u.find key = t.find key := by
    intro key
    unfold find
    rw [hstreams]
  have hstreamOf : ∀ key, u.streamOf key = t.streamOf key := by
    intro key
    unfold streamOf
    rw [hhandles]
  constructor
  · rw [hstreams]
    exact h.streams
  · rw [hhandles]
    exact h.handles
  · intro id streamId
    rw [hstreamOf, hfind]
    exact h.inverse id streamId

/-! ### Completion -/

theorem find_complete (t : StreamTables) (streamId key : Nat) (state : StreamState)
    (result : TransportResult) :
    (t.complete streamId state result).find key = if key = streamId then none else t.find key := by
  unfold find complete
  dsimp only
  rw [KeyedList.find_erase]
  split <;> rfl

theorem streamOf_complete (t : StreamTables) (streamId key : Nat) (state : StreamState)
    (result : TransportResult) :
    (t.complete streamId state result).streamOf key =
      if key = state.handleId then none else t.streamOf key := by
  unfold streamOf complete
  dsimp only
  rw [KeyedList.find_erase]
  split <;> rfl

theorem Paired.complete (h : t.Paired) (hfind : t.find streamId = some state)
    (result : TransportResult) : (t.complete streamId state result).Paired where
  streams := KeyedList.erase_nodup streamId h.streams
  handles := KeyedList.erase_nodup state.handleId h.handles
  inverse := by
    have hown : t.streamOf state.handleId = some streamId :=
      (h.inverse _ _).mpr ⟨state, hfind, rfl⟩
    intro id key
    rw [streamOf_complete]
    constructor
    · intro hstream
      split at hstream
      · cases hstream
      · next hid =>
        obtain ⟨other, hother, hotherId⟩ := (h.inverse id key).mp hstream
        have hkey : key ≠ streamId := by
          rintro rfl
          rw [hfind] at hother
          cases hother
          exact hid hotherId.symm
        refine ⟨other, ?_, hotherId⟩
        rw [find_complete, if_neg hkey]
        exact hother
    · rintro ⟨other, hother, rfl⟩
      rw [find_complete] at hother
      split at hother
      · cases hother
      · next hkey =>
        have hstream := (h.inverse other.handleId key).mpr ⟨other, hother, rfl⟩
        have hid : other.handleId ≠ state.handleId := by
          intro hsame
          rw [hsame, hown] at hstream
          exact hkey (Option.some.inj hstream).symm
        rw [if_neg hid]
        exact hstream

theorem promises_complete (h : t.Paired) (hfind : t.find streamId = some state)
    (result : TransportResult) : (t.complete streamId state result).promises.Perm t.promises := by
  have hperm := KeyedList.perm_erase h.streams (find_some.mp hfind)
  have hmap := (hperm.map fun entry => entry.2.promise).append_right (t.answers.map Prod.fst)
  unfold promises complete
  dsimp only
  rw [List.map_append, ← List.append_assoc]
  exact (List.perm_append_singleton _ _).trans hmap.symm

/-- Any number of streams completed, one after the other. -/
inductive Completes (t : StreamTables) : StreamTables → Prop
  | refl : Completes t t
  | complete {u streamId state} (h : Completes t u) (hfind : u.find streamId = some state)
      (result) : Completes t (u.complete streamId state result)

theorem Completes.paired {u : StreamTables} (C : t.Completes u) (h : t.Paired) : u.Paired := by
  induction C with
  | refl => exact h
  | complete _ hfind result ih => exact ih.complete hfind result

theorem Completes.promises {u : StreamTables} (C : t.Completes u) (h : t.Paired) :
    u.promises.Perm t.promises := by
  induction C with
  | refl => exact List.Perm.refl _
  | complete C hfind result ih => exact (promises_complete (C.paired h) hfind result).trans ih

theorem Completes.mem {u : StreamTables} (C : t.Completes u) {entry : Nat × StreamState}
    (hmem : entry ∈ u.streams) : entry ∈ t.streams := by
  induction C with
  | refl => exact hmem
  | complete _ _ _ ih => exact ih (KeyedList.mem_erase.mp hmem).1

theorem Completes.keys {u : StreamTables} (C : t.Completes u) {streamId : Nat}
    (hmem : streamId ∈ u.streams.map Prod.fst) : streamId ∈ t.streams.map Prod.fst := by
  obtain ⟨entry, hentry, rfl⟩ := List.mem_map.mp hmem
  exact List.mem_map_of_mem (C.mem hentry)

theorem Completes.streamOf {u : StreamTables} (C : t.Completes u) (id : Nat) :
    u.streamOf id = t.streamOf id ∨ u.streamOf id = none := by
  induction C with
  | refl => exact Or.inl rfl
  | complete _ _ _ ih =>
      rw [streamOf_complete]
      split
      · exact Or.inr rfl
      · exact ih

theorem fulfillStream_completes (t : StreamTables) (streamId errorCode : Nat) :
    t.Completes (fulfillStream t streamId errorCode) := by
  unfold fulfillStream
  split
  · exact .refl
  · next state hfind => exact .complete .refl hfind _

theorem refuseStreamsAbove_completes (h : t.Paired) (lastStreamId : Nat) (detail : String) :
    t.Completes (refuseStreamsAbove t lastStreamId detail) := by
  -- the loop's entries that are still to come are in the map as they were
  have hloop : ∀ (l : List (Nat × StreamState)) (u : StreamTables), (l.map Prod.fst).Nodup →
      (∀ entry ∈ l, u.find entry.1 = some entry.2) → t.Completes u →
      t.Completes (l.foldl (refuseAbove lastStreamId detail) u) := by
    intro l
    induction l with
    | nil => exact fun u _ _ C => C
    | cons entry l ih =>
        intro u hkeys hfind C
        rw [List.map_cons, List.nodup_cons] at hkeys
        rw [List.foldl_cons]
        apply ih _ hkeys.2
        · intro other hother
          have hne : other.1 ≠ entry.1 := fun hsame =>
            hkeys.1 (List.mem_map.mpr ⟨other, hother, hsame⟩)
          have hfound := hfind other (List.mem_cons_of_mem _ hother)
          unfold refuseAbove
          split
          · exact hfound
          · rw [find_complete, if_neg hne]
            exact hfound
        · unfold refuseAbove
          split
          · exact C
          · exact .complete C (hfind entry List.mem_cons_self) _
  exact hloop t.streams t h.streams (fun _ hmem => h.find_of_mem hmem) .refl

theorem promises_setValue (t : StreamTables) (promise : Nat) (result : TransportResult) :
    (t.setValue promise result).promises.Perm (promise :: t.promises) := by
  unfold promises setValue
  rw [List.map_append, ← List.append_assoc]
  exact List.perm_append_singleton _ _

theorem abandonInFlight_promises (t : StreamTables) (message : String) :
    (abandonInFlight t message).promises.Perm t.promises := by
  unfold promises abandonInFlight
  dsimp only
  rw [List.map_nil, List.nil_append, List.map_append, List.map_map]
  exact List.perm_append_comm

theorem abandonInFlight_paired (t : StreamTables) (message : String) :
    (abandonInFlight t message).Paired where
  streams := List.nodup_nil
  handles := List.nodup_nil
  inverse := by
    intro id streamId
    constructor
    · intro h
      cases h
    · rintro ⟨state, h, -⟩
      cases h

/-! ### Submission and the callbacks that keep a stream -/

theorem find_insert (t : StreamTables) (req : PendingRequest) (streamId key : Nat) :
    (t.insert streamId req).find key =
      if streamId = key then
        some { payload := req.payload, promise := req.promise, handleId := req.handleId }
      else t.find key := by
  unfold find insert
  dsimp only
  rw [KeyedList.find_put]
  split <;> rfl

theorem streamOf_insert (t : StreamTables) (req : PendingRequest) (streamId key : Nat) :
    (t.insert streamId req).streamOf key =
      if req.handleId = key then some streamId else t.streamOf key := by
  unfold streamOf insert
  dsimp only
  rw [KeyedList.find_put]
  split <;> rfl

theorem Paired.insert (h : t.Paired) (req : PendingRequest)
    (hstream : t.find streamId = none) (hhandle : t.streamOf req.handleId = none) :
    (t.insert streamId req).Paired where
  streams := KeyedList.put_nodup _ h.streams
  handles := KeyedList.put_nodup _ h.handles
  inverse := by
    intro id key
    rw [streamOf_insert, find_insert]
    by_cases hid : req.handleId = id
    · subst hid
      rw [if_pos rfl]
      constructor
      · intro hsame
        cases hsame
        exact ⟨_, if_pos rfl, rfl⟩
      · rintro ⟨state, hstate, hstateId⟩
        split at hstate
        · next hkey => rw [hkey]
        · rw [(h.inverse req.handleId key).mpr ⟨state, hstate, hstateId⟩] at hhandle
          cases hhandle
    · rw [if_neg hid, h.inverse]
      constructor
      · rintro ⟨state, hstate, hstateId⟩
        refine ⟨state, ?_, hstateId⟩
        rw [if_neg]
        · exact hstate
        · rintro rfl
          rw [hstream] at hstate
          cases hstate
      · rintro ⟨state, hstate, hstateId⟩
        split at hstate
        · cases hstate
          exact (hid hstateId).elim
        · exact ⟨state, hstate, hstateId⟩

theorem insert_streams (req : PendingRequest) (hstream : t.find streamId = none) :
    (t.insert streamId req).streams = t.streams ++
      [(streamId,
        { payload := req.payload, promise := req.promise, handleId := req.handleId })] := by
  apply KeyedList.put_of_not_mem
  intro hmem
  have hsome := KeyedList.find_isSome.mpr hmem
  unfold find at hstream
  rw [Option.map_eq_none_iff] at hstream
  rw [hstream] at hsome
  cases hsome

theorem insert_promises (req : PendingRequest) (hstream : t.find streamId = none) :
    (t.insert streamId req).promises.Perm (req.promise :: t.promises) := by
  unfold promises
  rw [insert_streams req hstream, List.map_append]
  exact (List.perm_append_singleton _ _).append_right _

/-- What no callback changes of a stream. -/
def request (entry : Nat × StreamState) : Nat × Nat × Nat × PayloadSpan :=
  (entry.1, entry.2.promise, entry.2.handleId, entry.2.payload)

/-- A callback that leaves the streams where they are. -/
structure Updates (t u : StreamTables) : Prop where
  streams : u.streams.map request = t.streams.map request
  handles : u.handleToStream = t.handleToStream
  answers : u.answers = t.answers

theorem Updates.refl (t : StreamTables) : t.Updates t := ⟨rfl, rfl, rfl⟩

theorem update_updates {state' : StreamState} (hfind : t.find streamId = some state)
    (hpromise : state'.promise = state.promise) (hhandle : state'.handleId = state.handleId)
    (hpayload : state'.payload = state.payload) : t.Updates (t.update streamId state') where
  streams := by
    apply KeyedList.map_put _ (find_some.mp hfind)
    unfold request
    rw [hpromise, hhandle, hpayload]
  handles := rfl
  answers := rfl

theorem onResponseHeader_updates (t : StreamTables) (maxTrailerBytes streamId : Nat)
    (isTrailer : Bool) (field : HeaderField) :
    t.Updates (onResponseHeader t maxTrailerBytes streamId isTrailer field) := by
  have hkeeps : ∀ state : StreamState,
      (withHeader maxTrailerBytes state isTrailer field).promise = state.promise ∧
      (withHeader maxTrailerBytes state isTrailer field).handleId = state.handleId ∧
      (withHeader maxTrailerBytes state isTrailer field).payload = state.payload := by
    intro state
    unfold withHeader
    split
    · exact ⟨rfl, rfl, rfl⟩
    · split
      · dsimp only
        split <;> exact ⟨rfl, rfl, rfl⟩
      · exact ⟨rfl, rfl, rfl⟩
  unfold onResponseHeader
  split
  · exact .refl t
  · next state hfind =>
    obtain ⟨hpromise, hhandle, hpayload⟩ := hkeeps state
    exact update_updates hfind hpromise hhandle hpayload

theorem onResponseData_updates (t : StreamTables) (maxResponseBytes streamId : Nat) (data : Bytes) :
    t.Updates (onResponseData t maxResponseBytes streamId data) := by
  have hkeeps : ∀ state : StreamState,
      (withData maxResponseBytes state data).promise = state.promise ∧
      (withData maxResponseBytes state data).handleId = state.handleId ∧
      (withData maxResponseBytes state data).payload = state.payload := by
    intro state
    unfold withData
    split
    · exact ⟨rfl, rfl, rfl⟩
    · split <;> exact ⟨rfl, rfl, rfl⟩
  unfold onResponseData
  split
  · exact .refl t
  · next state hfind =>
    obtain ⟨hpromise, hhandle, hpayload⟩ := hkeeps state
    exact update_updates hfind hpromise hhandle hpayload

theorem Updates.mem {u : StreamTables} (U : t.Updates u) {entry : Nat × StreamState}
    (hmem : entry ∈ u.streams) : ∃ old ∈ t.streams, request entry = request old := by
  have hmap : request entry ∈ u.streams.map request := List.mem_map_of_mem hmem
  rw [U.streams] at hmap
  obtain ⟨old, hold, hrequest⟩ := List.mem_map.mp hmap
  exact ⟨old, hold, hrequest.symm⟩

theorem Updates.keys {u : StreamTables} (U : t.Updates u) :
    u.streams.map Prod.fst = t.streams.map Prod.fst := by
  have hmap := congrArg (List.map Prod.fst) U.streams
  simpa [List.map_map, Function.comp_def, request] using hmap

theorem Updates.promises {u : StreamTables} (U : t.Updates u) : u.promises = t.promises := by
  have hmap := congrArg (List.map fun r => r.2.1) U.streams
  unfold StreamTables.promises
  rw [U.answers]
  congr 1
  simpa [List.map_map, Function.comp_def, request] using hmap

theorem Updates.symm {u : StreamTables} (U : t.Updates u) : u.Updates t :=
  ⟨U.streams.symm, U.handles.symm, U.answers.symm⟩

theorem Updates.find {u : StreamTables} (U : t.Updates u) (ht : (t.streams.map Prod.fst).Nodup)
    (hfind : u.find streamId = some state) :
    ∃ old, t.find streamId = some old ∧ old.handleId = state.handleId := by
  obtain ⟨⟨key, old⟩, hold, hrequest⟩ := U.mem (find_mem hfind)
  unfold request at hrequest
  dsimp only at hrequest
  simp only [Prod.mk.injEq] at hrequest
  obtain ⟨rfl, -, hhandle, -⟩ := hrequest
  exact ⟨old, find_some.mpr (KeyedList.find_of_mem ht hold), hhandle.symm⟩

theorem Updates.paired {u : StreamTables} (U : t.Updates u) (h : t.Paired) : u.Paired where
  streams := by
    rw [U.keys]
    exact h.streams
  handles := by
    rw [U.handles]
    exact h.handles
  inverse := by
    have hkeys : (u.streams.map Prod.fst).Nodup := by
      rw [U.keys]
      exact h.streams
    intro id streamId
    unfold streamOf
    rw [U.handles]
    apply (h.inverse id streamId).trans
    constructor
    · rintro ⟨state, hfind, rfl⟩
      exact U.symm.find hkeys hfind
    · rintro ⟨state, hfind, rfl⟩
      exact U.find h.streams hfind

end Microtel.Transport.StreamTables
