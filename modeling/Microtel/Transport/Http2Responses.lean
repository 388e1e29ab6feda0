import Microtel.Lib.Projection
import Microtel.Transport.Http2Requests

/-!
What the callbacks of nghttp2 make of the responses: what is buffered of each stays within
its budgets, a response over budget is refused whole whatever code its stream closes with,
and the streams do not see each other.
-/

namespace Microtel.Transport.Http2Transport

/-! ### Callbacks on the tables -/

/-- A callback, with budgets that stay as they are. -/
def respond (budgets : ConnectOptions) (t : StreamTables) : Callback → StreamTables
  | .header streamId isTrailer field =>
      onResponseHeader t budgets.maxTrailerBytes streamId isTrailer field
  | .data streamId bytes => onResponseData t budgets.maxResponseBytes streamId bytes
  | .streamClose streamId errorCode => fulfillStream t streamId errorCode
  | .goaway lastStreamId errorCode =>
      refuseStreamsAbove t lastStreamId (goawayDetail lastStreamId errorCode)
  | .payloadRead streamId length =>
      match t.find streamId with
      | none => t
      | some state => t.update streamId (payloadRead state length)

def respondAll (budgets : ConnectOptions) (t : StreamTables) (cs : List Callback) : StreamTables :=
  cs.foldl (respond budgets) t

/-- The callbacks of the transport do this to its tables. -/
theorem callback_respond {s s' : State} {c : Callback} (h : callback s c = some s') :
    s'.tables = respond s.budgets s.tables c ∧ s'.budgets = s.budgets := by
  cases c with
  | header streamId isTrailer field =>
      simp only [callback, Option.ite_none_right_eq_some, Option.some.injEq] at h
      rw [← h.2]
      exact ⟨rfl, rfl⟩
  | data streamId bytes =>
      simp only [callback, Option.ite_none_right_eq_some, Option.some.injEq] at h
      rw [← h.2]
      exact ⟨rfl, rfl⟩
  | streamClose streamId errorCode =>
      simp only [callback, Option.ite_none_right_eq_some, Option.some.injEq] at h
      rw [← h.2]
      exact ⟨rfl, rfl⟩
  | goaway lastStreamId errorCode =>
      simp only [callback, Option.ite_none_right_eq_some, Option.some.injEq] at h
      rw [← h.2]
      exact ⟨rfl, rfl⟩
  | payloadRead streamId length =>
      simp only [callback, Option.ite_none_right_eq_some, Option.map_eq_some_iff] at h
      obtain ⟨-, state, hfind, rfl⟩ := h
      refine ⟨?_, rfl⟩
      rw [respond, hfind]

theorem run_callbacks {cs : List Callback} {s s' : State}
    (h : Machine.run step s (cs.map .callback) = some s') :
    s'.tables = respondAll s.budgets s.tables cs := by
  induction cs generalizing s with
  | nil =>
      cases h
      rfl
  | cons c cs ih =>
      rw [List.map_cons, Machine.run_cons, Option.bind_eq_some_iff] at h
      obtain ⟨t, hstep, hrun⟩ := h
      obtain ⟨htables, hbudgets⟩ := callback_respond hstep
      rw [ih hrun, htables, hbudgets]
      rfl

/-! ### One stream of the tables -/

/-- Whether a callback has to do with the stream; a GOAWAY with those it refuses. -/
def Callback.reaches (streamId : Nat) : Callback → Bool
  | .header id _ _ | .data id _ | .streamClose id _ | .payloadRead id _ => id = streamId
  | .goaway lastStreamId _ => lastStreamId < streamId

/-- What the future of the promise has been given. -/
def answersTo (t : StreamTables) (promise : Nat) : List TransportResult :=
  (t.answers.filter fun answer => answer.1 = promise).map Prod.snd

/-- A stream while it is open, and what its promise was set to. -/
structure StreamView where
  state : Option StreamState
  answered : List TransportResult

def view (streamId promise : Nat) (t : StreamTables) : StreamView where
  state := t.find streamId
  answered := answersTo t promise

namespace StreamView

def update (v : StreamView) (f : StreamState → StreamState) : StreamView :=
  { v with state := v.state.map f }

def resolve (v : StreamView) (result : StreamState → TransportResult) : StreamView :=
  match v.state with
  | none => v
  | some state => { state := none, answered := v.answered ++ [result state] }

/-- What a callback that reaches the stream makes of it. -/
def move (budgets : ConnectOptions) (v : StreamView) : Callback → StreamView
  | .header _ isTrailer field =>
      v.update fun state => withHeader budgets.maxTrailerBytes state isTrailer field
  | .data _ bytes => v.update fun state => withData budgets.maxResponseBytes state bytes
  | .payloadRead _ length => v.update fun state => payloadRead state length
  | .streamClose _ errorCode => v.resolve fun state => closeResult state errorCode
  | .goaway lastStreamId errorCode =>
      v.resolve fun state =>
        { state.result with error := some ⟨.network, goawayDetail lastStreamId errorCode⟩ }

end StreamView

/-- The promise is that of the stream and of no other open one. -/
structure Owned (streamId promise : Nat) (t : StreamTables) : Prop where
  ids : (t.streams.map Prod.fst).Nodup
  owner : ∀ id state, t.find id = some state → (state.promise = promise ↔ id = streamId)

section OneStream

variable {streamId promise : Nat} {t : StreamTables}

theorem find_update (t : StreamTables) (id key : Nat) (state : StreamState) :
    (t.update id state).find key = if id = key then some state else t.find key := by
  unfold StreamTables.find StreamTables.update
  rw [KeyedList.find_put]
  split
  · rfl
  · rfl

/-- A stream that is found is replaced. -/
def modify (t : StreamTables) (id : Nat) (f : StreamState → StreamState) : StreamTables :=
  match t.find id with
  | none => t
  | some state => t.update id (f state)

theorem find_modify (t : StreamTables) (id key : Nat) (f : StreamState → StreamState) :
    (modify t id f).find key = if id = key then (t.find key).map f else t.find key := by
  unfold modify
  cases hfind : t.find id with
  | none =>
      by_cases hkey : id = key
      · rw [if_pos hkey, ← hkey, hfind]
        rfl
      · rw [if_neg hkey]
  | some state =>
      rw [find_update]
      by_cases hkey : id = key
      · rw [if_pos hkey, if_pos hkey, ← hkey, hfind]
        rfl
      · rw [if_neg hkey, if_neg hkey]

theorem answersTo_modify (t : StreamTables) (id promise : Nat) (f : StreamState → StreamState) :
    answersTo (modify t id f) promise = answersTo t promise := by
  unfold modify
  cases t.find id with
  | none => rfl
  | some state => rfl

theorem Owned.modify (h : Owned streamId promise t) (id : Nat) {f : StreamState → StreamState}
    (hf : ∀ state, (f state).promise = state.promise) :
    Owned streamId promise (modify t id f) where
  ids := by
    unfold Http2Transport.modify
    cases t.find id with
    | none => exact h.ids
    | some state => exact KeyedList.put_nodup _ h.ids
  owner := by
    intro key state hfind
    rw [find_modify] at hfind
    by_cases hkey : id = key
    · rw [if_pos hkey, Option.map_eq_some_iff] at hfind
      obtain ⟨old, hold, rfl⟩ := hfind
      rw [hf]
      exact h.owner key old hold
    · rw [if_neg hkey] at hfind
      exact h.owner key state hfind

theorem view_modify (t : StreamTables) (id : Nat) (f : StreamState → StreamState) :
    view streamId promise (modify t id f) =
      if id = streamId then (view streamId promise t).update f else view streamId promise t := by
  unfold view StreamView.update
  rw [find_modify, answersTo_modify]
  split
  · rfl
  · rfl

theorem answersTo_complete (t : StreamTables) (id : Nat) (state : StreamState)
    (result : TransportResult) :
    answersTo (t.complete id state result) promise =
      if state.promise = promise then answersTo t promise ++ [result] else answersTo t promise := by
  unfold answersTo StreamTables.complete
  dsimp only
  rw [List.filter_append, List.map_append]
  by_cases h : state.promise = promise
  · simp [h]
  · simp [h]

theorem Owned.complete (h : Owned streamId promise t) (id : Nat) (state : StreamState)
    (result : TransportResult) : Owned streamId promise (t.complete id state result) where
  ids := KeyedList.erase_nodup id h.ids
  owner := by
    intro key other hfind
    rw [StreamTables.find_complete] at hfind
    by_cases hkey : key = id
    · rw [if_pos hkey] at hfind
      cases hfind
    · rw [if_neg hkey] at hfind
      exact h.owner key other hfind

theorem view_complete (h : Owned streamId promise t) {id : Nat} {state : StreamState}
    (hfind : t.find id = some state) (result : StreamState → TransportResult) :
    view streamId promise (t.complete id state (result state)) =
      if id = streamId then (view streamId promise t).resolve result
      else view streamId promise t := by
  have howner := h.owner id state hfind
  unfold view StreamView.resolve
  rw [StreamTables.find_complete, answersTo_complete]
  by_cases hid : id = streamId
  · rw [if_pos hid, if_pos hid.symm, if_pos (howner.mpr hid), ← hid, hfind]
  · rw [if_neg hid, if_neg (Ne.symm hid), if_neg (fun heq => hid (howner.mp heq))]

theorem resolve_of_none {v : StreamView} (h : v.state = none)
    (result : StreamState → TransportResult) : v.resolve result = v := by
  rw [StreamView.resolve, h]

/-- The loop of `RefuseStreamsAbove`, over entries that are still in the map. -/
theorem refuse_loop (lastStreamId : Nat) (detail : String) (l : List (Nat × StreamState)) :
    ∀ u : StreamTables, (l.map Prod.fst).Nodup →
      (∀ entry ∈ l, u.find entry.1 = some entry.2) → Owned streamId promise u →
      Owned streamId promise (l.foldl (refuseAbove lastStreamId detail) u) ∧
        view streamId promise (l.foldl (refuseAbove lastStreamId detail) u) =
          if streamId ∈ l.map Prod.fst ∧ lastStreamId < streamId then
            (view streamId promise u).resolve fun state =>
              { state.result with error := some ⟨.network, detail⟩ }
          else view streamId promise u := by
  induction l with
  | nil =>
      intro u _ _ h
      exact ⟨h, by simp⟩
  | cons entry l ih =>
      intro u hkeys hfind h
      rw [List.map_cons, List.nodup_cons] at hkeys
      rw [List.foldl_cons, refuseAbove]
      have hentry := hfind entry List.mem_cons_self
      have hrest : ∀ other ∈ l, u.find other.1 = some other.2 := fun other hother =>
        hfind other (List.mem_cons_of_mem _ hother)
      by_cases hlast : entry.1 ≤ lastStreamId
      · rw [if_pos hlast]
        obtain ⟨howned, hview⟩ := ih u hkeys.2 hrest h
        refine ⟨howned, ?_⟩
        rw [hview]
        have hsame : (streamId ∈ l.map Prod.fst ∧ lastStreamId < streamId) ↔
            (streamId ∈ (entry :: l).map Prod.fst ∧ lastStreamId < streamId) := by
          rw [List.map_cons, List.mem_cons]
          constructor
          · exact fun hmem => ⟨Or.inr hmem.1, hmem.2⟩
          · rintro ⟨rfl | hmem, hlt⟩
            · omega
            · exact ⟨hmem, hlt⟩
        simp only [hsame]
      · rw [if_neg hlast]
        have hkept : ∀ other ∈ l, (u.complete entry.1 entry.2
            { entry.2.result with error := some ⟨.network, detail⟩ }).find other.1 =
              some other.2 := by
          intro other hother
          have hne : other.1 ≠ entry.1 := fun heq =>
            hkeys.1 (heq ▸ List.mem_map_of_mem hother)
          rw [StreamTables.find_complete, if_neg hne]
          exact hrest other hother
        obtain ⟨howned, hview⟩ := ih _ hkeys.2 hkept (h.complete entry.1 entry.2 _)
        refine ⟨howned, ?_⟩
        have hcomplete := view_complete h hentry fun state =>
          { state.result with error := some ⟨.network, detail⟩ }
        rw [hview, hcomplete]
        by_cases hid : entry.1 = streamId
        · have hgone : ¬ (streamId ∈ l.map Prod.fst ∧ lastStreamId < streamId) :=
            fun hmem => hkeys.1 (hid ▸ hmem.1)
          have hhere : streamId ∈ (entry :: l).map Prod.fst ∧ lastStreamId < streamId := by
            refine ⟨?_, by omega⟩
            rw [List.map_cons, hid]
            exact List.mem_cons_self
          rw [if_pos hid, if_neg hgone, if_pos hhere]
        · have hsame : streamId ∈ (entry :: l).map Prod.fst ↔ streamId ∈ l.map Prod.fst := by
            rw [List.map_cons, List.mem_cons]
            exact or_iff_right fun heq => hid heq.symm
          rw [if_neg hid]
          simp only [hsame]

theorem withHeader_promise (max : Nat) (isTrailer : Bool) (field : HeaderField)
    (state : StreamState) : (withHeader max state isTrailer field).promise = state.promise := by
  unfold withHeader failOversizedStream
  split
  · rfl
  · split
    · dsimp only
      split
      · rfl
      · rfl
    · rfl

theorem withData_promise (max : Nat) (bytes : Bytes) (state : StreamState) :
    (withData max state bytes).promise = state.promise := by
  unfold withData failOversizedStream
  split
  · rfl
  · split
    · rfl
    · rfl

theorem resolve_move (h : Owned streamId promise t) (id : Nat)
    (result : StreamState → TransportResult) :
    Owned streamId promise (match t.find id with
      | none => t
      | some state => t.complete id state (result state)) ∧
    view streamId promise (match t.find id with
      | none => t
      | some state => t.complete id state (result state)) =
      if id = streamId then (view streamId promise t).resolve result
      else view streamId promise t := by
  cases hfind : t.find id with
  | none =>
      refine ⟨h, ?_⟩
      by_cases hid : id = streamId
      · rw [if_pos hid]
        exact (resolve_of_none (hid ▸ hfind) result).symm
      · rw [if_neg hid]
  | some state => exact ⟨h.complete id state _, view_complete h hfind result⟩

theorem refuse_move (h : Owned streamId promise t) (lastStreamId : Nat) (detail : String) :
    Owned streamId promise (refuseStreamsAbove t lastStreamId detail) ∧
      view streamId promise (refuseStreamsAbove t lastStreamId detail) =
        if lastStreamId < streamId then
          (view streamId promise t).resolve fun state =>
            { state.result with error := some ⟨.network, detail⟩ }
        else view streamId promise t := by
  have hfound : ∀ entry ∈ t.streams, t.find entry.1 = some entry.2 := fun entry hentry =>
    StreamTables.find_some.mpr (KeyedList.find_of_mem h.ids hentry)
  obtain ⟨howned, hview⟩ := refuse_loop lastStreamId detail t.streams t h.ids hfound h
  refine ⟨howned, hview.trans ?_⟩
  by_cases hmem : streamId ∈ t.streams.map Prod.fst
  · simp only [hmem, true_and]
  · have hnone : (view streamId promise t).state = none := by
      have hsome : ¬ (KeyedList.find Prod.fst t.streams streamId).isSome :=
        fun hfound => hmem (KeyedList.find_isSome.mp hfound)
      rw [Bool.not_eq_true, Option.isSome_eq_false_iff, Option.isNone_iff_eq_none] at hsome
      show t.find streamId = none
      rw [StreamTables.find, hsome]
      rfl
    rw [resolve_of_none hnone, if_neg (fun hand => hmem hand.1)]
    split
    · rfl
    · rfl

/-- What a callback does to the tables, seen from one stream. -/
theorem respond_move (h : Owned streamId promise t) (budgets : ConnectOptions) (c : Callback) :
    Owned streamId promise (respond budgets t c) ∧
      view streamId promise (respond budgets t c) =
        if c.reaches streamId then (view streamId promise t).move budgets c
        else view streamId promise t := by
  cases c with
  | header id isTrailer field =>
      simp only [Callback.reaches, decide_eq_true_eq]
      exact ⟨h.modify id (withHeader_promise _ _ _), view_modify t id _⟩
  | data id bytes =>
      simp only [Callback.reaches, decide_eq_true_eq]
      exact ⟨h.modify id (withData_promise _ _), view_modify t id _⟩
  | payloadRead id length =>
      simp only [Callback.reaches, decide_eq_true_eq]
      exact ⟨h.modify id fun _ => rfl, view_modify t id fun state => payloadRead state length⟩
  | streamClose id errorCode =>
      simp only [Callback.reaches, decide_eq_true_eq]
      exact resolve_move h id fun state => closeResult state errorCode
  | goaway lastStreamId errorCode =>
      simp only [Callback.reaches, decide_eq_true_eq]
      exact refuse_move h lastStreamId (goawayDetail lastStreamId errorCode)

/-- A stream sees the callbacks that reach it and no others. -/
theorem projection (budgets : ConnectOptions) (streamId promise : Nat) :
    Projection (respond budgets) (Owned streamId promise) (view streamId promise)
      (Callback.reaches streamId) (StreamView.move budgets) where
  inv t c h := (respond_move h budgets c).1
  seen t c h hreaches := by rw [(respond_move h budgets c).2, if_pos hreaches]
  unseen t c h hreaches := by
    rw [(respond_move h budgets c).2, hreaches, if_neg Bool.false_ne_true]

end OneStream

/-! ### What a stream has received -/

def received (streamId : Nat) (cs : List Callback) : List Callback :=
  cs.filter (Callback.reaches streamId)

/-- A callback that resolves the future of the stream it reaches. -/
def Callback.ends : Callback → Bool
  | .streamClose _ _ | .goaway _ _ => true
  | .header _ _ _ | .data _ _ | .payloadRead _ _ => false

def bodyOf (cs : List Callback) : Bytes :=
  cs.flatMap fun c =>
    match c with
    | .data _ bytes => bytes
    | _ => []

def headersOf (cs : List Callback) : List HeaderField :=
  cs.filterMap fun c =>
    match c with
    | .header _ false field => some field
    | _ => none

def trailersOf (cs : List Callback) : List HeaderField :=
  cs.filterMap fun c =>
    match c with
    | .header _ true field => some field
    | _ => none

/-- The length of all names and values. -/
def fieldBytes (fields : List HeaderField) : Nat :=
  (fields.map fun field => field.name.length + field.value.length).sum

/-- At some callback the body or the trailers are over budget. -/
def Exceeds (budgets : ConnectOptions) (cs : List Callback) : Prop :=
  ∃ reached, reached <+: cs ∧
    (budgets.maxResponseBytes < (bodyOf reached).length ∨
      budgets.maxTrailerBytes < fieldBytes (trailersOf reached))

theorem bodyOf_concat (cs : List Callback) (c : Callback) :
    bodyOf (cs ++ [c]) = bodyOf cs ++ bodyOf [c] := List.flatMap_append

theorem headersOf_concat (cs : List Callback) (c : Callback) :
    headersOf (cs ++ [c]) = headersOf cs ++ headersOf [c] := List.filterMap_append

theorem trailersOf_concat (cs : List Callback) (c : Callback) :
    trailersOf (cs ++ [c]) = trailersOf cs ++ trailersOf [c] := List.filterMap_append

theorem fieldBytes_append (fields fields' : List HeaderField) :
    fieldBytes (fields ++ fields') = fieldBytes fields + fieldBytes fields' := by
  simp [fieldBytes]

theorem exceeds_concat (budgets : ConnectOptions) (cs : List Callback) (c : Callback) :
    Exceeds budgets (cs ++ [c]) ↔ Exceeds budgets cs ∨
      (budgets.maxResponseBytes < (bodyOf (cs ++ [c])).length ∨
        budgets.maxTrailerBytes < fieldBytes (trailersOf (cs ++ [c]))) := by
  unfold Exceeds
  constructor
  · rintro ⟨reached, hprefix, hover⟩
    rcases List.prefix_concat_iff.mp hprefix with rfl | hprefix
    · exact Or.inr hover
    · exact Or.inl ⟨reached, hprefix, hover⟩
  · rintro (⟨reached, hprefix, hover⟩ | hover)
    · exact ⟨reached, hprefix.trans (List.prefix_append _ _), hover⟩
    · exact ⟨_, List.prefix_rfl, hover⟩

theorem not_exceeds_nil (budgets : ConnectOptions) : ¬ Exceeds budgets [] := by
  rintro ⟨reached, hprefix, hover⟩
  rw [List.prefix_nil.mp hprefix] at hover
  simp [bodyOf, trailersOf, fieldBytes] at hover

/-- What has been received is within both budgets, unless they have been exceeded. -/
theorem le_of_not_exceeds {budgets : ConnectOptions} {cs : List Callback}
    (h : ¬ Exceeds budgets cs) :
    (bodyOf cs).length ≤ budgets.maxResponseBytes ∧
      fieldBytes (trailersOf cs) ≤ budgets.maxTrailerBytes := by
  constructor
  · exact Nat.le_of_not_lt fun hover => h ⟨cs, List.prefix_rfl, Or.inl hover⟩
  · exact Nat.le_of_not_lt fun hover => h ⟨cs, List.prefix_rfl, Or.inr hover⟩

/-- What a callback that does not end the stream makes of its state. -/
def buffer (budgets : ConnectOptions) (state : StreamState) : Callback → StreamState
  | .header _ isTrailer field => withHeader budgets.maxTrailerBytes state isTrailer field
  | .data _ bytes => withData budgets.maxResponseBytes state bytes
  | .payloadRead _ length => payloadRead state length
  | .streamClose _ _ | .goaway _ _ => state

theorem move_of_open (budgets : ConnectOptions) (state : StreamState)
    (answered : List TransportResult) {c : Callback} (h : c.ends = false) :
    StreamView.move budgets ⟨some state, answered⟩ c =
      ⟨some (buffer budgets state c), answered⟩ := by
  cases c with
  | header | data | payloadRead => rfl
  | streamClose | goaway => cases h

theorem move_run_of_open (budgets : ConnectOptions) (answered : List TransportResult)
    {cs : List Callback} (h : ∀ c ∈ cs, c.ends = false) (state : StreamState) :
    cs.foldl (StreamView.move budgets) ⟨some state, answered⟩ =
      ⟨some (cs.foldl (buffer budgets) state), answered⟩ := by
  induction cs generalizing state with
  | nil => rfl
  | cons c cs ih =>
      rw [List.forall_mem_cons] at h
      rw [List.foldl_cons, List.foldl_cons, move_of_open budgets state answered h.1, ih h.2]

theorem move_run_of_closed (budgets : ConnectOptions) (answered : List TransportResult)
    (cs : List Callback) :
    cs.foldl (StreamView.move budgets) ⟨none, answered⟩ = ⟨none, answered⟩ := by
  induction cs with
  | nil => rfl
  | cons c cs ih =>
      have hmove : StreamView.move budgets ⟨none, answered⟩ c = ⟨none, answered⟩ := by
        cases c with
        | header | data | payloadRead | streamClose | goaway => rfl
      rw [List.foldl_cons, hmove, ih]

/-- A callback that ends an open stream. -/
theorem move_of_ends (budgets : ConnectOptions) (state : StreamState)
    (answered : List TransportResult) {c : Callback} (h : c.ends = true) :
    (StreamView.move budgets ⟨some state, answered⟩ c).state = none := by
  cases c with
  | header | data | payloadRead => cases h
  | streamClose | goaway => rfl

/-! ### One stream within its budgets -/

/-- A stream whose response has not begun. -/
structure Fresh (state : StreamState) : Prop where
  result : state.result = {}
  trailerBytes : state.trailerBytes = 0
  overflow : state.overflow = .none

/-- The stream has been refused. -/
structure Emptied (state' : StreamState) : Prop where
  overflow : state'.overflow ≠ .none
  body : state'.result.responseBody = []
  trailers : state'.result.responseTrailers = []

/-- What a stream holds after the callbacks: all it received or, over budget, nothing but
headers. -/
structure Buffered (budgets : ConnectOptions) (cs : List Callback) (state : StreamState) :
    Prop where
  pending : state.result.success = false ∧ state.result.responseTooLarge = false
  whole : ¬ Exceeds budgets cs → state.overflow = .none ∧
    state.trailerBytes = fieldBytes (trailersOf cs) ∧ state.result.responseBody = bodyOf cs ∧
    state.result.responseHeaders = headersOf cs ∧ state.result.responseTrailers = trailersOf cs
  refused : Exceeds budgets cs → Emptied state

section Buffering

variable {budgets : ConnectOptions} {cs : List Callback} {state : StreamState}

theorem Fresh.buffered (h : Fresh state) : Buffered budgets [] state where
  pending := by simp [h.result]
  whole _ := ⟨h.overflow, h.trailerBytes, by rw [h.result]; rfl, by rw [h.result]; rfl,
    by rw [h.result]; rfl⟩
  refused hexceeds := absurd hexceeds (not_exceeds_nil budgets)

/-- Over budget a stream takes nothing more. -/
theorem Buffered.refuse (h : Buffered budgets cs state) (hexceeds : Exceeds budgets cs)
    (c : Callback) : Buffered budgets (cs ++ [c]) (buffer budgets state c) := by
  have R := h.refused hexceeds
  have hexceeds' : Exceeds budgets (cs ++ [c]) :=
    (exceeds_concat budgets cs c).mpr (Or.inl hexceeds)
  have hkept : (buffer budgets state c).result = state.result ∧
      (buffer budgets state c).overflow = state.overflow := by
    cases c with
    | header id isTrailer field =>
        rw [buffer, withHeader, if_pos R.overflow]
        exact ⟨rfl, rfl⟩
    | data id bytes =>
        rw [buffer, withData, if_pos R.overflow]
        exact ⟨rfl, rfl⟩
    | payloadRead | streamClose | goaway => exact ⟨rfl, rfl⟩
  constructor
  · rw [hkept.1]
    exact h.pending
  · exact fun hnot => absurd hexceeds' hnot
  · exact fun _ => ⟨hkept.2 ▸ R.overflow, hkept.1 ▸ R.body, hkept.1 ▸ R.trailers⟩

/-- The callback would take the stream over a budget. -/
def Over (budgets : ConnectOptions) (state : StreamState) (c : Callback) : Prop :=
  budgets.maxResponseBytes < state.result.responseBody.length + (bodyOf [c]).length ∨
    budgets.maxTrailerBytes < state.trailerBytes + fieldBytes (trailersOf [c])

/-- The stream has taken the callback in. -/
structure Takes (state : StreamState) (c : Callback) (state' : StreamState) : Prop where
  overflow : state'.overflow = state.overflow
  trailerBytes : state'.trailerBytes = state.trailerBytes + fieldBytes (trailersOf [c])
  body : state'.result.responseBody = state.result.responseBody ++ bodyOf [c]
  headers : state'.result.responseHeaders = state.result.responseHeaders ++ headersOf [c]
  trailers : state'.result.responseTrailers = state.result.responseTrailers ++ trailersOf [c]

theorem failOversizedStream_emptied (state : StreamState) {kind : ResponseOverflow}
    (hkind : kind ≠ .none) : Emptied (failOversizedStream state kind) := ⟨hkind, rfl, rfl⟩

theorem buffer_pending (budgets : ConnectOptions) (state : StreamState) (c : Callback) :
    (buffer budgets state c).result.success = state.result.success ∧
      (buffer budgets state c).result.responseTooLarge = state.result.responseTooLarge := by
  cases c with
  | header id isTrailer field =>
      simp only [buffer, withHeader, failOversizedStream]
      split_ifs
      all_goals exact ⟨rfl, rfl⟩
  | data id bytes =>
      simp only [buffer, withData, failOversizedStream]
      split_ifs
      all_goals exact ⟨rfl, rfl⟩
  | payloadRead | streamClose | goaway => exact ⟨rfl, rfl⟩

/-- Within its budgets a stream takes a callback in or, over them, is refused. -/
theorem buffer_cases (hoverflow : state.overflow = .none)
    (hbody : state.result.responseBody.length ≤ budgets.maxResponseBytes)
    (htrailers : state.trailerBytes ≤ budgets.maxTrailerBytes) {c : Callback}
    (hc : c.ends = false) :
    ¬ Over budgets state c ∧ Takes state c (buffer budgets state c) ∨
      Over budgets state c ∧ Emptied (buffer budgets state c) := by
  have hopen : ¬ state.overflow ≠ .none := not_not_intro hoverflow
  cases c with
  | header id isTrailer field =>
      cases isTrailer with
      | false =>
          rw [buffer, withHeader, if_neg hopen, if_neg Bool.false_ne_true]
          refine Or.inl ⟨?_, rfl, rfl, by simp [bodyOf], rfl, by simp [trailersOf]⟩
          simp only [Over, bodyOf, trailersOf, fieldBytes, List.flatMap_cons, List.flatMap_nil,
            List.filterMap_cons, List.filterMap_nil, List.map_nil, List.sum_nil, List.append_nil,
            List.length_nil]
          omega
      | true =>
          have hover : Over budgets state (.header id true field) ↔ budgets.maxTrailerBytes <
              state.trailerBytes + (field.name.length + field.value.length) := by
            have hbytes : fieldBytes (trailersOf [.header id true field]) =
                field.name.length + field.value.length := by
              simp [fieldBytes, trailersOf]
            rw [Over, hbytes]
            exact or_iff_right (by simpa [bodyOf] using hbody)
          rw [hover, buffer, withHeader, if_neg hopen, if_pos rfl]
          dsimp only
          by_cases hlt : budgets.maxTrailerBytes <
              state.trailerBytes + (field.name.length + field.value.length)
          · rw [if_pos hlt]
            exact Or.inr ⟨hlt, failOversizedStream_emptied _ (by decide)⟩
          · rw [if_neg hlt]
            refine Or.inl ⟨hlt, rfl, ?_, by simp [bodyOf], by simp [headersOf], rfl⟩
            simp [fieldBytes, trailersOf]
  | data id bytes =>
      have hover : Over budgets state (.data id bytes) ↔
          budgets.maxResponseBytes < state.result.responseBody.length + bytes.length := by
        have hbytes : bodyOf [.data id bytes] = bytes := by simp [bodyOf]
        rw [Over, hbytes]
        exact or_iff_left (by simpa [trailersOf, fieldBytes] using htrailers)
      rw [hover, buffer, withData, if_neg hopen]
      by_cases hlt : budgets.maxResponseBytes < state.result.responseBody.length + bytes.length
      · rw [if_pos hlt]
        exact Or.inr ⟨hlt, failOversizedStream_emptied _ (by decide)⟩
      · rw [if_neg hlt]
        exact Or.inl ⟨hlt, rfl, rfl, by simp [bodyOf], by simp [headersOf], by simp [trailersOf]⟩
  | payloadRead id length =>
      refine Or.inl ⟨?_, rfl, rfl, by simp [bodyOf, buffer, payloadRead],
        by simp [headersOf, buffer, payloadRead], by simp [trailersOf, buffer, payloadRead]⟩
      simp only [Over, bodyOf, trailersOf, fieldBytes, List.flatMap_cons, List.flatMap_nil,
        List.filterMap_cons, List.filterMap_nil, List.map_nil, List.sum_nil, List.append_nil,
        List.length_nil]
      omega
  | streamClose | goaway => cases hc

theorem Buffered.step (h : Buffered budgets cs state) {c : Callback} (hc : c.ends = false) :
    Buffered budgets (cs ++ [c]) (buffer budgets state c) := by
  by_cases hexceeds : Exceeds budgets cs
  · exact h.refuse hexceeds c
  · obtain ⟨hoverflow, hcount, hbody, hheaders, htrailers⟩ := h.whole hexceeds
    obtain ⟨hbodyLe, htrailersLe⟩ := le_of_not_exceeds hexceeds
    have hover : Exceeds budgets (cs ++ [c]) ↔ Over budgets state c := by
      rw [exceeds_concat, bodyOf_concat, trailersOf_concat, fieldBytes_append,
        List.length_append, or_iff_right hexceeds, Over, hbody, hcount]
    have hpending : (buffer budgets state c).result.success = false ∧
        (buffer budgets state c).result.responseTooLarge = false := by
      rw [(buffer_pending budgets state c).1, (buffer_pending budgets state c).2]
      exact h.pending
    rw [← hbody] at hbodyLe
    rw [← hcount] at htrailersLe
    rcases buffer_cases hoverflow hbodyLe htrailersLe hc with ⟨hwithin, T⟩ | ⟨hout, R⟩
    · refine ⟨hpending, fun _ => ?_, fun hnot => absurd (hover.mp hnot) hwithin⟩
      refine ⟨T.overflow.trans hoverflow, ?_, ?_, ?_, ?_⟩
      · rw [T.trailerBytes, hcount, trailersOf_concat, fieldBytes_append]
      · rw [T.body, hbody, bodyOf_concat]
      · rw [T.headers, hheaders, headersOf_concat]
      · rw [T.trailers, htrailers, trailersOf_concat]
    · exact ⟨hpending, fun hnot => absurd (hover.mpr hout) hnot,
        fun _ => R⟩

theorem Fresh.run (h : Fresh state) (hcs : ∀ c ∈ cs, c.ends = false) :
    Buffered budgets cs (cs.foldl (buffer budgets) state) := by
  induction cs using List.reverseRecOn with
  | nil => exact h.buffered
  | append_singleton cs c ih =>
      rw [List.forall_mem_append, List.forall_mem_singleton] at hcs
      rw [List.foldl_append, List.foldl_cons, List.foldl_nil]
      exact (ih hcs.1).step hcs.2

end Buffering

/-! ### Results -/

/-- A response over budget: flagged, failed, and none of it kept. -/
structure Oversized (result : TransportResult) : Prop where
  tooLarge : result.responseTooLarge = true
  failed : result.success = false
  body : result.responseBody = []
  trailers : result.responseTrailers = []

/-- A response as it was received, on a stream that closed with the code. -/
structure Delivered (cs : List Callback) (errorCode : Nat) (result : TransportResult) : Prop where
  tooLarge : result.responseTooLarge = false
  success : result.success = decide (errorCode = 0)
  body : result.responseBody = bodyOf cs
  headers : result.responseHeaders = headersOf cs
  trailers : result.responseTrailers = trailersOf cs

theorem Buffered.oversized {budgets : ConnectOptions} {cs : List Callback} {state : StreamState}
    (h : Buffered budgets cs state) (hexceeds : Exceeds budgets cs) (errorCode : Nat) :
    Oversized (closeResult state errorCode) := by
  have E := h.refused hexceeds
  rw [closeResult, if_pos E.overflow]
  exact ⟨rfl, h.pending.1, E.body, E.trailers⟩

theorem Buffered.delivered {budgets : ConnectOptions} {cs : List Callback} {state : StreamState}
    (h : Buffered budgets cs state) (hwithin : ¬ Exceeds budgets cs) (errorCode : Nat) :
    Delivered cs errorCode (closeResult state errorCode) := by
  obtain ⟨hoverflow, -, hbody, hheaders, htrailers⟩ := h.whole hwithin
  rw [closeResult, if_neg (not_not_intro hoverflow)]
  by_cases hzero : errorCode = 0
  · rw [if_pos hzero]
    exact ⟨h.pending.2, (decide_eq_true hzero).symm, hbody, hheaders, htrailers⟩
  · have hfailed : state.result.success = decide (errorCode = 0) := by
      rw [decide_eq_false hzero]
      exact h.pending.1
    rw [if_neg hzero]
    split
    · exact ⟨h.pending.2, hfailed, hbody, hheaders, htrailers⟩
    · exact ⟨h.pending.2, hfailed, hbody, hheaders, htrailers⟩

/-- What is buffered is within the budgets. -/
theorem Buffered.le {budgets : ConnectOptions} {cs : List Callback} {state : StreamState}
    (h : Buffered budgets cs state) :
    state.result.responseBody.length ≤ budgets.maxResponseBytes ∧
      fieldBytes state.result.responseTrailers ≤ budgets.maxTrailerBytes := by
  by_cases hexceeds : Exceeds budgets cs
  · have E := h.refused hexceeds
    rw [E.body, E.trailers]
    exact ⟨Nat.zero_le _, Nat.zero_le _⟩
  · obtain ⟨-, -, hbody, -, htrailers⟩ := h.whole hexceeds
    rw [hbody, htrailers]
    exact le_of_not_exceeds hexceeds

/-! ### Any number of streams -/

/-- Streams that are open and have received nothing yet, each with a promise of its own. -/
structure Opened (t : StreamTables) : Prop where
  ids : (t.streams.map Prod.fst).Nodup
  promises : t.promises.Nodup
  fresh : ∀ entry ∈ t.streams, Fresh entry.2

/-- The invariants of the transport's runs give all but the last. -/
theorem Requests.opened {s : State} (h : Requests s)
    (hfresh : ∀ entry ∈ s.tables.streams, Fresh entry.2) : Opened s.tables where
  ids := h.paired.streams
  promises := by
    apply List.nodup_iff_count_le_one.mpr
    intro k
    have hcount := h.accounted k
    have hone : handedOut s.sends k ≤ 1 := by
      unfold handedOut
      split <;> omega
    unfold promisesAt at hcount
    rw [List.count_append] at hcount
    omega
  fresh := hfresh

section Streams

variable {t : StreamTables} {id : Nat} {state : StreamState}

theorem Opened.owned (h : Opened t) (hfind : t.find id = some state) :
    Owned id state.promise t where
  ids := h.ids
  owner := by
    intro key other hother
    constructor
    · intro hpromise
      have hnodup : (t.streams.map fun entry => entry.2.promise).Nodup :=
        (List.nodup_append.mp h.promises).1
      have hsame := List.inj_on_of_nodup_map hnodup (StreamTables.find_mem hother)
        (StreamTables.find_mem hfind) hpromise
      exact congrArg Prod.fst hsame
    · rintro rfl
      rw [hfind, Option.some.injEq] at hother
      rw [hother]

theorem Opened.unanswered (h : Opened t) (hfind : t.find id = some state) :
    answersTo t state.promise = [] := by
  unfold answersTo
  rw [List.map_eq_nil_iff, List.filter_eq_nil_iff]
  intro answer hanswer hpromise
  have hopen : state.promise ∈ t.streams.map fun entry => entry.2.promise :=
    List.mem_map_of_mem (f := fun entry => entry.2.promise) (StreamTables.find_mem hfind)
  have hset : state.promise ∈ t.answers.map Prod.fst :=
    of_decide_eq_true hpromise ▸ List.mem_map_of_mem hanswer
  exact (List.nodup_append.mp h.promises).2.2 _ hopen _ hset rfl

/-- What is seen of an open stream after the callbacks that reach it. -/
theorem Opened.view_run (h : Opened t) (hfind : t.find id = some state)
    (budgets : ConnectOptions) (cs : List Callback) :
    view id state.promise (respondAll budgets t cs) =
      (received id cs).foldl (StreamView.move budgets) ⟨some state, []⟩ := by
  have hview : view id state.promise t = ⟨some state, []⟩ := by
    rw [view, hfind, h.unanswered hfind]
  rw [respondAll, (projection budgets id state.promise).view_run cs (h.owned hfind), hview]
  rfl

theorem Opened.fresh_of_find (h : Opened t) (hfind : t.find id = some state) : Fresh state :=
  h.fresh _ (StreamTables.find_mem hfind)

/-- The callbacks open no stream. -/
theorem Opened.stays_closed (h : Opened t) (hfind : t.find id = none) (budgets : ConnectOptions)
    (cs : List Callback) : (respondAll budgets t cs).find id = none := by
  -- any promise that is in no stream will do for the view
  obtain ⟨promise, hpromise⟩ := Infinite.exists_notMem_finset t.promises.toFinset
  rw [List.mem_toFinset] at hpromise
  have howned : Owned id promise t := by
    refine ⟨h.ids, fun key state hother => iff_of_false ?_ ?_⟩
    · rintro rfl
      refine hpromise (List.mem_append_left _ ?_)
      exact List.mem_map_of_mem (f := fun entry => entry.2.promise) (StreamTables.find_mem hother)
    · rintro rfl
      rw [hfind] at hother
      cases hother
  have hview := (projection budgets id promise).view_run cs howned
  have hstart : view id promise t = ⟨none, answersTo t promise⟩ := by rw [view, hfind]
  rw [hstart, move_run_of_closed] at hview
  exact congrArg StreamView.state hview

/-- While the stream is open. -/
theorem Opened.view_open (h : Opened t) (hfind : t.find id = some state)
    (budgets : ConnectOptions) {cs : List Callback} (hcs : ∀ c ∈ received id cs, c.ends = false) :
    ∃ state', view id state.promise (respondAll budgets t cs) = ⟨some state', []⟩ ∧
      Buffered budgets (received id cs) state' := by
  refine ⟨_, ?_, (h.fresh_of_find hfind).run hcs⟩
  rw [h.view_run hfind, move_run_of_open budgets [] hcs]

/-- A stream that is still open has seen nothing that ends it. -/
theorem not_ended_of_open (budgets : ConnectOptions) (cs : List Callback) {v : StreamView}
    {state' : StreamState} (h : (cs.foldl (StreamView.move budgets) v).state = some state') :
    ∀ c ∈ cs, c.ends = false := by
  induction cs generalizing v with
  | nil => simp
  | cons c cs ih =>
      rw [List.foldl_cons] at h
      have hrest := ih h
      cases hends : c.ends with
      | false => exact List.forall_mem_cons.mpr ⟨hends, hrest⟩
      | true =>
          -- the stream is gone after `c`, and stays gone
          have hgone : (v.move budgets c).state = none := by
            obtain ⟨_ | state, answered⟩ := v
            · have hclosed := move_run_of_closed budgets answered [c]
              rw [List.foldl_cons, List.foldl_nil] at hclosed
              rw [hclosed]
            · exact move_of_ends budgets state answered hends
          have hstays := move_run_of_closed budgets (v.move budgets c).answered cs
          rw [← hgone] at hstays
          change cs.foldl (StreamView.move budgets) (v.move budgets c) = _ at hstays
          rw [hstays, hgone] at h
          cases h

/-- The close of a stream resolves its future, for good. -/
theorem Opened.view_closed (h : Opened t) (hfind : t.find id = some state)
    (budgets : ConnectOptions) {before : List Callback}
    (hbefore : ∀ c ∈ received id before, c.ends = false) (errorCode : Nat)
    (after : List Callback) :
    ∃ state', Buffered budgets (received id before) state' ∧
      answersTo (respondAll budgets t (before ++ .streamClose id errorCode :: after))
        state.promise = [closeResult state' errorCode] := by
  refine ⟨_, (h.fresh_of_find hfind).run hbefore, ?_⟩
  have hview := h.view_run hfind budgets (before ++ .streamClose id errorCode :: after)
  have hreceived : received id (before ++ .streamClose id errorCode :: after) =
      received id before ++ .streamClose id errorCode :: received id after := by
    simp [received, Callback.reaches]
  rw [hreceived, List.foldl_append, move_run_of_open budgets [] hbefore, List.foldl_cons] at hview
  have hclosed : StreamView.move budgets
      ⟨some ((received id before).foldl (buffer budgets) state), []⟩ (.streamClose id errorCode) =
        ⟨none, [closeResult ((received id before).foldl (buffer budgets) state) errorCode]⟩ := rfl
  rw [hclosed, move_run_of_closed] at hview
  exact congrArg StreamView.answered hview

end Streams

/-- The budgets, on any run of callbacks over the open streams. -/
structure RespectsBudgets (budgets : ConnectOptions) (t : StreamTables) (cs : List Callback) :
    Prop where
  /-- No more is buffered of a stream than its budgets allow. -/
  bounded : ∀ id state, (respondAll budgets t cs).find id = some state →
    state.result.responseBody.length ≤ budgets.maxResponseBytes ∧
      fieldBytes state.result.responseTrailers ≤ budgets.maxTrailerBytes
  /-- The future of a stream is resolved by its close, once, with what it has received or,
  over budget, with nothing of it. -/
  resolved : ∀ id state before errorCode after, t.find id = some state →
    cs = before ++ .streamClose id errorCode :: after →
    (∀ c ∈ received id before, c.ends = false) →
      answersTo (respondAll budgets t before) state.promise = [] ∧
        ∃ result, answersTo (respondAll budgets t cs) state.promise = [result] ∧
          (Exceeds budgets (received id before) → Oversized result) ∧
          (¬ Exceeds budgets (received id before) →
            Delivered (received id before) errorCode result)
  /-- What reaches other streams does not matter to it. -/
  isolated : ∀ id state cs', t.find id = some state → received id cs = received id cs' →
    answersTo (respondAll budgets t cs) state.promise =
      answersTo (respondAll budgets t cs') state.promise

theorem respectsBudgets (budgets : ConnectOptions) (t : StreamTables) (h : Opened t)
    (cs : List Callback) : RespectsBudgets budgets t cs where
  bounded := by
    intro id state' hfind'
    cases hfind : t.find id with
    | none =>
        rw [h.stays_closed hfind] at hfind'
        cases hfind'
    | some state =>
        have hview := h.view_run hfind budgets cs
        have hstate : ((received id cs).foldl (StreamView.move budgets) ⟨some state, []⟩).state =
            some state' := by
          rw [← hview]
          exact hfind'
        have hopen := not_ended_of_open budgets _ hstate
        rw [move_run_of_open budgets [] hopen, Option.some.injEq] at hstate
        rw [← hstate]
        exact ((h.fresh_of_find hfind).run hopen).le
  resolved := by
    intro id state before errorCode after hfind hcs hbefore
    obtain ⟨state', hview, -⟩ := h.view_open hfind budgets hbefore
    obtain ⟨state', hbuffered, hanswers⟩ := h.view_closed hfind budgets hbefore errorCode after
    refine ⟨congrArg StreamView.answered hview, _, hcs ▸ hanswers, ?_, ?_⟩
    · exact fun hexceeds => hbuffered.oversized hexceeds errorCode
    · exact fun hwithin => hbuffered.delivered hwithin errorCode
  isolated := by
    intro id state cs' hfind hsame
    have hview := (projection budgets id state.promise).view_congr (h.owned hfind) hsame
    exact congrArg StreamView.answered hview

/-- Two streams; each has a budget of four bytes. -/
def twoStreams : StreamTables where
  streams :=
    [(1, { payload := ⟨0, 0⟩, promise := 10, handleId := 1 }),
      (3, { payload := ⟨0, 0⟩, promise := 11, handleId := 2 })]

theorem twoStreams_opened : Opened twoStreams where
  ids := by decide
  promises := by decide
  fresh := by
    intro entry hentry
    simp only [twoStreams, List.mem_cons, List.not_mem_nil, or_false] at hentry
    rcases hentry with rfl | rfl
    · exact ⟨rfl, rfl, rfl⟩
    · exact ⟨rfl, rfl, rfl⟩

theorem respectsBudgets_twoStreams :
    RespectsBudgets { maxResponseBytes := 4, maxTrailerBytes := 4 } twoStreams
      [.data 1 [1, 2, 3], .data 3 [4], .data 1 [5, 6], .streamClose 3 0, .streamClose 1 0] :=
  respectsBudgets _ twoStreams twoStreams_opened _

end Microtel.Transport.Http2Transport
