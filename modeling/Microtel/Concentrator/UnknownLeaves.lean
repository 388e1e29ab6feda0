import Microtel.Concentrator.ReceiverRuns

/-!
Under `unknown_leaf = reject`, payloads of leaves that nothing configures: they
never reach a call that inserts into the leaf table, and what the unknown-leaf
cache holds of them is the only trace they leave.
-/

namespace Microtel.Concentrator

namespace LeafTable

variable {σ ρ : Type} {t : LeafTable σ ρ} {c : Call σ ρ} {id : Bytes}

theorem Absent.step (I : t.Inv) (h : t.Absent id) (hne : c.id ≠ id) : (t.step c).1.Absent id := by
  have S := (step_spec I.toWellLinked I.maxLeaves_pos c).1
  rintro ⟨a, e'⟩ hmem
  rcases steps_node I S hmem with ⟨e, he, rfl | ⟨hid, rfl⟩⟩ | ⟨-, -, rfl⟩
  · exact h (a, e') he
  · dsimp only
    rw [c.effect_id, hid]
    exact hne
  · dsimp only
    rw [c.effect_id]
    exact hne

/-- A settings lookup of an id without an entry changes nothing. -/
theorem settings_absent (I : t.Inv) (h : t.Absent id) (now : TimePoint) :
    t.settings id now = (t, none) := by
  unfold settings
  rw [touch_absent I.toWellLinked h]

end LeafTable

namespace Receiver

variable (r : Receiver)

/-- The id a request settles to. -/
def settledId (req : IngestRequest) : Bytes :=
  r.settleLeafId req
    (match r.deps.decode req.payload r.decodeLimits with
      | .ok decoded => decoded
      | .error _ => [])

theorem settledId_transport {req : IngestRequest} (h : req.leafId.isEmpty = false) :
    r.settledId req = req.leafId := by
  unfold settledId settleLeafId
  rw [h]
  rfl

/-- The leaf a call is about, while it runs. -/
def leafOf : Job → Option Bytes
  | .admitting req _ _ => some (r.settledId req)
  | .lookingUp p | .checkingUnknown p | .asking p | .refusing p | .adopting p _ | .enqueueing p _
  | .finding p _ _ _ | .inserting p _ _ _ _ | .emitting p _ _ _ _ _ => some p.leafId
  | .finished _ => none

/-- The call has no settings yet. -/
def Unsettled : Job → Prop
  | .admitting _ _ _ | .lookingUp _ | .checkingUnknown _ | .asking _ | .refusing _ | .finished _ =>
      True
  | _ => False

/-- A question to the resolver, and its answer. -/
structure Ask where
  leafId : Bytes
  now : TimePoint
  answer : Option LeafConfig

def askOf (σ : State) : Action → Option Ask
  | .answer call a =>
      match σ.jobs call with
      | some (.asking p) => some ⟨p.leafId, p.now, a⟩
      | _ => none
  | _ => none

/-- The questions of a run, in order. -/
def asks (actions : List Action) : List Ask := Machine.trace r.step askOf r.init actions

/-- No static entry and no answer in the run configures these leaves. -/
def NeverConfigured (unknown : Bytes → Bool) (actions : List Action) : Prop :=
  (∀ id, unknown id = true → staticLeaf r.options id = none) ∧
    ∀ q ∈ r.asks actions, unknown q.leafId = true → q.answer = none

/-- Each time the run looks for another leaf's refusal in the cache, it finds
the same as if no answer about these leaves had ever been put there. -/
def RefusalsKept (unknown : Bytes → Bool) (actions : List Action) : Prop :=
  ∀ calls id now rest, r.cacheCalls actions = calls ++ .contains id now :: rest →
    unknown id = false →
    ((r.init.shared.unknown.run calls).contains id now).2 =
      ((r.init.shared.unknown.run (calls.filter fun c => !unknown c.id)).contains id now).2

/-- The actions that are not about a marked call. -/
def without (marked : Nat → Bool) (actions : List Action) : List Action :=
  actions.filter fun a =>
    match a.call with
    | some call => !marked call
    | none => true

variable {r} {unknown : Bytes → Bool} {s s' t : Shared} {job job' : Job} {σ σ' : State} {a : Action}
  {id : Bytes}

theorem mem_asks {before after : List Action} {call : Nat} {c : Option LeafConfig} {p : Payload}
    (hrun : Machine.run r.step r.init (before ++ .answer call c :: after) = some σ')
    (hbefore : Machine.run r.step r.init before = some σ) (hjob : σ.jobs call = some (.asking p)) :
    ⟨p.leafId, p.now, c⟩ ∈ r.asks (before ++ .answer call c :: after) := by
  apply Machine.mem_trace hrun hbefore
  unfold askOf
  dsimp only
  rw [hjob]

/-! ### The leaf of a call -/

theorem tableCall_leaf {c : LeafTable.Call LeafSettings Resource} (h : r.tableCall job = some c) :
    r.leafOf job = some c.id := by
  cases job with
  | enqueueing p g =>
      simp only [tableCall] at h
      split at h
      · cases h
        rfl
      · cases h
  | lookingUp p => cases h; rfl
  | adopting p fresh => cases h; rfl
  | finding p g rs c => cases h; rfl
  | inserting p g rs c resolved => cases h; rfl
  | _ => cases h

theorem cacheCall_leaf {c : UnknownLeafCache.Call} (h : r.cacheCall job = some c) :
    r.leafOf job = some c.id := by
  cases job with
  | admitting req received now =>
      unfold cacheCall at h
      dsimp only at h
      split at h
      · next hasks =>
        cases h
        unfold asksBeforeDecode at hasks
        simp only [Bool.and_eq_true, Bool.not_eq_true'] at hasks
        exact congrArg some (r.settledId_transport hasks.1.1.1.2)
      · cases h
  | checkingUnknown p => cases h; rfl
  | refusing p => cases h; rfl
  | _ => cases h

theorem identified_leaf {p : Payload} {settings : LeafSettings}
    (h : r.identified s p settings = (s', job')) : r.leafOf job' = some p.leafId ∨
      r.leafOf job' = none := by
  rcases identified_cases h with rfl | rfl
  · exact Or.inr rfl
  · exact Or.inl rfl

/-- A call stays with its leaf until it returns. -/
theorem advance_leaf (h : r.advance s job = some (s', job')) :
    r.leafOf job' = r.leafOf job ∨ r.leafOf job' = none := by
  cases job with
  | admitting req received now =>
      rcases admit_cases (Option.some.inj h) with ⟨result, rfl⟩ | ⟨decoded, modes, hdecode, rfl⟩
      · exact Or.inr rfl
      · left
        simp only [leafOf, settledId, hdecode]
  | lookingUp p =>
      have hlook := Option.some.inj h
      unfold lookUp at hlook
      dsimp only at hlook
      split at hlook
      · exact identified_leaf hlook
      · rw [← (Prod.mk.inj hlook).2]
        left
        split <;> rfl
  | checkingUnknown p =>
      have hcheck := Option.some.inj h
      unfold checkUnknown at hcheck
      dsimp only at hcheck
      split at hcheck
      · rw [← (Prod.mk.inj hcheck).2]
        exact Or.inr rfl
      · rw [← (Prod.mk.inj hcheck).2]
        exact Or.inl rfl
  | asking p => cases h
  | refusing p =>
      rw [← (Prod.mk.inj (Option.some.inj h)).2]
      exact Or.inr rfl
  | adopting p fresh =>
      have hadopt := Option.some.inj h
      unfold adopt at hadopt
      dsimp only at hadopt
      split at hadopt
      · exact identified_leaf hadopt
      · rw [← (Prod.mk.inj hadopt).2]
        exact Or.inr rfl
  | enqueueing p g =>
      have henqueue := Option.some.inj h
      unfold enqueue at henqueue
      split at henqueue
      · rw [← (Prod.mk.inj henqueue).2]
        exact Or.inr rfl
      · rw [← (Prod.mk.inj henqueue).2]
        exact Or.inl rfl
  | finding p g rs c =>
      have hfind := Option.some.inj h
      unfold find at hfind
      dsimp only at hfind
      split at hfind
      · rw [← (Prod.mk.inj hfind).2]
        exact Or.inl rfl
      · rw [← (Prod.mk.inj hfind).2]
        exact Or.inl rfl
  | inserting p g rs c resolved =>
      rw [← (Prod.mk.inj (Option.some.inj h)).2]
      exact Or.inl rfl
  | emitting p g rs c resource spans =>
      cases spans with
      | nil =>
          rw [← (Prod.mk.inj (Option.some.inj h)).2]
          exact Or.inl rfl
      | cons span spans => cases h
  | finished result => cases h

theorem act_leaf (h : r.act s a job = some (s', job')) :
    r.leafOf job' = r.leafOf job ∨ r.leafOf job' = none := by
  cases a with
  | advance call => exact advance_leaf h
  | answer call a =>
      cases job with
      | asking p =>
          have hcases := r.answered_cases s p a
          simp only [act, answer] at h
          split at h
          · cases h
          · rw [Option.some.inj h] at hcases
            left
            rcases hcases with heq | heq
            · obtain rfl : job' = .refusing p := heq
              rfl
            · obtain rfl : job' = .adopting p (resolveSettings r.options p.leafId a).1 := heq
              rfl
      | _ => cases h
  | sample call sampling queued =>
      cases job with
      | emitting p g rs c resource spans =>
          cases spans with
          | nil => cases h
          | cons span spans =>
              rw [← (Prod.mk.inj (Option.some.inj h)).2]
              exact Or.inl rfl
      | _ => cases h
  | outOfMemory call =>
      cases job with
      | finished result => cases h
      | _ =>
          rw [← (Prod.mk.inj (Option.some.inj h)).2]
          exact Or.inr rfl
  | ingest call req clock now => cases h
  | markShutDown => cases h

/-! ### A call of an unknown leaf -/

/-- The answer configures no unknown leaf. -/
def AnswersKnown (unknown : Bytes → Bool) (σ : State) (a : Action) : Prop :=
  ∀ call c p, a = .answer call (some c) → σ.jobs call = some (.asking p) → unknown p.leafId = false

/-- Step lemma: a call of a leaf that nothing configures leaves the table alone
and gets no settings. -/
theorem act_unsettled (hreject : r.rejects = true) (I : s.table.Inv)
    (habsent : s.table.Absent id) (hstatic : staticLeaf r.options id = none)
    (hleaf : r.leafOf job = some id) (hjob : Unsettled job)
    (hanswer : ∀ call c p, a = .answer call (some c) → job = .asking p → False)
    (h : r.act s a job = some (s', job')) : s'.table = s.table ∧ Unsettled job' := by
  cases a with
  | advance call =>
      have htable := (advance_calls h).table
      cases job with
      | admitting req received now =>
          refine ⟨htable, ?_⟩
          rcases admit_cases (Option.some.inj h) with ⟨result, rfl⟩ | ⟨decoded, modes, hdecode, rfl⟩
          · trivial
          · trivial
      | lookingUp p =>
          obtain rfl := Option.some.inj hleaf
          have hnone := LeafTable.settings_absent I habsent p.now
          have hlook := Option.some.inj h
          unfold lookUp at hlook
          rw [hnone] at hlook
          obtain ⟨rfl, rfl⟩ := Prod.mk.inj hlook
          rw [hreject]
          exact ⟨rfl, trivial⟩
      | checkingUnknown p =>
          refine ⟨htable, ?_⟩
          have hcheck := Option.some.inj h
          unfold checkUnknown at hcheck
          dsimp only at hcheck
          split at hcheck
          · rw [← (Prod.mk.inj hcheck).2]
            trivial
          · rw [← (Prod.mk.inj hcheck).2]
            trivial
      | refusing p =>
          refine ⟨htable, ?_⟩
          rw [← (Prod.mk.inj (Option.some.inj h)).2]
          trivial
      | asking p => cases h
      | finished result => cases h
      | _ => cases hjob
  | answer call a =>
      cases job with
      | asking p =>
          obtain rfl := Option.some.inj hleaf
          cases a with
          | some c => exact (hanswer call c p rfl rfl).elim
          | none =>
              have hframe := (act_frame (by simp) h).table
              simp only [act, answer, Option.isSome_none, Bool.and_false, Bool.false_eq_true,
                if_false] at h
              refine ⟨hframe, ?_⟩
              rw [← (Prod.mk.inj (Option.some.inj h)).2]
              simp only [staticSettings, hstatic, hreject, Bool.not_false,
                Bool.and_self, if_true]
              trivial
      | _ => cases h
  | sample call sampling queued =>
      cases job with
      | emitting p g rs c resource spans => cases hjob
      | _ => cases h
  | outOfMemory call =>
      refine ⟨(act_frame (by simp) h).table, ?_⟩
      cases job with
      | finished result => cases h
      | _ =>
          rw [← (Prod.mk.inj (Option.some.inj h)).2]
          trivial
  | ingest call req clock now => cases h
  | markShutDown => cases h

/-! ### The table without the calls of unknown leaves -/

/-- The call an action makes on the table is about the leaf of its job. -/
theorem tableCallOf_leaf {c : LeafTable.Call LeafSettings Resource}
    (h : r.tableCallOf σ a = some c) :
    ∃ call job, a.call = some call ∧ σ.jobs call = some job ∧ r.leafOf job = some c.id := by
  cases a with
  | advance call =>
      obtain ⟨job, hjob, hc⟩ := Option.bind_eq_some_iff.mp h
      exact ⟨call, job, rfl, hjob, tableCall_leaf hc⟩
  | _ => cases h

/-- The call an action makes on the cache is about the leaf of its job. -/
theorem cacheCallOf_leaf {c : UnknownLeafCache.Call} (h : r.cacheCallOf σ a = some c) :
    ∃ call job, a.call = some call ∧ σ.jobs call = some job ∧ r.leafOf job = some c.id := by
  cases a with
  | advance call =>
      obtain ⟨job, hjob, hc⟩ := Option.bind_eq_some_iff.mp h
      exact ⟨call, job, rfl, hjob, cacheCall_leaf hc⟩
  | _ => cases h

/-- What unknown leaves have done to the receiver: nothing to the table, and
their calls have no settings. -/
structure Ignored (r : Receiver) (unknown : Bytes → Bool) (σ : State) : Prop where
  table : σ.shared.table.Inv
  absent : ∀ id, unknown id = true → σ.shared.table.Absent id
  unsettled : ∀ call job id, σ.jobs call = some job → r.leafOf job = some id →
    unknown id = true → Unsettled job

theorem Ignored.init (r : Receiver) (unknown : Bytes → Bool) : r.Ignored unknown r.init where
  table := LeafTable.Inv.new ..
  absent := by
    intro id _ n hn
    cases hn
  unsettled := by
    intro call job id hjob
    cases hjob

/-- Step lemma: unknown leaves stay ignored, and a step whose call on the table
is about one of them leaves the table alone. -/
theorem Ignored.step (G : r.Ignored unknown σ) (hreject : r.rejects = true)
    (hstatic : ∀ id, unknown id = true → staticLeaf r.options id = none)
    (hanswer : AnswersKnown unknown σ a) (h : r.step σ a = some σ') :
    r.Ignored unknown σ' ∧
      (∀ call job id, a.call = some call → σ.jobs call = some job → r.leafOf job = some id →
        unknown id = true → σ'.shared.table = σ.shared.table) := by
  have hcalls := (step_calls h).1
  have hjobs : ∀ {call : Nat} {next : Shared × Job},
      (∀ id, r.leafOf next.2 = some id → unknown id = true → Unsettled next.2) →
      ∀ call' job id, (σ.put call next).jobs call' = some job → r.leafOf job = some id →
        unknown id = true → Unsettled job := by
    intro call next hnext call' job id hjob hleaf hunknown
    by_cases hself : call' = call
    · subst hself
      rw [State.put_self] at hjob
      obtain rfl := Option.some.inj hjob
      exact hnext id hleaf hunknown
    · rw [State.put_other σ next hself] at hjob
      exact G.unsettled call' job id hjob hleaf hunknown
  cases step_spec h with
  | @begun call req clock now hfresh =>
      have htable := (begin_frame σ.shared req clock now).table
      refine ⟨⟨?_, ?_, hjobs ?_⟩, fun _ _ _ _ _ _ _ => htable⟩
      · change (begin σ.shared req clock now).1.table.Inv
        rw [htable]
        exact G.table
      · change ∀ id, unknown id = true → (begin σ.shared req clock now).1.table.Absent id
        rw [htable]
        exact G.absent
      · intro id _ _
        unfold begin
        split <;> trivial
  | @acted _ call job next hcall hjob hact =>
      obtain ⟨s', job'⟩ := next
      change s'.table = _ at hcalls
      have hself : ∀ id, r.leafOf job = some id → unknown id = true →
          s'.table = σ.shared.table ∧ Unsettled job' := by
        intro id hleaf hunknown
        refine act_unsettled hreject G.table (G.absent id hunknown) (hstatic id hunknown) hleaf
          (G.unsettled call job id hjob hleaf hunknown) ?_ hact
        rintro call' c p rfl rfl
        obtain rfl := Option.some.inj hcall
        have hknown := hanswer call' c p rfl hjob
        obtain rfl := Option.some.inj hleaf
        rw [hunknown] at hknown
        cases hknown
      refine ⟨⟨?_, ?_, hjobs ?_⟩, ?_⟩
      · change s'.table.Inv
        rw [hcalls]
        exact called_inv G.table _
      · intro id hunknown
        change s'.table.Absent id
        cases hc : r.tableCallOf σ a with
        | none =>
            rw [hcalls, hc]
            exact G.absent id hunknown
        | some c =>
            obtain ⟨call', job'', hcall', hjob', hleaf⟩ := tableCallOf_leaf hc
            obtain rfl := Option.some.inj (hcall.symm.trans hcall')
            obtain rfl := Option.some.inj (hjob.symm.trans hjob')
            by_cases hid : c.id = id
            · rw [(hself id (hid ▸ hleaf) hunknown).1]
              exact G.absent id hunknown
            · rw [hcalls, hc]
              exact (G.absent id hunknown).step G.table hid
      · intro id hleaf hunknown
        rcases act_leaf hact with hsame | hnone
        · rw [hsame] at hleaf
          exact (hself id hleaf hunknown).2
        · rw [hnone] at hleaf
          cases hleaf
      · intro call' job' id hcall' hjob' hleaf hunknown
        obtain rfl := Option.some.inj (hcall.symm.trans hcall')
        obtain rfl := Option.some.inj (hjob.symm.trans hjob')
        exact (hself id hleaf hunknown).1
  | shut => exact ⟨⟨G.table, G.absent, G.unsettled⟩, fun _ _ _ _ _ _ _ => rfl⟩

/-! ### The receiver without the calls of unknown leaves -/

/-- Two states that a call of any other leaf cannot tell apart, but by the
unknown-leaf cache. -/
structure Like (s s' : Shared) : Prop where
  table : s'.table = s.table
  shutDown : s'.shutDown = s.shutDown

/-- What the job looks for in the cache it finds in both. -/
def SameAnswer (r : Receiver) (s s' : Shared) (job : Job) : Prop :=
  ∀ id now, r.cacheCall job = some (.contains id now) →
    (s'.unknown.contains id now).2 = (s.unknown.contains id now).2

theorem admit_like {req : IngestRequest} {received : Int} {now : TimePoint}
    (hsame : r.SameAnswer s s' (.admitting req received now)) :
    (r.admitRequest s' req received now).2 = (r.admitRequest s req received now).2 := by
  unfold admitRequest
  split
  · rfl
  · next hpayload =>
    split
    · rfl
    · next hid =>
      have hrefused : (r.refusedBeforeDecode s' req now).2 =
          (r.refusedBeforeDecode s req now).2 := by
        rw [refusedBeforeDecode_eq s now (Nat.not_lt.mp hpayload) (Nat.not_lt.mp hid),
          refusedBeforeDecode_eq s' now (Nat.not_lt.mp hpayload) (Nat.not_lt.mp hid)]
        split
        · next hasks =>
          apply hsame
          exact if_pos hasks
        · rfl
      generalize r.refusedBeforeDecode s req now = q at hrefused ⊢
      generalize r.refusedBeforeDecode s' req now = q' at hrefused ⊢
      obtain ⟨t, refused⟩ := q
      obtain ⟨t', refused'⟩ := q'
      obtain rfl : refused' = refused := hrefused
      dsimp only
      split
      · rfl
      · split
        · rfl
        · rfl
        · split
          · rfl
          · unfold identify
            dsimp only
            split <;> rfl

theorem identified_like (s s' : Shared) (p : Payload) (settings : LeafSettings) :
    (r.identified s' p settings).2 = (r.identified s p settings).2 := by
  unfold identified
  split <;> rfl

theorem enqueueSpan_like (s s' : Shared) (result : IngestResult) (span : ScopedSpan)
    (c : TimeCorrection) (resource : Option Resource) (sampling : SamplingResult) (queued : Bool) :
    (r.enqueueSpan s' result span c resource sampling queued).2 =
      (r.enqueueSpan s result span c resource sampling queued).2 := by
  unfold enqueueSpan
  dsimp only
  split
  · rfl
  · split <;> rfl

/-- A call of another leaf goes on in the same way. -/
theorem advance_like (L : Like s s') (hsame : r.SameAnswer s s' job)
    (h : r.advance s job = some (t, job')) : ∃ t', r.advance s' job = some (t', job') := by
  have hpair : ∀ {x y : Shared × Job}, some x = some (t, job') → y.2 = x.2 →
      ∃ t', some y = some (t', job') := by
    intro x y hx hy
    rw [Option.some.inj hx] at hy
    exact ⟨y.1, congrArg some (Prod.ext rfl hy)⟩
  cases job with
  | admitting req received now => exact hpair h (admit_like hsame)
  | lookingUp p =>
      apply hpair h
      unfold lookUp
      dsimp only
      rw [L.table]
      split
      · exact identified_like ..
      · rfl
  | checkingUnknown p =>
      apply hpair h
      have hcached := hsame p.leafId p.now rfl
      unfold checkUnknown
      dsimp only
      rw [hcached]
      split <;> rfl
  | asking p => cases h
  | refusing p => exact hpair h rfl
  | adopting p fresh =>
      apply hpair h
      unfold adopt
      dsimp only
      rw [L.table]
      split
      · exact identified_like ..
      · rfl
  | enqueueing p g =>
      apply hpair h
      unfold enqueue
      split
      · rfl
      · dsimp only [Shared.recordDrop]
        rw [L.table]
  | finding p g rs c =>
      apply hpair h
      unfold find
      dsimp only
      rw [L.table]
      split <;> rfl
  | inserting p g rs c resolved =>
      apply hpair h
      unfold insert
      dsimp only
      rw [L.table]
  | emitting p g rs c resource spans =>
      cases spans with
      | nil => exact hpair h rfl
      | cons span spans => cases h
  | finished result => cases h

theorem act_like (L : Like s s') (hsame : ∀ call, a = .advance call → r.SameAnswer s s' job)
    (h : r.act s a job = some (t, job')) : ∃ t', r.act s' a job = some (t', job') := by
  cases a with
  | advance call => exact advance_like L (hsame call rfl) h
  | answer call a =>
      cases job with
      | asking p =>
          simp only [act, answer] at h ⊢
          split at h
          · cases h
          · next hallowed =>
            rw [if_neg hallowed]
            refine ⟨(r.answered s' p a).1, ?_⟩
            rw [← (Prod.mk.inj (Option.some.inj h)).2]
            rfl
      | _ => cases h
  | sample call sampling queued =>
      cases job with
      | emitting p g rs c resource spans =>
          cases spans with
          | nil => cases h
          | cons span spans =>
              refine ⟨(r.enqueueSpan s' g.result span c resource sampling queued).1, ?_⟩
              have hjob : job' = .emitting p
                  { g with result := (r.enqueueSpan s g.result span c resource sampling queued).2 }
                  rs c resource spans := (Prod.mk.inj (Option.some.inj h)).2.symm
              rw [hjob, ← enqueueSpan_like s s']
              rfl
      | _ => cases h
  | outOfMemory call =>
      cases job with
      | finished result => cases h
      | _ => exact ⟨_, congrArg some (Prod.ext rfl (Prod.mk.inj (Option.some.inj h)).2)⟩
  | ingest call req clock now => cases h
  | markShutDown => cases h

/-- The run without the marked calls. -/
structure Without (r : Receiver) (unknown : Bytes → Bool) (marked : Nat → Bool) (σ σ' : State) :
    Prop where
  like : Like σ.shared σ'.shared
  gone : ∀ call, marked call = true → σ'.jobs call = none
  same : ∀ call, marked call = false → σ'.jobs call = σ.jobs call
  leaf : ∀ call job id, σ.jobs call = some job → r.leafOf job = some id → unknown id = marked call

theorem Without.init (r : Receiver) (unknown : Bytes → Bool) (marked : Nat → Bool) :
    r.Without unknown marked r.init r.init where
  like := ⟨rfl, rfl⟩
  gone := fun _ _ => rfl
  same := fun _ _ => rfl
  leaf := by
    intro call job id hjob
    cases hjob

/-- A call refuses its leaf only after an answer that did not configure it. -/
theorem act_refusing {p : Payload} (h : r.act s a job = some (s', .refusing p)) :
    ∃ call c, a = .answer call c ∧ job = .asking p ∧
      (resolveSettings r.options p.leafId c).1.configured = false := by
  cases a with
  | advance call =>
      exfalso
      cases job with
      | admitting req received now =>
          rcases admit_cases (Option.some.inj h) with ⟨result, heq⟩ | ⟨decoded, modes, hdecode, heq⟩
          · cases heq
          · cases heq
      | lookingUp p =>
          have hlook := Option.some.inj h
          unfold lookUp at hlook
          dsimp only at hlook
          split at hlook
          · rcases identified_cases hlook with heq | heq <;> cases heq
          · have heq := (Prod.mk.inj hlook).2
            split at heq <;> cases heq
      | checkingUnknown p =>
          have hcheck := Option.some.inj h
          unfold checkUnknown at hcheck
          dsimp only at hcheck
          split at hcheck <;> cases (Prod.mk.inj hcheck).2
      | adopting p fresh =>
          have hadopt := Option.some.inj h
          unfold adopt at hadopt
          dsimp only at hadopt
          split at hadopt
          · rcases identified_cases hadopt with heq | heq <;> cases heq
          · cases (Prod.mk.inj hadopt).2
      | enqueueing p g =>
          have henqueue := Option.some.inj h
          unfold enqueue at henqueue
          split at henqueue <;> cases (Prod.mk.inj henqueue).2
      | finding p g rs c =>
          have hfind := Option.some.inj h
          unfold find at hfind
          dsimp only at hfind
          split at hfind <;> cases (Prod.mk.inj hfind).2
      | refusing p => cases (Prod.mk.inj (Option.some.inj h)).2
      | inserting p g rs c resolved => cases (Prod.mk.inj (Option.some.inj h)).2
      | emitting p g rs c resource spans =>
          cases spans with
          | nil => cases (Prod.mk.inj (Option.some.inj h)).2
          | cons span spans => cases h
      | asking p => cases h
      | finished result => cases h
  | answer call c =>
      cases job with
      | asking p' =>
          simp only [act, answer, answered] at h
          split at h
          · cases h
          · have heq := (Prod.mk.inj (Option.some.inj h)).2
            split at heq
            · next hcond =>
              cases heq
              have hconf := (Bool.and_eq_true_iff.mp hcond).2
              exact ⟨call, c, rfl, rfl, by simpa using hconf⟩
            · cases heq
      | _ => cases h
  | sample call sampling queued =>
      cases job with
      | emitting p g rs c resource spans =>
          cases spans with
          | nil => cases h
          | cons span spans => cases (Prod.mk.inj (Option.some.inj h)).2
      | _ => cases h
  | outOfMemory call =>
      cases job with
      | finished result => cases h
      | _ => cases (Prod.mk.inj (Option.some.inj h)).2
  | ingest call req clock now => cases h
  | markShutDown => cases h

theorem begin_job (s : Shared) (req : IngestRequest) (clock : Int) (now : TimePoint) :
    (∃ received, (begin s req clock now).2 = .admitting req received now) ∨
      ∃ result, (begin s req clock now).2 = .finished result := by
  unfold begin
  split
  · exact Or.inr ⟨_, rfl⟩
  · exact Or.inl ⟨_, rfl⟩

/-- A call of another leaf makes the same call on the table. -/
theorem act_table {call : Nat} {t' : Shared} (hcall : a.call = some call) (L : Like s s')
    (h : r.act s a job = some (t, job')) (h' : r.act s' a job = some (t', job')) :
    Like t t' := by
  rcases advance_or_other hcall with rfl | hother
  · have C := advance_calls h
    have C' := advance_calls h'
    refine ⟨?_, ?_⟩
    · rw [C.table, C'.table, L.table]
    · rw [C.shutDown, C'.shutDown, L.shutDown]
  · have S := act_frame hother h
    have S' := act_frame hother h'
    refine ⟨?_, ?_⟩
    · rw [S.table, S'.table, L.table]
    · rw [S.shutDown, S'.shutDown, L.shutDown]

variable {marked : Nat → Bool}

theorem Without.acted_leaf (W : r.Without unknown marked σ σ') {call : Nat}
    (hjob : σ.jobs call = some job) (hact : r.act σ.shared a job = some (t, job')) :
    ∀ call' job id, (σ.put call (t, job')).jobs call' = some job → r.leafOf job = some id →
      unknown id = marked call' := by
  have hleaf : ∀ call' job, (σ.put call (t, job')).jobs call' = some job →
      ∀ id, r.leafOf job = some id → unknown id = marked call' := by
    apply State.put_jobs
    · intro id hleaf
      rcases act_leaf hact with hsame | hnone
      · exact W.leaf call job id hjob (hsame ▸ hleaf)
      · rw [hnone] at hleaf
        cases hleaf
    · intro call' job' _ hjob' id
      exact W.leaf call' job' id hjob'
  exact fun call' job id hjob hleaf' => hleaf call' job hjob id hleaf'

theorem Without.begun_leaf (W : r.Without unknown marked σ σ') {call : Nat} {req : IngestRequest}
    (clock : Int) (now : TimePoint) (hmarked : marked call = unknown (r.settledId req)) :
    ∀ call' job id, (σ.put call (begin σ.shared req clock now)).jobs call' = some job →
      r.leafOf job = some id → unknown id = marked call' := by
  have hleaf : ∀ call' job, (σ.put call (begin σ.shared req clock now)).jobs call' = some job →
      ∀ id, r.leafOf job = some id → unknown id = marked call' := by
    apply State.put_jobs
    · intro id hid
      rcases begin_job σ.shared req clock now with ⟨received, heq⟩ | ⟨result, heq⟩
      · rw [heq] at hid
        rw [hmarked, ← Option.some.inj hid]
      · rw [heq] at hid
        cases hid
    · intro call' job _ hjob' id hid
      exact W.leaf call' job id hjob' hid
  exact fun call' job id hj hid => hleaf call' job hj id hid

/-- Step lemma: the step of a marked call does not show in the run without it. -/
theorem Without.marked_step (W : r.Without unknown marked σ σ') {σ₂ : State} {call : Nat}
    (htable : ∀ job id, σ.jobs call = some job → r.leafOf job = some id → unknown id = true →
      σ₂.shared.table = σ.shared.table)
    (hingest : ∀ call req clock now, a = .ingest call req clock now →
      marked call = unknown (r.settledId req))
    (hcall : a.call = some call) (hmarked : marked call = true) (h : r.step σ a = some σ₂) :
    r.Without unknown marked σ₂ σ' := by
  have hsame : ∀ {next : Shared × Job}, ∀ call', marked call' = false →
      σ'.jobs call' = (σ.put call next).jobs call' := by
    intro next call' hunmarked
    have hne : call' ≠ call := by
      rintro rfl
      rw [hmarked] at hunmarked
      cases hunmarked
    rw [State.put_other σ next hne]
    exact W.same call' hunmarked
  cases step_spec h with
  | @begun call₁ req clock now hfresh =>
      obtain rfl := Option.some.inj hcall
      have S := begin_frame σ.shared req clock now
      exact ⟨⟨W.like.table.trans S.table.symm, W.like.shutDown.trans S.shutDown.symm⟩,
        W.gone, hsame, W.begun_leaf clock now (hingest _ req clock now rfl)⟩
  | @acted _ call₁ job next hcall₁ hjob hact =>
      obtain rfl := Option.some.inj (hcall.symm.trans hcall₁)
      obtain ⟨t, job'⟩ := next
      have hrunning : ∃ id, r.leafOf job = some id := by
        cases job with
        | finished result => cases a <;> cases hact
        | _ => exact ⟨_, rfl⟩
      obtain ⟨id, hid⟩ := hrunning
      have hkept : t.table = σ.shared.table :=
        htable job id hjob hid ((W.leaf call job id hjob hid).trans hmarked)
      have hshut : t.shutDown = σ.shared.shutDown := by
        rcases advance_or_other hcall with rfl | hother
        · exact (advance_calls hact).shutDown
        · exact (act_frame hother hact).shutDown
      exact ⟨⟨W.like.table.trans hkept.symm, W.like.shutDown.trans hshut.symm⟩, W.gone, hsame,
        W.acted_leaf hjob hact⟩
  | shut => cases hcall

/-- Step lemma: any other step happens in the run without the marked calls too,
if what it looks for in the cache it finds in both. -/
theorem Without.other_step (W : r.Without unknown marked σ σ') {σ₂ : State}
    (hanswer : ∀ id now, r.cacheCallOf σ a = some (.contains id now) → unknown id = false →
      (σ'.shared.unknown.contains id now).2 = (σ.shared.unknown.contains id now).2)
    (hingest : ∀ call req clock now, a = .ingest call req clock now →
      marked call = unknown (r.settledId req))
    (hunmarked : ∀ call, a.call = some call → marked call = false) (h : r.step σ a = some σ₂) :
    ∃ σ₂', r.step σ' a = some σ₂' ∧ r.Without unknown marked σ₂ σ₂' := by
  have hgone : ∀ {call : Nat} {next : Shared × Job}, marked call = false →
      ∀ call', marked call' = true → (σ'.put call next).jobs call' = none := by
    intro call next hcall call' hmarked
    have hne : call' ≠ call := by
      rintro rfl
      rw [hmarked] at hcall
      cases hcall
    rw [State.put_other σ' next hne]
    exact W.gone call' hmarked
  have hsame : ∀ {call : Nat} {next next' : Shared × Job}, next'.2 = next.2 →
      ∀ call', marked call' = false →
        (σ'.put call next').jobs call' = (σ.put call next).jobs call' := by
    intro call next next' heq call' hcall'
    by_cases hself : call' = call
    · subst hself
      rw [State.put_self, State.put_self, heq]
    · rw [State.put_other σ' next' hself, State.put_other σ next hself]
      exact W.same call' hcall'
  cases step_spec h with
  | @begun call req clock now hfresh =>
      have hmark := hunmarked call rfl
      have hfresh' : σ'.jobs call = none := (W.same call hmark).trans hfresh
      have S := begin_frame σ.shared req clock now
      have S' := begin_frame σ'.shared req clock now
      have hjob : (begin σ'.shared req clock now).2 = (begin σ.shared req clock now).2 := by
        unfold begin
        rw [W.like.shutDown]
        split <;> rfl
      refine ⟨σ'.put call (begin σ'.shared req clock now), ?_, ⟨⟨?_, ?_⟩, hgone hmark, hsame hjob,
        W.begun_leaf clock now (hingest _ req clock now rfl)⟩⟩
      · simp only [step, hfresh', Option.isSome_none, Bool.false_eq_true, if_false]
      · exact S'.table.trans (W.like.table.trans S.table.symm)
      · exact S'.shutDown.trans (W.like.shutDown.trans S.shutDown.symm)
  | @acted _ call job next hcall hjob hact =>
      obtain ⟨t, job'⟩ := next
      have hmark := hunmarked call hcall
      have hjob' : σ'.jobs call = some job := (W.same call hmark).trans hjob
      have hlooks : ∀ call', a = .advance call' → r.SameAnswer σ.shared σ'.shared job := by
        rintro call' rfl id now hc
        obtain rfl := Option.some.inj hcall
        apply hanswer
        · exact Option.bind_eq_some_iff.mpr ⟨job, hjob, hc⟩
        · exact (W.leaf call' job id hjob (cacheCall_leaf hc)).trans hmark
      obtain ⟨t', hact'⟩ := act_like W.like hlooks hact
      exact ⟨σ'.put call (t', job'), step_acted hcall hjob' hact',
        ⟨act_table hcall W.like hact hact', hgone hmark, hsame rfl, W.acted_leaf hjob hact⟩⟩
  | shut => exact ⟨_, rfl, ⟨W.like.table, rfl⟩, W.gone, W.same, W.leaf⟩

/-- The two runs make the same call on the cache. -/
theorem Without.cacheCallOf_same (W : r.Without unknown marked σ σ')
    (hunmarked : ∀ call, a.call = some call → marked call = false) :
    r.cacheCallOf σ' a = r.cacheCallOf σ a := by
  cases a with
  | advance call =>
      exact congrArg (fun j => j.bind r.cacheCall) (W.same call (hunmarked call rfl))
  | _ => rfl

/-! ### Every run -/

theorem NeverConfigured.steps {actions : List Action} (hnever : r.NeverConfigured unknown actions)
    (hrun : Machine.run r.step r.init actions = some σ) : ∀ before a after σ₁,
      actions = before ++ a :: after → Machine.run r.step r.init before = some σ₁ →
      AnswersKnown unknown σ₁ a := by
  rintro before a after σ₁ rfl hbefore call c p rfl hjob
  have hnone := hnever.2 _ (mem_asks hrun hbefore hjob)
  cases hunknown : unknown p.leafId with
  | false => rfl
  | true => cases hnone hunknown

/-- Run lemma: the table is what the calls of the other leaves make of it. -/
theorem run_ignored {actions : List Action} (hreject : r.rejects = true)
    (hnever : r.NeverConfigured unknown actions)
    (hrun : Machine.run r.step r.init actions = some σ) :
    r.Ignored unknown σ ∧ σ.shared.table =
      r.init.shared.table.run ((r.tableCalls actions).filter fun c => !unknown c.id) := by
  have hstatic := hnever.1
  have hanswers := hnever.steps hrun
  refine @Machine.run_history _ _ r.step (fun _ => AnswersKnown unknown) (fun before σ₁ =>
    r.Ignored unknown σ₁ ∧ σ₁.shared.table =
      r.init.shared.table.run ((r.tableCalls before).filter fun c => !unknown c.id))
    r.init σ actions ⟨Ignored.init r unknown, rfl⟩ ?_ hanswers hrun
  rintro before a σ₁ σ₂ hbefore ⟨G, hreplay⟩ hanswer hstep
  obtain ⟨G', hkept⟩ := G.step hreject hstatic hanswer hstep
  refine ⟨G', ?_⟩
  unfold tableCalls at hreplay ⊢
  rw [Machine.trace_snoc r.tableCallOf hbefore hstep, List.filter_append]
  cases hc : r.tableCallOf σ₁ a with
  | none =>
      have htable := (step_calls hstep).1
      rw [hc] at htable
      simpa using htable.trans hreplay
  | some c =>
      obtain ⟨call, job, hcall, hjob, hleaf⟩ := tableCallOf_leaf hc
      cases hunknown : unknown c.id with
      | true =>
          have hsame := hkept call job c.id hcall hjob hleaf hunknown
          simpa [hunknown] using hsame.trans hreplay
      | false =>
          have htable := (step_calls hstep).1
          rw [hc, hreplay] at htable
          rw [htable]
          simp [hunknown, LeafTable.run, called]

/-- Run lemma: the run without the calls of unknown leaves. -/
theorem run_without {actions : List Action} {marked : Nat → Bool} (hreject : r.rejects = true)
    (hnever : r.NeverConfigured unknown actions) (hkept : r.RefusalsKept unknown actions)
    (hmarked : ∀ call req clock now, .ingest call req clock now ∈ actions →
      marked call = unknown (r.settledId req))
    (hrun : Machine.run r.step r.init actions = some σ) :
    ∃ σ', Machine.run r.step r.init (without marked actions) = some σ' ∧
      r.Without unknown marked σ σ' := by
  have hstatic := hnever.1
  have hanswers := hnever.steps hrun
  have hfacts : r.Ignored unknown σ ∧ ∃ σ',
      Machine.run r.step r.init (without marked actions) = some σ' ∧
        r.Without unknown marked σ σ' ∧ σ'.shared.unknown =
          r.init.shared.unknown.run ((r.cacheCalls actions).filter fun c => !unknown c.id) := by
    refine @Machine.run_history _ _ r.step (fun before σ₁ a => AnswersKnown unknown σ₁ a ∧
        (∀ id now, r.cacheCallOf σ₁ a = some (.contains id now) → unknown id = false →
          ((r.init.shared.unknown.run (r.cacheCalls before)).contains id now).2 =
            ((r.init.shared.unknown.run
              ((r.cacheCalls before).filter fun c => !unknown c.id)).contains id now).2) ∧
        ∀ call req clock now, a = .ingest call req clock now →
          marked call = unknown (r.settledId req))
      (fun before σ₁ => r.Ignored unknown σ₁ ∧ ∃ σ',
        Machine.run r.step r.init (without marked before) = some σ' ∧
          r.Without unknown marked σ₁ σ' ∧ σ'.shared.unknown =
            r.init.shared.unknown.run ((r.cacheCalls before).filter fun c => !unknown c.id))
      r.init σ actions ⟨Ignored.init r unknown, r.init, rfl, Without.init r unknown marked,
        rfl⟩ ?_ ?_
      hrun
    · rintro before a σ₁ σ₂ hbefore ⟨G, σ', hrun', W, hcache⟩ ⟨hknown, hlooks, hingest⟩ hstep
      obtain ⟨G', htable⟩ := G.step hreject hstatic hknown hstep
      refine ⟨G', ?_⟩
      have hcalls : r.cacheCalls (before ++ [a]) =
          r.cacheCalls before ++ (r.cacheCallOf σ₁ a).toList :=
        Machine.trace_snoc r.cacheCallOf hbefore hstep
      by_cases hgone : ∃ call, a.call = some call ∧ marked call = true
      · obtain ⟨call, hcall, hmark⟩ := hgone
        refine ⟨σ', ?_,
          W.marked_step (fun job id => htable call job id hcall) hingest hcall hmark hstep, ?_⟩
        · simpa [without, hcall, hmark] using hrun'
        · rw [hcache, hcalls, List.filter_append]
          cases hc : r.cacheCallOf σ₁ a with
          | none => simp
          | some c =>
              obtain ⟨call', job, hcall', hjob, hleaf⟩ := cacheCallOf_leaf hc
              obtain rfl := Option.some.inj (hcall.symm.trans hcall')
              have hunknown := (W.leaf call job c.id hjob hleaf).trans hmark
              simp [hunknown]
      · have hunmarked : ∀ call, a.call = some call → marked call = false := by
          intro call hcall
          cases hmark : marked call with
          | false => rfl
          | true => exact absurd ⟨call, hcall, hmark⟩ hgone
        have hfinds : ∀ id now, r.cacheCallOf σ₁ a = some (.contains id now) → unknown id = false →
            (σ'.shared.unknown.contains id now).2 = (σ₁.shared.unknown.contains id now).2 := by
          intro id now hc hid
          rw [hcache, run_unknown hbefore]
          exact (hlooks id now hc hid).symm
        obtain ⟨σ₂', hstep', W'⟩ := W.other_step hfinds hingest hunmarked hstep
        refine ⟨σ₂', ?_, W', ?_⟩
        · have hkeep : without marked (before ++ [a]) = without marked before ++ [a] := by
            unfold without
            rw [List.filter_append]
            cases hcall : a.call with
            | none => simp [hcall]
            | some call => simp [hcall, hunmarked call hcall]
          rw [hkeep, Machine.run_snoc, hrun']
          exact hstep'
        · rw [(step_calls hstep').2, hcache, W.cacheCallOf_same hunmarked, hcalls,
            List.filter_append]
          cases hc : r.cacheCallOf σ₁ a with
          | none => simp [cacheCalled]
          | some c =>
              obtain ⟨call, job, hcall, hjob, hleaf⟩ := cacheCallOf_leaf hc
              have hunknown := (W.leaf call job c.id hjob hleaf).trans (hunmarked call hcall)
              simp [hunknown, UnknownLeafCache.run, cacheCalled]
    · rintro before a after σ₁ rfl hbefore
      refine ⟨hanswers before a after σ₁ rfl hbefore, ?_, ?_⟩
      · intro id now hc hid
        obtain ⟨rest, hsplit⟩ := Machine.trace_split hrun hbefore hc
        exact hkept _ id now rest hsplit hid
      · rintro call req clock now rfl
        exact hmarked call req clock now (by simp)
  obtain ⟨-, σ', hrun', W, -⟩ := hfacts
  exact ⟨σ', hrun', W⟩

end Receiver

end Microtel.Concentrator
