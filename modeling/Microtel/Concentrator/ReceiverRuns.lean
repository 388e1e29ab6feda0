import Microtel.Concentrator.CacheHistory
import Microtel.Concentrator.Receiver
import Microtel.Concentrator.TableHistory

/-!
What one step of the receiver can do: which call acts, and what it asks of the
leaf table and of the unknown-leaf cache.
-/

namespace Microtel.Concentrator.Receiver

variable (r : Receiver)

/-- The step of a call, by its action. -/
def act (s : Shared) : Action → Job → Option (Shared × Job)
  | .advance _ => r.advance s
  | .answer _ a => r.answer s a
  | .sample _ sampling queued => r.sample s sampling queued
  | .outOfMemory _ => outOfMemory s
  | .ingest _ _ _ _ | .markShutDown => fun _ => none

/-- A step begins a call, or one call acts, or the receiver is shut down. -/
inductive Stepped (σ : State) : Action → State → Prop
  | begun {call : Nat} {req : IngestRequest} {clock : Int} {now : TimePoint} :
      σ.jobs call = none →
      Stepped σ (.ingest call req clock now) (σ.put call (begin σ.shared req clock now))
  | acted {a : Action} {call : Nat} {job : Job} {next : Shared × Job} :
      a.call = some call → σ.jobs call = some job → r.act σ.shared a job = some next →
      Stepped σ a (σ.put call next)
  | shut : Stepped σ .markShutDown { σ with shared := { σ.shared with shutDown := true } }

variable {r} {σ σ' : State} {a : Action}

theorem step_spec (h : r.step σ a = some σ') : r.Stepped σ a σ' := by
  have hact : ∀ {call : Nat} {f : Job → Option (Shared × Job)}, a.call = some call →
      f = r.act σ.shared a → ((σ.jobs call).bind f).map (σ.put call) = some σ' →
      r.Stepped σ a σ' := by
    intro call f hcall hf hmap
    obtain ⟨next, hbind, rfl⟩ := Option.map_eq_some_iff.mp hmap
    obtain ⟨job, hjob, hnext⟩ := Option.bind_eq_some_iff.mp hbind
    exact .acted hcall hjob (hf ▸ hnext)
  cases a with
  | ingest call req clock now =>
      simp only [step] at h
      split at h
      · cases h
      · next hfresh =>
        obtain rfl := Option.some.inj h
        exact .begun (Option.not_isSome_iff_eq_none.mp hfresh)
  | advance call => exact hact rfl rfl h
  | answer call a => exact hact rfl rfl h
  | sample call sampling queued => exact hact rfl rfl h
  | outOfMemory call => exact hact rfl rfl h
  | markShutDown =>
      obtain rfl := Option.some.inj h
      exact .shut

/-- A call that can act does. -/
theorem step_acted {call : Nat} {job : Job} {next : Shared × Job} (hcall : a.call = some call)
    (hjob : σ.jobs call = some job) (hact : r.act σ.shared a job = some next) :
    r.step σ a = some (σ.put call next) := by
  cases a with
  | ingest call' req clock now => cases hact
  | markShutDown => cases hact
  | _ =>
      obtain rfl := Option.some.inj hcall
      simp only [step, hjob, Option.bind_some]
      exact congrArg (Option.map _) hact

theorem State.put_self (σ : State) (call : Nat) (next : Shared × Job) :
    (σ.put call next).jobs call = some next.2 :=
  Function.update_self ..

theorem State.put_other (σ : State) {call call' : Nat} (next : Shared × Job) (h : call' ≠ call) :
    (σ.put call next).jobs call' = σ.jobs call' :=
  Function.update_of_ne h _ _

theorem advance_or_other {call : Nat} (hcall : a.call = some call) :
    a = .advance call ∨ ∀ call', a ≠ .advance call' := by
  by_cases h : a = .advance call
  · exact Or.inl h
  · right
    rintro call' rfl
    exact h (by rw [Option.some.inj hcall])

/-- What holds of the call that acted and of the others holds of every call. -/
theorem State.put_jobs {P : Nat → Job → Prop} {call : Nat} {next : Shared × Job}
    (hself : P call next.2)
    (hother : ∀ call' job, call' ≠ call → σ.jobs call' = some job → P call' job) :
    ∀ call' job, (σ.put call next).jobs call' = some job → P call' job := by
  intro call' job hjob
  by_cases h : call' = call
  · subst h
    rw [State.put_self] at hjob
    exact Option.some.inj hjob ▸ hself
  · rw [State.put_other σ next h] at hjob
    exact hother call' job h hjob

/-- A step leaves the calls alone that it does not name. -/
theorem step_other (h : r.step σ a = some σ') {call : Nat} (hne : a.call ≠ some call) :
    σ'.jobs call = σ.jobs call := by
  cases step_spec h with
  | begun hfresh => exact σ.put_other _ fun heq => hne (congrArg some heq.symm)
  | acted hcall hjob hact =>
      apply σ.put_other
      rintro rfl
      exact hne hcall
  | shut => rfl

/-- Run lemma: so does a run. -/
theorem run_other {actions : List Action} (h : Machine.run r.step σ actions = some σ') {call : Nat}
    (hne : ∀ a ∈ actions, a.call ≠ some call) : σ'.jobs call = σ.jobs call := by
  induction actions generalizing σ with
  | nil =>
      cases h
      rfl
  | cons a actions ih =>
      rw [Machine.run_cons, Option.bind_eq_some_iff] at h
      obtain ⟨σ₁, hstep, hrest⟩ := h
      rw [ih hrest fun b hb => hne b (List.mem_cons_of_mem _ hb),
        step_other hstep (hne a (by simp))]

/-! ### Calls on the leaf table -/

variable (r)

/-- The call on the leaf table that the next step of a job makes. -/
def tableCall : Job → Option (LeafTable.Call LeafSettings Resource)
  | .lookingUp p => some (.settings p.leafId p.now)
  | .adopting p fresh => some (.adoptSettings p.leafId (some fresh) p.now)
  | .enqueueing p g =>
      match g.rest with
      | (rs, .bootRelative) :: _ =>
          some (.updateBootAnchor p.leafId (bootSample p (readWireInfo rs.resource))
            (saturatingNs r.options.bootAnchorWindow) p.now)
      | _ => none
  | .finding p _ rs _ => some (.find p.leafId (hashDeclaredResource rs.resource) p.now)
  | .inserting p _ rs _ resolved =>
      some (.insert p.leafId (hashDeclaredResource rs.resource) (some resolved.resource) p.now)
  | _ => none

/-- A table after a call, if there is one. -/
def called (t : LeafTable LeafSettings Resource) :
    Option (LeafTable.Call LeafSettings Resource) → LeafTable LeafSettings Resource
  | none => t
  | some c => (t.step c).1

variable {r} {s s' : Shared} {job job' : Job}

/-- The parts of the shared state that later steps read are the same. -/
structure SameState (s s' : Shared) : Prop where
  table : s'.table = s.table
  unknown : s'.unknown = s.unknown
  shutDown : s'.shutDown = s.shutDown

theorem identified_frame (s : Shared) (p : Payload) (settings : LeafSettings) :
    SameState s (r.identified s p settings).1 := by
  unfold identified
  split <;> exact ⟨rfl, rfl, rfl⟩

theorem correctionFor_table (t : LeafTable LeafSettings Resource) (p : Payload)
    (mode : LeafTimeMode) (info : LeafWireInfo) :
    (r.correctionFor t p mode info).1 =
      if mode = .bootRelative then
        (t.step (.updateBootAnchor p.leafId (bootSample p info)
          (saturatingNs r.options.bootAnchorWindow) p.now)).1
      else t := by
  cases mode with
  | concentratorStamped => rfl
  | syncRelative =>
      unfold correctionFor
      dsimp only
      split <;> rfl
  | bootRelative => rfl
  | unix => rfl

/-! ### Calls on the unknown-leaf cache -/

variable (r) in
/-- Whether `Admit` gets as far as asking the cache. -/
def asksBeforeDecode (req : IngestRequest) : Bool :=
  req.payload.length ≤ r.options.maxPayloadBytes.toNat && req.leafId.length ≤ maxLeafIdBytes &&
    !req.leafId.isEmpty && r.rejects && (staticLeaf r.options req.leafId).isNone &&
      r.options.resolver

variable (r) in
/-- The call on the unknown-leaf cache that the next step of a job makes. -/
def cacheCall : Job → Option UnknownLeafCache.Call
  | .admitting req _ now => if r.asksBeforeDecode req then some (.contains req.leafId now) else none
  | .checkingUnknown p => some (.contains p.leafId p.now)
  | .refusing p => some (.insert p.leafId p.now)
  | _ => none

/-- A cache after a call, if there is one. -/
def cacheCalled (c : UnknownLeafCache) : Option UnknownLeafCache.Call → UnknownLeafCache
  | none => c
  | some call => (c.step call).1

theorem refusedBeforeDecode_eq (s : Shared) {req : IngestRequest} (now : TimePoint)
    (hpayload : req.payload.length ≤ r.options.maxPayloadBytes.toNat)
    (hid : req.leafId.length ≤ maxLeafIdBytes) :
    r.refusedBeforeDecode s req now =
      if r.asksBeforeDecode req then
        ({ s with unknown := (s.unknown.contains req.leafId now).1 },
          (s.unknown.contains req.leafId now).2)
      else
        (s, !req.leafId.isEmpty && r.rejects && (staticLeaf r.options req.leafId).isNone &&
          !r.options.resolver) := by
  unfold refusedBeforeDecode asksBeforeDecode
  rw [decide_eq_true hpayload, decide_eq_true hid]
  cases req.leafId.isEmpty <;> cases r.rejects <;> cases staticLeaf r.options req.leafId <;>
    cases r.options.resolver <;> rfl

/-! ### What a step does -/

/-- The state after a step that makes these calls. -/
structure Calls (s s' : Shared) (c : Option (LeafTable.Call LeafSettings Resource))
    (c' : Option UnknownLeafCache.Call) : Prop where
  table : s'.table = called s.table c
  unknown : s'.unknown = cacheCalled s.unknown c'
  shutDown : s'.shutDown = s.shutDown

theorem refusedBeforeDecode_calls (s : Shared) {req : IngestRequest} (received : Int)
    (now : TimePoint) (hpayload : req.payload.length ≤ r.options.maxPayloadBytes.toNat)
    (hid : req.leafId.length ≤ maxLeafIdBytes) :
    Calls s (r.refusedBeforeDecode s req now).1 none
      (r.cacheCall (.admitting req received now)) := by
  rw [refusedBeforeDecode_eq s now hpayload hid]
  unfold cacheCall
  dsimp only
  cases r.asksBeforeDecode req with
  | true => exact ⟨rfl, rfl, rfl⟩
  | false => exact ⟨rfl, rfl, rfl⟩

theorem admit_calls (s : Shared) (req : IngestRequest) (received : Int) (now : TimePoint) :
    Calls s (r.admitRequest s req received now).1 none
      (r.cacheCall (.admitting req received now)) := by
  unfold admitRequest
  by_cases hpayload : r.options.maxPayloadBytes.toNat < req.payload.length
  · have hasks : r.asksBeforeDecode req = false := by
      unfold asksBeforeDecode
      rw [decide_eq_false (Nat.not_le.mpr hpayload)]
      simp
    rw [if_pos hpayload]
    simp only [cacheCall, hasks]
    exact ⟨rfl, rfl, rfl⟩
  · rw [if_neg hpayload]
    by_cases hid : maxLeafIdBytes < req.leafId.length
    · have hasks : r.asksBeforeDecode req = false := by
        unfold asksBeforeDecode
        rw [decide_eq_false (Nat.not_le.mpr hid)]
        simp
      rw [if_pos hid]
      simp only [cacheCall, hasks]
      exact ⟨rfl, rfl, rfl⟩
    · rw [if_neg hid]
      obtain ⟨htable, hunknown, hshut⟩ := refusedBeforeDecode_calls s received now
        (Nat.not_lt.mp hpayload) (Nat.not_lt.mp hid)
      generalize r.refusedBeforeDecode s req now = q at htable hunknown hshut ⊢
      dsimp only
      split
      · exact ⟨htable, hunknown, hshut⟩
      · split
        · exact ⟨htable, hunknown, hshut⟩
        · exact ⟨htable, hunknown, hshut⟩
        · split
          · exact ⟨htable, hunknown, hshut⟩
          · unfold identify
            dsimp only
            split <;> exact ⟨htable, hunknown, hshut⟩

/-- The only calls a step makes on the table and on the cache. -/
theorem advance_calls (h : r.advance s job = some (s', job')) :
    Calls s s' (r.tableCall job) (r.cacheCall job) := by
  cases job with
  | admitting req received now =>
      have houtcome := r.admit_calls s req received now
      rw [Option.some.inj h] at houtcome
      exact houtcome
  | lookingUp p =>
      have hlook := Option.some.inj h
      unfold lookUp at hlook
      dsimp only at hlook
      split at hlook
      · next settings _ =>
        have hframe :=
          r.identified_frame { s with table := (s.table.settings p.leafId p.now).1 } p settings
        rw [hlook] at hframe
        exact ⟨hframe.table, hframe.unknown, hframe.shutDown⟩
      · rw [← (Prod.mk.inj hlook).1]
        exact ⟨rfl, rfl, rfl⟩
  | checkingUnknown p =>
      have hcheck := Option.some.inj h
      unfold checkUnknown at hcheck
      dsimp only at hcheck
      split at hcheck
      · rw [← (Prod.mk.inj hcheck).1]
        exact ⟨rfl, rfl, rfl⟩
      · rw [← (Prod.mk.inj hcheck).1]
        exact ⟨rfl, rfl, rfl⟩
  | asking p => cases h
  | refusing p =>
      rw [← (Prod.mk.inj (Option.some.inj h)).1]
      exact ⟨rfl, rfl, rfl⟩
  | adopting p fresh =>
      have hadopt := Option.some.inj h
      unfold adopt at hadopt
      dsimp only at hadopt
      split at hadopt
      · next settings _ =>
        have hframe := r.identified_frame
          { s with table := (s.table.adoptSettings p.leafId (some fresh) p.now).1 } p settings
        rw [hadopt] at hframe
        exact ⟨hframe.table, hframe.unknown, hframe.shutDown⟩
      · rw [← (Prod.mk.inj hadopt).1]
        exact ⟨rfl, rfl, rfl⟩
  | enqueueing p g =>
      have henqueue := Option.some.inj h
      unfold enqueue at henqueue
      unfold tableCall
      dsimp only
      split at henqueue
      · next hrest =>
        rw [hrest, ← (Prod.mk.inj henqueue).1]
        exact ⟨rfl, rfl, rfl⟩
      · next rs mode rest hrest =>
        have hcorrection := r.correctionFor_table s.table p mode (readWireInfo rs.resource)
        have htable : s'.table =
            (r.correctionFor s.table p mode (readWireInfo rs.resource)).1 := by
          rw [← (Prod.mk.inj henqueue).1]
          rfl
        refine ⟨?_, ?_, ?_⟩
        · rw [hrest, htable, hcorrection]
          cases mode <;> rfl
        · rw [← (Prod.mk.inj henqueue).1]
          rfl
        · rw [← (Prod.mk.inj henqueue).1]
          rfl
  | finding p g rs c =>
      have hfind := Option.some.inj h
      unfold find at hfind
      dsimp only at hfind
      split at hfind
      · rw [← (Prod.mk.inj hfind).1]
        exact ⟨rfl, rfl, rfl⟩
      · rw [← (Prod.mk.inj hfind).1]
        exact ⟨rfl, rfl, rfl⟩
  | inserting p g rs c resolved =>
      rw [← (Prod.mk.inj (Option.some.inj h)).1]
      exact ⟨rfl, rfl, rfl⟩
  | emitting p g rs c resource spans =>
      cases spans with
      | nil =>
          rw [← (Prod.mk.inj (Option.some.inj h)).1]
          exact ⟨rfl, rfl, rfl⟩
      | cons span spans => cases h
  | finished result => cases h

theorem answered_cases (s : Shared) (p : Payload) (a : Option LeafConfig) :
    (r.answered s p a).2 = .refusing p ∨
      (r.answered s p a).2 = .adopting p (resolveSettings r.options p.leafId a).1 := by
  unfold answered
  dsimp only
  split
  · exact Or.inl rfl
  · exact Or.inr rfl

theorem enqueueSpan_frame (s : Shared) (result : IngestResult) (span : ScopedSpan)
    (c : TimeCorrection) (resource : Option Resource) (sampling : SamplingResult) (queued : Bool) :
    SameState s (r.enqueueSpan s result span c resource sampling queued).1 := by
  unfold enqueueSpan
  dsimp only
  split
  · exact ⟨rfl, rfl, rfl⟩
  · split <;> exact ⟨rfl, rfl, rfl⟩

/-- Only a step that needs no answer reaches the table or the cache. -/
theorem act_frame (hother : ∀ call, a ≠ .advance call) (h : r.act s a job = some (s', job')) :
    SameState s s' := by
  cases a with
  | advance call => exact absurd rfl (hother call)
  | answer call a =>
      cases job with
      | asking p =>
          simp only [act, answer] at h
          split at h
          · cases h
          · rw [← (Prod.mk.inj (Option.some.inj h)).1]
            exact ⟨rfl, rfl, rfl⟩
      | _ => cases h
  | sample call sampling queued =>
      cases job with
      | emitting p g rs c resource spans =>
          cases spans with
          | nil => cases h
          | cons span spans =>
              have hframe := r.enqueueSpan_frame s g.result span c resource sampling queued
              rw [← (Prod.mk.inj (Option.some.inj h)).1]
              exact hframe
      | _ => cases h
  | outOfMemory call =>
      cases job with
      | finished result => cases h
      | _ =>
          rw [← (Prod.mk.inj (Option.some.inj h)).1]
          exact ⟨rfl, rfl, rfl⟩
  | ingest call req clock now => cases h
  | markShutDown => cases h

/-! ### Where a call goes -/

theorem identified_cases {p : Payload} {settings : LeafSettings}
    (h : r.identified s p settings = (s', job')) :
    job' = .finished { status := .malformed } ∨
      job' = .enqueueing p { settings, rest := p.decoded.zip p.modes } := by
  unfold identified at h
  split at h
  · exact Or.inl (Prod.mk.inj h).2.symm
  · exact Or.inr (Prod.mk.inj h).2.symm

theorem admit_cases {req : IngestRequest} {received : Int} {now : TimePoint}
    (h : r.admitRequest s req received now = (s', job')) :
    (∃ result, job' = .finished result) ∨
      ∃ decoded modes, r.deps.decode req.payload r.decodeLimits = .ok decoded ∧
        job' = .lookingUp
          { transportId := req.leafId, decoded, modes, leafId := r.settleLeafId req decoded
            received, now } := by
  unfold admitRequest at h
  split at h
  · exact Or.inl ⟨_, (Prod.mk.inj h).2.symm⟩
  · split at h
    · exact Or.inl ⟨_, (Prod.mk.inj h).2.symm⟩
    · dsimp only at h
      split at h
      · exact Or.inl ⟨_, (Prod.mk.inj h).2.symm⟩
      · split at h
        · exact Or.inl ⟨_, (Prod.mk.inj h).2.symm⟩
        · exact Or.inl ⟨_, (Prod.mk.inj h).2.symm⟩
        · next decoded hdecode =>
          split at h
          · exact Or.inl ⟨_, (Prod.mk.inj h).2.symm⟩
          · unfold identify at h
            dsimp only at h
            split at h
            · exact Or.inl ⟨_, (Prod.mk.inj h).2.symm⟩
            · exact Or.inr ⟨decoded, admittedModes decoded, hdecode, (Prod.mk.inj h).2.symm⟩

theorem called_inv {t : LeafTable LeafSettings Resource} (I : t.Inv)
    (c : Option (LeafTable.Call LeafSettings Resource)) : (called t c).Inv := by
  cases c with
  | none => exact I
  | some c => exact I.step c

/-! ### Steps and runs -/

variable (r) in
/-- The call on the leaf table that an action makes. -/
def tableCallOf (σ : State) : Action → Option (LeafTable.Call LeafSettings Resource)
  | .advance call => (σ.jobs call).bind r.tableCall
  | _ => none

variable (r) in
/-- The call on the unknown-leaf cache that an action makes. -/
def cacheCallOf (σ : State) : Action → Option UnknownLeafCache.Call
  | .advance call => (σ.jobs call).bind r.cacheCall
  | _ => none

theorem begin_frame (s : Shared) (req : IngestRequest) (clock : Int) (now : TimePoint) :
    SameState s (begin s req clock now).1 := by
  unfold begin
  split <;> exact ⟨rfl, rfl, rfl⟩

theorem step_calls (h : r.step σ a = some σ') :
    σ'.shared.table = called σ.shared.table (r.tableCallOf σ a) ∧
      σ'.shared.unknown = cacheCalled σ.shared.unknown (r.cacheCallOf σ a) := by
  cases step_spec h with
  | @begun call req clock now hfresh =>
      have hframe := begin_frame σ.shared req clock now
      exact ⟨hframe.table, hframe.unknown⟩
  | @acted _ call job next hcall hjob hact =>
      obtain ⟨s', job'⟩ := next
      rcases advance_or_other hcall with rfl | hother
      · unfold tableCallOf cacheCallOf
        dsimp only
        rw [hjob]
        exact ⟨(advance_calls hact).table, (advance_calls hact).unknown⟩
      · have hframe := act_frame hother hact
        unfold tableCallOf cacheCallOf
        cases a with
        | advance call' => exact absurd rfl (hother call')
        | _ => exact ⟨hframe.table, hframe.unknown⟩
  | shut => exact ⟨rfl, rfl⟩

variable (r) in
/-- The calls a run makes on the leaf table, in order. -/
def tableCalls (actions : List Action) : List (LeafTable.Call LeafSettings Resource) :=
  Machine.trace r.step r.tableCallOf r.init actions

variable (r) in
/-- The calls a run makes on the unknown-leaf cache, in order. -/
def cacheCalls (actions : List Action) : List UnknownLeafCache.Call :=
  Machine.trace r.step r.cacheCallOf r.init actions

/-- Run lemma: the cache is what the run's calls make of it. -/
theorem run_unknown {actions : List Action} (h : Machine.run r.step r.init actions = some σ) :
    σ.shared.unknown = r.init.shared.unknown.run (r.cacheCalls actions) := by
  refine @Machine.run_component _ _ _ _ r.step r.cacheCallOf
    (fun σ => σ.shared.unknown) _ ?_ _ _ _ h
  intro σ₁ a σ₂ hstep
  rw [(step_calls hstep).2]
  cases r.cacheCallOf σ₁ a <;> rfl

end Microtel.Concentrator.Receiver
