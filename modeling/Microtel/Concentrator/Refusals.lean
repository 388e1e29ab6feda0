import Microtel.Concentrator.UnknownLeaves

/-!
How long a refusal lasts: an answer is cached under the time of the payload that
asked, and a payload 60 s later is not refused by it.
-/

namespace Microtel.Concentrator.Receiver

variable {r : Receiver} {s s' : Shared} {job job' : Job} {σ σ' : State} {a : Action} {id : Bytes}
  {t : TimePoint} {req : IngestRequest} {now : TimePoint}

/-- The answer configures the leaf for every payload later than `t`. -/
def ConfiguredAfter (id : Bytes) (t : TimePoint) (σ : State) (a : Action) : Prop :=
  ∀ call c p, a = .answer call c → σ.jobs call = some (.asking p) → p.leafId = id → t < p.now →
    c.isSome = true

/-- The refusals of the leaf that are cached are from payloads up to `t`. -/
structure RefusedUntil (id : Bytes) (t : TimePoint) (c : UnknownLeafCache) : Prop where
  inv : c.Inv
  ttl : c.ttl = 60 * nsPerSecond
  until_t : ∀ n ∈ c.age, n.2.id = id → n.2.cachedAt ≤ t

theorem RefusedUntil.init (r : Receiver) (id : Bytes) (t : TimePoint) :
    RefusedUntil id t r.init.shared.unknown where
  inv := UnknownLeafCache.Inv.new ..
  ttl := rfl
  until_t := by
    intro n hn
    cases hn

/-- A later payload is not refused from the cache. -/
theorem RefusedUntil.contains {c : UnknownLeafCache} (R : RefusedUntil id t c)
    (hlate : t + 60 * nsPerSecond < now) : (c.contains id now).2 = false := by
  cases hcached : (c.contains id now).2 with
  | false => rfl
  | true =>
      obtain ⟨-, n, hn, hid, hage⟩ := (UnknownLeafCache.contains_spec R.inv id now).2 hcached
      have hold := R.until_t n hn hid
      rw [R.ttl] at hage
      have hwithin : now ≤ n.2.cachedAt + 60 * nsPerSecond := by
        dsimp only [TimePoint] at hage hold ⊢
        omega
      have hless : n.2.cachedAt + 60 * nsPerSecond ≤ t + 60 * nsPerSecond := by
        dsimp only [TimePoint] at hold ⊢
        omega
      exact absurd (lt_of_lt_of_le hlate (le_trans hwithin hless)) (lt_irrefl _)

theorem RefusedUntil.called {c : UnknownLeafCache} (R : RefusedUntil id t c)
    {call : Option UnknownLeafCache.Call}
    (hnew : ∀ now, call = some (.insert id now) → now ≤ t) :
    RefusedUntil id t (cacheCalled c call) := by
  cases call with
  | none => exact R
  | some call =>
      obtain ⟨inv, -, httl, hage⟩ := UnknownLeafCache.step_answers R.inv call
      refine ⟨inv, httl.trans R.ttl, ?_⟩
      intro n hn hid
      rcases hage n hn with hold | ⟨-, rfl⟩
      · exact R.until_t n hold hid
      · exact hnew _ (by rw [hid])

/-- What a call has of the request it began with; a payload of the leaf later
than `t` by 60 s has not been refused as unknown. -/
def Origin (r : Receiver) (id : Bytes) (t : TimePoint) (req : IngestRequest) (now : TimePoint) :
    Job → Prop
  | .admitting req' _ now' => req' = req ∧ now' = now
  | .lookingUp p | .checkingUnknown p | .asking p | .refusing p | .adopting p _ | .enqueueing p _
  | .finding p _ _ _ | .inserting p _ _ _ _ | .emitting p _ _ _ _ _ =>
      p.leafId = r.settledId req ∧ p.now = now
  | .finished result =>
      r.settledId req = id → t + 60 * nsPerSecond < now → result.status ≠ .unknownLeaf

/-! ### One step -/

/-- `Admit` refuses a leaf as unknown only before the decode. -/
theorem admit_unknownLeaf {received : Int} {result : IngestResult}
    (h : r.admitRequest s req received now = (s', .finished result))
    (hstatus : result.status = .unknownLeaf) :
    req.payload.length ≤ r.options.maxPayloadBytes.toNat ∧ req.leafId.length ≤ maxLeafIdBytes ∧
      (r.refusedBeforeDecode s req now).2 = true := by
  unfold admitRequest at h
  split at h
  · cases (Prod.mk.inj h).2
    cases hstatus
  · next hpayload =>
    split at h
    · cases (Prod.mk.inj h).2
      cases hstatus
    · next hid =>
      dsimp only at h
      split at h
      · next hrefused => exact ⟨Nat.not_lt.mp hpayload, Nat.not_lt.mp hid, hrefused⟩
      · exfalso
        split at h
        · cases (Prod.mk.inj h).2
          cases hstatus
        · cases (Prod.mk.inj h).2
          cases hstatus
        · split at h
          · cases (Prod.mk.inj h).2
            cases hstatus
          · unfold identify at h
            dsimp only at h
            split at h
            · cases (Prod.mk.inj h).2
              cases hstatus
            · cases (Prod.mk.inj h).2

theorem admit_origin (hresolver : r.options.resolver = true) (R : RefusedUntil id t s.unknown)
    {received : Int} (h : r.admitRequest s req received now = (s', job')) :
    Origin r id t req now job' := by
  rcases admit_cases h with ⟨result, rfl⟩ | ⟨decoded, modes, hdecode, rfl⟩
  · intro hid hlate hstatus
    obtain ⟨hpayload, hlen, hrefused⟩ := admit_unknownLeaf h hstatus
    rw [refusedBeforeDecode_eq s now hpayload hlen] at hrefused
    split at hrefused
    · next hasks =>
      have hnonempty : req.leafId.isEmpty = false := by
        unfold asksBeforeDecode at hasks
        simp only [Bool.and_eq_true, Bool.not_eq_true'] at hasks
        exact hasks.1.1.1.2
      rw [r.settledId_transport hnonempty] at hid
      subst hid
      dsimp only at hrefused
      rw [R.contains hlate] at hrefused
      cases hrefused
    · rw [hresolver] at hrefused
      simp at hrefused
  · refine ⟨?_, rfl⟩
    simp only [settledId, hdecode]

theorem identified_origin {p : Payload} {settings : LeafSettings}
    (ho : p.leafId = r.settledId req ∧ p.now = now) (h : r.identified s p settings = (s', job')) :
    Origin r id t req now job' := by
  rcases identified_cases h with rfl | rfl
  · intro _ _ hstatus
    cases hstatus
  · exact ho

theorem advance_origin (hresolver : r.options.resolver = true) (I : s.table.Inv)
    (R : RefusedUntil id t s.unknown) (ho : Origin r id t req now job)
    (hrefusing : ∀ p, job = .refusing p → p.leafId = id → p.now ≤ t)
    (h : r.advance s job = some (s', job')) : Origin r id t req now job' := by
  have hlater : t ≤ t + 60 * nsPerSecond := by
    dsimp only [TimePoint, nsPerSecond]
    omega
  cases job with
  | admitting req' received now' =>
      obtain ⟨rfl, rfl⟩ := ho
      exact admit_origin hresolver R (Option.some.inj h)
  | lookingUp p =>
      have hlook := Option.some.inj h
      unfold lookUp at hlook
      dsimp only at hlook
      split at hlook
      · exact identified_origin ho hlook
      · rw [← (Prod.mk.inj hlook).2]
        split <;> exact ho
  | checkingUnknown p =>
      have hcheck := Option.some.inj h
      unfold checkUnknown at hcheck
      dsimp only at hcheck
      split at hcheck
      · next hcached =>
        rw [← (Prod.mk.inj hcheck).2]
        intro hid hlate
        rw [← ho.2] at hlate
        rw [ho.1, hid, R.contains hlate] at hcached
        cases hcached
      · rw [← (Prod.mk.inj hcheck).2]
        exact ho
  | asking p => cases h
  | refusing p =>
      rw [← (Prod.mk.inj (Option.some.inj h)).2]
      intro hid hlate
      have hearly := hrefusing p rfl (ho.1.trans hid)
      rw [ho.2] at hearly
      exact absurd (lt_of_le_of_lt (le_trans hearly hlater) hlate) (lt_irrefl _)
  | adopting p fresh =>
      obtain ⟨settings, hkept⟩ := LeafTable.adoptSettings_some I p.leafId fresh p.now
      have hadopt := Option.some.inj h
      unfold adopt at hadopt
      dsimp only at hadopt
      rw [hkept] at hadopt
      exact identified_origin ho hadopt
  | enqueueing p g =>
      have henqueue := Option.some.inj h
      unfold enqueue at henqueue
      split at henqueue
      · rw [← (Prod.mk.inj henqueue).2]
        intro _ _
        dsimp only
        split <;> simp
      · rw [← (Prod.mk.inj henqueue).2]
        exact ho
  | finding p g rs c =>
      have hfind := Option.some.inj h
      unfold find at hfind
      dsimp only at hfind
      split at hfind
      · rw [← (Prod.mk.inj hfind).2]
        exact ho
      · rw [← (Prod.mk.inj hfind).2]
        exact ho
  | inserting p g rs c resolved =>
      rw [← (Prod.mk.inj (Option.some.inj h)).2]
      exact ho
  | emitting p g rs c resource spans =>
      cases spans with
      | nil =>
          rw [← (Prod.mk.inj (Option.some.inj h)).2]
          exact ho
      | cons span spans => cases h
  | finished result => cases h

theorem act_origin (hresolver : r.options.resolver = true) (I : s.table.Inv)
    (R : RefusedUntil id t s.unknown) (ho : Origin r id t req now job)
    (hrefusing : ∀ p, job = .refusing p → p.leafId = id → p.now ≤ t)
    (h : r.act s a job = some (s', job')) : Origin r id t req now job' := by
  cases a with
  | advance call => exact advance_origin hresolver I R ho hrefusing h
  | answer call a =>
      cases job with
      | asking p =>
          have hcases := r.answered_cases s p a
          simp only [act, answer] at h
          split at h
          · cases h
          · rw [Option.some.inj h] at hcases
            rcases hcases with heq | heq
            · obtain rfl : job' = .refusing p := heq
              exact ho
            · obtain rfl : job' = .adopting p (resolveSettings r.options p.leafId a).1 := heq
              exact ho
      | _ => cases h
  | sample call sampling queued =>
      cases job with
      | emitting p g rs c resource spans =>
          cases spans with
          | nil => cases h
          | cons span spans =>
              rw [← (Prod.mk.inj (Option.some.inj h)).2]
              exact ho
      | _ => cases h
  | outOfMemory call =>
      cases job with
      | finished result => cases h
      | _ =>
          rw [← (Prod.mk.inj (Option.some.inj h)).2]
          intro _ _ hstatus
          cases hstatus
  | ingest call req clock now => cases h
  | markShutDown => cases h

/-! ### Every run -/

/-- The leaf is configured for every payload later than `t`: no later payload
has been refused, and none is about to be. -/
structure Late (r : Receiver) (id : Bytes) (t : TimePoint) (actions : List Action) (σ : State) :
    Prop where
  table : σ.shared.table.Inv
  cache : RefusedUntil id t σ.shared.unknown
  refusing : ∀ call p, σ.jobs call = some (.refusing p) → p.leafId = id → p.now ≤ t
  calls : ∀ call req clock now, .ingest call req clock now ∈ actions →
    ∃ job, σ.jobs call = some job ∧ Origin r id t req now job

theorem Late.step {before : List Action} (L : Late r id t before σ)
    (hresolver : r.options.resolver = true) (hanswer : ConfiguredAfter id t σ a)
    (h : r.step σ a = some σ') : Late r id t (before ++ [a]) σ' := by
  obtain ⟨htable, hunknown⟩ := step_calls h
  have hinv : σ'.shared.table.Inv := by
    rw [htable]
    exact called_inv L.table _
  have hcache : RefusedUntil id t σ'.shared.unknown := by
    rw [hunknown]
    apply L.cache.called
    intro now hc
    cases a with
    | advance call =>
        obtain ⟨job, hjob, hcall⟩ := Option.bind_eq_some_iff.mp hc
        cases job with
        | refusing p =>
            cases hcall
            exact L.refusing call p hjob rfl
        | admitting req received now' =>
            unfold cacheCall at hcall
            dsimp only at hcall
            split at hcall <;> cases hcall
        | _ => cases hcall
    | _ => cases hc
  cases step_spec h with
  | @begun call req clock now hfresh =>
      refine ⟨hinv, hcache, ?_, ?_⟩
      · have hjobs : ∀ call' job,
          (σ.put call (begin σ.shared req clock now)).jobs call' = some job →
            ∀ p, job = .refusing p → p.leafId = id → p.now ≤ t := by
          apply State.put_jobs
          · intro p hp
            rcases begin_job σ.shared req clock now with ⟨received, heq⟩ | ⟨result, heq⟩
            · rw [heq] at hp
              cases hp
            · rw [heq] at hp
              cases hp
          · rintro call' job _ hjob p rfl
            exact L.refusing call' p hjob
        exact fun call' p hjob => hjobs call' _ hjob p rfl
      · intro call' req' clock' now' hmem
        rcases List.mem_append.mp hmem with hold | hnew
        · obtain ⟨job, hjob, ho⟩ := L.calls call' req' clock' now' hold
          have hne : call' ≠ call := by
            rintro rfl
            rw [hfresh] at hjob
            cases hjob
          exact ⟨job, by rw [State.put_other σ _ hne]; exact hjob, ho⟩
        · cases List.mem_singleton.mp hnew
          refine ⟨_, State.put_self σ call _, ?_⟩
          unfold begin
          split
          · intro _ _ hstatus
            cases hstatus
          · exact ⟨rfl, rfl⟩
  | @acted _ call job next hcall hjob hact =>
      obtain ⟨s', job'⟩ := next
      refine ⟨hinv, hcache, ?_, ?_⟩
      · have hjobs : ∀ call' job, (σ.put call (s', job')).jobs call' = some job →
            ∀ p, job = .refusing p → p.leafId = id → p.now ≤ t := by
          apply State.put_jobs
          · rintro p rfl hid
            obtain ⟨call', c, rfl, rfl, hconf⟩ := act_refusing hact
            obtain rfl := Option.some.inj hcall
            by_contra hlate
            have hsome := hanswer call' c p rfl hjob hid (not_le.mp hlate)
            obtain ⟨config, rfl⟩ := Option.isSome_iff_exists.mp hsome
            cases hconf
          · rintro call' job _ hjob' p rfl
            exact L.refusing call' p hjob'
        exact fun call' p hjob' => hjobs call' _ hjob' p rfl
      · intro call' req' clock' now' hmem
        have hold : Action.ingest call' req' clock' now' ∈ before := by
          rcases List.mem_append.mp hmem with hold | hnew
          · exact hold
          · rw [← List.mem_singleton.mp hnew] at hact
            cases hact
        obtain ⟨job'', hjob'', ho⟩ := L.calls call' req' clock' now' hold
        by_cases hself : call' = call
        · subst hself
          obtain rfl := Option.some.inj (hjob.symm.trans hjob'')
          exact ⟨job', State.put_self σ call' _,
            act_origin hresolver L.table L.cache ho
              (fun p hp => L.refusing call' p (hp ▸ hjob)) hact⟩
        · exact ⟨job'', by rw [State.put_other σ _ hself]; exact hjob'', ho⟩
  | shut =>
      refine ⟨hinv, hcache, L.refusing, ?_⟩
      intro call' req' clock' now' hmem
      rcases List.mem_append.mp hmem with hold | hnew
      · exact L.calls call' req' clock' now' hold
      · cases List.mem_singleton.mp hnew

/-- The resolver configures the leaf for every payload later than `t`. -/
def ConfiguredFrom (r : Receiver) (id : Bytes) (t : TimePoint) (actions : List Action) : Prop :=
  ∀ q ∈ r.asks actions, q.leafId = id → t < q.now → q.answer.isSome = true

/-- Run lemma. -/
theorem run_late {actions : List Action} (hresolver : r.options.resolver = true)
    (hfrom : r.ConfiguredFrom id t actions) (hrun : Machine.run r.step r.init actions = some σ) :
    Late r id t actions σ := by
  refine @Machine.run_history _ _ r.step (fun _ => ConfiguredAfter id t)
    (Late r id t) r.init σ actions
    ⟨LeafTable.Inv.new .., RefusedUntil.init r id t, ?_, ?_⟩ ?_ ?_ hrun
  · intro call p hjob
    cases hjob
  · intro call req clock now hmem
    cases hmem
  · intro before a σ₁ σ₂ _ L hanswer hstep
    exact L.step hresolver hanswer hstep
  · rintro before a after σ₁ rfl hbefore call c p rfl hjob
    exact hfrom _ (mem_asks hrun hbefore hjob)

/-- Unknown leaves under `unknown_leaf = reject`, over every run: what they do
to the leaf table, what the cache holds of them, and how long it refuses. -/
theorem unknown_leaves (r : Receiver) (hreject : r.options.unknownLeaf = .reject)
    (actions : List Action) (σ : State) (hrun : Machine.run r.step r.init actions = some σ) :
    (∀ unknown : Bytes → Bool, r.NeverConfigured unknown actions →
      σ.shared.table =
        r.init.shared.table.run ((r.tableCalls actions).filter fun c => !unknown c.id) ∧
      ∀ marked : Nat → Bool,
        (∀ call req clock now, .ingest call req clock now ∈ actions →
          marked call = unknown (r.settledId req)) →
        r.RefusalsKept unknown actions →
        ∃ σ', Machine.run r.step r.init (without marked actions) = some σ' ∧
          σ'.shared.table = σ.shared.table ∧
          ∀ call, marked call = false → σ'.jobs call = σ.jobs call) ∧
    (LinkedIndex.Linked Answer.id σ.shared.unknown.age σ.shared.unknown.index ∧
      σ.shared.unknown.size ≤ 256) ∧
    (∀ id now, (σ.shared.unknown.contains id now).2 = true →
      ∃ t, r.init.shared.unknown.CachedSince (r.cacheCalls actions) id t ∧
        now - t ≤ 60 * nsPerSecond) ∧
    (r.options.resolver = true → ∀ id t, r.ConfiguredFrom id t actions →
      ∀ call req clock now, .ingest call req clock now ∈ actions → r.settledId req = id →
        t + 60 * nsPerSecond < now →
        ∀ result, σ.jobs call = some (.finished result) → result.status ≠ .unknownLeaf) := by
  have hrejects : r.rejects = true := by
    unfold rejects
    rw [hreject]
    rfl
  have hunknown := run_unknown hrun
  have I₀ : r.init.shared.unknown.Inv := UnknownLeafCache.Inv.new ..
  obtain ⟨I, hcapacity, httl⟩ := UnknownLeafCache.run_inv I₀ (r.cacheCalls actions)
  rw [← hunknown] at I hcapacity httl
  refine ⟨?_, ⟨I.linked, ?_⟩, ?_, ?_⟩
  · intro unknown hnever
    refine ⟨(run_ignored hrejects hnever hrun).2, ?_⟩
    intro marked hmarked hkept
    obtain ⟨σ', hrun', W⟩ := run_without hrejects hnever hkept hmarked hrun
    exact ⟨σ', hrun', W.like.table, W.same⟩
  · have hbounded := I.bounded
    rw [hcapacity] at hbounded
    exact hbounded
  · intro id now hcached
    obtain ⟨-, n, hn, hid, hage⟩ := (UnknownLeafCache.contains_spec I id now).2 hcached
    rw [httl] at hage
    rw [hunknown] at hn
    refine ⟨n.2.cachedAt, ?_, hage⟩
    rw [← hid]
    exact UnknownLeafCache.run_cachedSince I₀ rfl _ n hn
  · intro hresolver id t hfrom call req clock now hmem hid hlate result hjob
    obtain ⟨job, hjob', ho⟩ := (run_late hresolver hfrom hrun).calls call req clock now hmem
    obtain rfl := Option.some.inj (hjob.symm.trans hjob')
    exact ho hid hlate

/-! ### A receiver that refuses unknown leaves -/

def refusingReceiver : Receiver where
  options := { unknownLeaf := .reject, resolver := true, defaultTimeMode := some .unix }
  deps :=
    { decode := fun _ _ => .ok
        [{ resource := []
           scopes := [⟨⟨[], []⟩,
            [{ context :=
              { traceId := ⟨Vector.replicate 16 1⟩, spanId := ⟨Vector.replicate 8 1⟩ } }]⟩] }]
      applySpanLimits := fun span => span
      appendAttributes := List.append
      batchProcessor := true }

def ingestAt (call : Nat) (leaf : String) (seconds : Int) : Action :=
  .ingest call { leafId := ascii leaf, payload := [] } 0 (seconds * nsPerSecond)

/-- A call from its start to the resolver's answer, and one step more. -/
def askingCall (call : Nat) (answer : Option LeafConfig) : List Action :=
  [.advance call, .advance call, .advance call, .answer call answer, .advance call]

/-- Leaf `u` is refused; then leaf `x` is configured. -/
def refusedThenConfigured : List Action :=
  ingestAt 0 "u" 0 :: askingCall 0 none ++ ingestAt 1 "x" 100 :: askingCall 1 (some {})

theorem unknown_leaves_refusedThenConfigured :
    ∃ σ, Machine.run refusingReceiver.step refusingReceiver.init refusedThenConfigured = some σ ∧
      (∃ σ', Machine.run refusingReceiver.step refusingReceiver.init
          (without (fun call => call = 0) refusedThenConfigured) = some σ' ∧
        σ'.shared.table = σ.shared.table) ∧
      σ.shared.unknown.size ≤ 256 ∧
      ∀ result, σ.jobs 1 = some (.finished result) → result.status ≠ .unknownLeaf := by
  obtain ⟨σ, hrun⟩ : ∃ σ, Machine.run refusingReceiver.step refusingReceiver.init
      refusedThenConfigured = some σ := ⟨_, rfl⟩
  have hall := unknown_leaves refusingReceiver rfl refusedThenConfigured σ hrun
  have hnever : refusingReceiver.NeverConfigured (fun id => id = ascii "u") refusedThenConfigured :=
    ⟨fun _ _ => rfl, by decide +kernel⟩
  have hkept : refusingReceiver.RefusalsKept (fun id => id = ascii "u") refusedThenConfigured := by
    have hcalls : refusingReceiver.cacheCalls refusedThenConfigured =
        [.contains (ascii "u") 0, .contains (ascii "u") 0, .insert (ascii "u") 0,
          .contains (ascii "x") (100 * nsPerSecond), .contains (ascii "x") (100 * nsPerSecond)] :=
            rfl
    intro calls id now rest hsplit hid
    rw [hcalls] at hsplit
    simp only [List.cons_eq_append_iff, List.cons.injEq, UnknownLeafCache.Call.contains.injEq,
      reduceCtorEq,
      List.nil_eq_append_iff, false_and, and_false, exists_const, or_false, false_or] at hsplit
    rcases hsplit with
      ⟨rfl, ⟨rfl, rfl⟩, rfl⟩ | ⟨_, rfl, ⟨rfl, ⟨rfl, rfl⟩, rfl⟩ | ⟨_, rfl, _, rfl, hx⟩⟩
    · cases hid
    · cases hid
    · rcases hx with ⟨rfl, ⟨rfl, rfl⟩, rfl⟩ | ⟨_, rfl, rfl, ⟨rfl, rfl⟩, rfl⟩
      · decide +kernel
      · decide +kernel
  have hmarked : ∀ call req clock now, .ingest call req clock now ∈ refusedThenConfigured →
      decide (call = 0) = decide (refusingReceiver.settledId req = ascii "u") := by
    intro call req clock now hmem
    simp only [refusedThenConfigured, askingCall, ingestAt, List.cons_append, List.nil_append,
      List.mem_cons, reduceCtorEq, false_or, or_false, List.not_mem_nil,
        Action.ingest.injEq] at hmem
    rcases hmem with ⟨rfl, rfl, -, -⟩ | ⟨rfl, rfl, -, -⟩
    · decide +kernel
    · decide +kernel
  have hfrom : refusingReceiver.ConfiguredFrom (ascii "x") 0 refusedThenConfigured := by
    unfold ConfiguredFrom
    decide +kernel
  obtain ⟨σ', hrun', htable, -⟩ := (hall.1 _ hnever).2 (fun call => call = 0) hmarked hkept
  refine ⟨σ, hrun, ⟨σ', hrun', htable⟩, hall.2.1.2, ?_⟩
  exact hall.2.2.2 rfl (ascii "x") 0 hfrom 1 { leafId := ascii "x", payload := [] } 0
    (100 * nsPerSecond) (by simp [refusedThenConfigured, askingCall, ingestAt]) rfl (by decide)

/-- Takes the actions in turn, and passes over those that are not enabled. -/
def schedule (r : Receiver) (actions : List Action) : State :=
  actions.foldl (fun σ a => (r.step σ a).getD σ) r.init

/-- Leaf `x` is refused at 0 s and seen again at 50 s; before that call looks,
leaf `u` is refused at 100 s and its answer pushes that of `x` out. -/
def pushedOut : List Action :=
  ingestAt 0 "x" 0 :: askingCall 0 none ++ ingestAt 1 "x" 50 :: ingestAt 2 "u" 100 ::
    askingCall 2 none ++ askingCall 1 (some {})

theorem refusal_pushed_out : ¬ ∀ (r : Receiver) (actions : List Action) (σ : State),
    r.options.unknownLeaf = .reject → Machine.run r.step r.init actions = some σ →
    ∀ unknown : Bytes → Bool, r.NeverConfigured unknown actions → ∀ marked : Nat → Bool,
      (∀ call req clock now, .ingest call req clock now ∈ actions →
        marked call = unknown (r.settledId req)) →
      (schedule r (without marked actions)).shared.table = σ.shared.table := by
  intro hclaim
  obtain ⟨σ, hrun, hsize⟩ : ∃ σ, Machine.run refusingReceiver.step refusingReceiver.init
      pushedOut = some σ ∧ σ.shared.table.size = 1 := ⟨_, rfl, rfl⟩
  have hnever : refusingReceiver.NeverConfigured (fun id => id = ascii "u") pushedOut :=
    ⟨fun _ _ => rfl, by decide +kernel⟩
  have hmarked : ∀ call req clock now, .ingest call req clock now ∈ pushedOut →
      decide (call = 2) = decide (refusingReceiver.settledId req = ascii "u") := by
    intro call req clock now hmem
    simp only [pushedOut, askingCall, ingestAt, List.cons_append, List.nil_append, List.mem_cons,
      reduceCtorEq, false_or, or_false, List.not_mem_nil, Action.ingest.injEq] at hmem
    rcases hmem with ⟨rfl, rfl, -, -⟩ | ⟨rfl, rfl, -, -⟩ | ⟨rfl, rfl, -, -⟩
    · decide +kernel
    · decide +kernel
    · decide +kernel
  have hsame := hclaim refusingReceiver pushedOut σ rfl hrun _ hnever (fun call => call = 2) hmarked
  have hempty : (schedule refusingReceiver
      (without (fun call => call = 2) pushedOut)).shared.table.size = 0 := by
    decide +kernel
  rw [hsame, hsize] at hempty
  cases hempty

end Microtel.Concentrator.Receiver
