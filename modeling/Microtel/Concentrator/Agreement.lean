import Microtel.Concentrator.ReceiverRuns

/-!
Settings and Resource. Both are cached in one leaf-table entry, but read and
written by separate steps, so an eviction between the steps of one call can
leave a Resource from other settings in the entry. Where no entry is evicted
under a call that still needs it, they agree.
-/

namespace Microtel.Concentrator

/-! ### The declared Resource without its reserved keys -/

def ownAttributes (declared : List KeyValue) : List KeyValue :=
  declared.filter fun kv => !isReserved kv.key

theorem admission_own (limit : Nat) (pinned : List Bytes) (a : Admission)
    (declared : List KeyValue) :
    declared.foldl (Admission.take limit pinned) a =
      (ownAttributes declared).foldl (Admission.take limit pinned) a := by
  induction declared generalizing a with
  | nil => rfl
  | cons kv declared ih =>
      unfold ownAttributes
      rw [List.foldl_cons, List.filter_cons]
      cases hreserved : isReserved kv.key with
      | true =>
          have hskip : Admission.take limit pinned a kv = a := by
            unfold Admission.take
            rw [hreserved, Bool.true_or]
            rfl
          rw [hskip]
          exact ih a
      | false => exact ih _

/-- Reserved keys do not reach the resolved Resource. -/
theorem resolveResource_own (o : LeafReceiverOptions) (s : LeafSettings) (leafId : Bytes)
    {declared declared' : List KeyValue} (h : ownAttributes declared = ownAttributes declared') :
    resolveResource o s leafId declared = resolveResource o s leafId declared' := by
  unfold resolveResource resolveLeafResource admitDeclared
  dsimp only
  rw [admission_own, h, ← admission_own]
  rfl

namespace LeafTable

variable {σ ρ : Type} {t : LeafTable σ ρ} {c : Call σ ρ} {id : Bytes}

/-- The id has an entry with these settings. -/
def HasSettings (t : LeafTable σ ρ) (id : Bytes) (s : σ) : Prop :=
  ∃ a e, (a, e) ∈ t.recency ∧ e.id = id ∧ e.settings = some s

theorem HasSettings.not_absent {s : σ} (h : t.HasSettings id s) : ¬ t.Absent id := by
  obtain ⟨a, e, hmem, hid, -⟩ := h
  exact fun habsent => habsent (a, e) hmem hid

theorem not_absent_of_any (h : t.recency.any (fun n => n.2.id = id) = true) : ¬ t.Absent id := by
  obtain ⟨n, hmem, hid⟩ := List.any_eq_true.mp h
  exact fun habsent => habsent n hmem (of_decide_eq_true hid)

theorem Inv.entry_unique (I : t.Inv) {a a' : Nat} {e e' : Entry σ ρ} (h : (a, e) ∈ t.recency)
    (h' : (a', e') ∈ t.recency) (hid : e.id = e'.id) : (a, e) = (a', e') :=
  List.inj_on_of_nodup_map I.linked.keys h h' hid

/-- An entry keeps its settings through a call that does not evict it. -/
theorem HasSettings.step (I : t.Inv) {s : σ} (h : t.HasSettings id s)
    (hkeep : c.inserts = true → t.Absent c.id → ¬ ((t.evictIdle c.now).evictFull).Absent id) :
    (t.step c).1.HasSettings id s := by
  have S := (step_spec I.toWellLinked I.maxLeaves_pos c).1
  generalize (t.step c).1 = t' at S ⊢
  obtain ⟨a, e, hmem, hid, hs⟩ := h
  cases S with
  | missed hkind habsent => exact ⟨a, e, hmem, hid, hs⟩
  | @touched l₁ l₂ b e₁ hsplit hid₁ =>
      rw [hsplit] at hmem
      rcases List.mem_append.mp hmem with hfront | hback
      · exact ⟨a, e, by simp [hfront], hid, hs⟩
      · rcases List.mem_cons.mp hback with heq | hback
        · obtain ⟨rfl, rfl⟩ := Prod.mk.inj heq
          exact ⟨a, c.effect e, by simp, (c.effect_id e).trans hid, c.effect_settings hs⟩
        · exact ⟨a, e, by simp [hback], hid, hs⟩
  | @created t₁ hkind habsent ht₁ =>
      have hstays := hkeep hkind habsent
      rw [← ht₁] at hstays
      obtain ⟨gone, E, -⟩ := I.evictions c.now
      rw [← ht₁] at E
      unfold Absent at hstays
      push Not at hstays
      obtain ⟨⟨a', e'⟩, hmem', hid'⟩ := hstays
      have hold : (a', e') ∈ t.recency := by
        rw [E.recency]
        exact List.mem_append_left _ hmem'
      have heq := I.entry_unique hold hmem (hid'.trans hid.symm)
      rw [heq] at hmem'
      exact ⟨a, e, List.mem_cons_of_mem _ hmem', hid, hs⟩

/-- A call about the id itself does not evict its entry. -/
theorem HasSettings.step_self (I : t.Inv) {s : σ} (h : t.HasSettings c.id s) :
    (t.step c).1.HasSettings c.id s :=
  h.step I fun _ habsent => absurd habsent h.not_absent

/-- Every cached Resource meets `P`, which reads its entry's id, settings and
hash. -/
def Resources (t : LeafTable σ ρ) (P : Bytes → σ → UInt64 → ρ → Prop) : Prop :=
  ∀ n ∈ t.recency, ∀ r, n.2.resource = some r → ∃ s, n.2.settings = some s ∧
    P n.2.id s n.2.declaredHash r

theorem Resources.step {P : Bytes → σ → UInt64 → ρ → Prop} (I : t.Inv) (R : t.Resources P)
    (hnew : ∀ id hash new now, c = .insert id hash (some new) now →
      ∃ s, t.HasSettings id s ∧ P id s hash new) : (t.step c).1.Resources P := by
  have S := (step_spec I.toWellLinked I.maxLeaves_pos c).1
  rintro ⟨a, e'⟩ hmem x hx
  rcases steps_node I S hmem with ⟨e, he, rfl | ⟨hid, rfl⟩⟩ | ⟨habsent, -, rfl⟩
  · exact R (a, e') he x hx
  · rcases c.effect_resource hx with ⟨hold, hhash⟩ | ⟨now, hc⟩
    · obtain ⟨s, hs, hP⟩ := R (a, e) he x hold
      refine ⟨s, c.effect_settings hs, ?_⟩
      dsimp only
      rw [c.effect_id, hhash]
      exact hP
    · obtain ⟨s, ⟨b, e₁, he₁, hid₁, hs⟩, hP⟩ := hnew _ _ _ _ hc
      obtain ⟨rfl, rfl⟩ := Prod.mk.inj (I.entry_unique he₁ he (hid₁.trans hid.symm))
      refine ⟨s, c.effect_settings hs, ?_⟩
      dsimp only
      rw [c.effect_id, hid]
      exact hP
  · rcases c.effect_resource hx with ⟨hold, -⟩ | ⟨now, hc⟩
    · cases hold
    · obtain ⟨s, hs, -⟩ := hnew _ _ _ _ hc
      exact absurd habsent hs.not_absent

end LeafTable

namespace Receiver

/-! ### Calls in flight -/

/-- The leaf and the settings of a call that will still look a Resource up. -/
def inFlight : Job → Option (Bytes × LeafSettings)
  | .enqueueing p g | .emitting p g _ _ _ _ =>
      if g.rest.isEmpty then none else some (p.leafId, g.settings)
  | .finding p g _ _ | .inserting p g _ _ _ => some (p.leafId, g.settings)
  | _ => none

/-- The step does not make room for a new entry by evicting the entry of a leaf
that a call in flight is about. -/
def KeepsInFlight (σ : State) (a : Action) : Prop :=
  ∀ call p fresh, a = .advance call → σ.jobs call = some (.adopting p fresh) →
    σ.shared.table.Absent p.leafId →
    ∀ call' job id s, σ.jobs call' = some job → inFlight job = some (id, s) →
      ¬ ((σ.shared.table.evictIdle p.now).evictFull).Absent id

variable (r : Receiver)

/-- A leaf id and a Resource declared under it. -/
abbrev Declared := Bytes → List KeyValue → Prop

/-- Different Resources that a leaf declares have different hashes, reserved
keys apart. -/
def Collisionless (D : Declared) : Prop :=
  ∀ id declared declared', D id declared → D id declared' →
    hashDeclaredResource declared = hashDeclaredResource declared' →
    ownAttributes declared = ownAttributes declared'

/-- What a request declares, under the id it settles to. -/
def declaredBy (req : IngestRequest) : Declared := fun id declared =>
  ∃ decoded rs, r.deps.decode req.payload r.decodeLimits = .ok decoded ∧ rs ∈ decoded ∧
    id = r.settleLeafId req decoded ∧ declared = rs.resource

/-- What the requests of a run declare. -/
def declaredIn (actions : List Action) : Declared := fun id declared =>
  ∃ call req clock now, Action.ingest call req clock now ∈ actions ∧ r.declaredBy req id declared

/-- A cached Resource was resolved from its entry's settings and from a declared
Resource with its entry's hash. -/
def Resolved (D : Declared) (id : Bytes) (s : LeafSettings) (hash : UInt64) (x : Resource) : Prop :=
  ∃ declared, D id declared ∧ hashDeclaredResource declared = hash ∧
    x = (resolveResource r.options s id declared).resource

/-- What a call knows, by where it is. -/
def JobOk (D : Declared) (t : LeafTable LeafSettings Resource) : Job → Prop
  | .admitting req _ _ => ∀ id declared, r.declaredBy req id declared → D id declared
  | .lookingUp p | .checkingUnknown p | .asking p | .refusing p | .adopting p _ =>
      ∀ rs ∈ p.decoded, D p.leafId rs.resource
  | .enqueueing p g =>
      (∀ x ∈ g.rest, D p.leafId x.1.resource) ∧
        (g.rest ≠ [] → t.HasSettings p.leafId g.settings)
  | .finding p g rs _ =>
      (∀ x ∈ g.rest, D p.leafId x.1.resource) ∧ t.HasSettings p.leafId g.settings ∧
        D p.leafId rs.resource
  | .inserting p g rs _ resolved =>
      (∀ x ∈ g.rest, D p.leafId x.1.resource) ∧ t.HasSettings p.leafId g.settings ∧
        D p.leafId rs.resource ∧
          resolved = resolveResource r.options g.settings p.leafId rs.resource
  | .emitting p g rs _ resource _ =>
      (∀ x ∈ g.rest, D p.leafId x.1.resource) ∧
        (g.rest ≠ [] → t.HasSettings p.leafId g.settings) ∧
        resource = some (resolveResource r.options g.settings p.leafId rs.resource).resource
  | .finished _ => True

variable {r} {D : Declared} {t t' : LeafTable LeafSettings Resource}

/-- A call keeps what it knows while its entry keeps its settings. -/
theorem JobOk.mono {job : Job} (h : r.JobOk D t job)
    (hkeep : ∀ id s, inFlight job = some (id, s) → t.HasSettings id s → t'.HasSettings id s) :
    r.JobOk D t' job := by
  cases job with
  | enqueueing p g =>
      obtain ⟨hrest, hsettings⟩ := h
      refine ⟨hrest, fun hne => hkeep _ _ ?_ (hsettings hne)⟩
      simp [inFlight, hne]
  | finding p g rs c =>
      obtain ⟨hrest, hsettings, hrs⟩ := h
      exact ⟨hrest, hkeep _ _ rfl hsettings, hrs⟩
  | inserting p g rs c resolved =>
      obtain ⟨hrest, hsettings, hrs, hresolved⟩ := h
      exact ⟨hrest, hkeep _ _ rfl hsettings, hrs, hresolved⟩
  | emitting p g rs c resource spans =>
      obtain ⟨hrest, hsettings, hresource⟩ := h
      refine ⟨hrest, fun hne => hkeep _ _ ?_ (hsettings hne), hresource⟩
      simp [inFlight, hne]
  | _ => exact h

/-- The invariant: the table and every call agree. -/
structure Agrees (r : Receiver) (D : Declared) (σ : State) : Prop where
  table : σ.shared.table.Inv
  resources : σ.shared.table.Resources (r.Resolved D)
  jobs : ∀ call job, σ.jobs call = some job → r.JobOk D σ.shared.table job

theorem Agrees.init (r : Receiver) (D : Declared) : r.Agrees D r.init where
  table := LeafTable.Inv.new ..
  resources := by
    intro n hn
    cases hn
  jobs := by
    intro call job hjob
    cases hjob

/-! ### One step -/

variable {s s' : Shared} {job job' : Job} {σ σ' : State} {a : Action}

/-- The settings a call goes on with are its entry's. -/
theorem identified_ok {p : Payload} {settings : LeafSettings}
    (hdecoded : ∀ rs ∈ p.decoded, D p.leafId rs.resource)
    (hsettings : s.table.HasSettings p.leafId settings)
    (h : r.identified s p settings = (s', job')) : r.JobOk D s'.table job' := by
  have hframe := r.identified_frame s p settings
  rw [h] at hframe
  rcases identified_cases h with rfl | rfl
  · trivial
  · refine ⟨?_, fun _ => ?_⟩
    · intro x hx
      exact hdecoded x.1 (List.of_mem_zip hx).1
    · dsimp only
      rw [hframe.table]
      exact hsettings

/-- The Resource in a leaf's entry is the one its settings and its declaration
resolve to. -/
theorem resource_resolved (I : t.Inv) (R : t.Resources (r.Resolved D)) (hcoll : Collisionless D)
    {id : Bytes} {settings : LeafSettings} {declared : List KeyValue} {x : Resource} {a : Nat}
    {e : Entry LeafSettings Resource} (hsettings : t.HasSettings id settings)
    (hdeclared : D id declared) (hmem : (a, e) ∈ t.recency) (hid : e.id = id)
    (hresource : e.resource = some x) (hhash : e.declaredHash = hashDeclaredResource declared) :
    x = (resolveResource r.options settings id declared).resource := by
  obtain ⟨s₁, hs₁, declared', hdeclared', hhash', hx⟩ := R (a, e) hmem x hresource
  obtain ⟨b, e', hmem', hid', hs'⟩ := hsettings
  obtain ⟨rfl, rfl⟩ := Prod.mk.inj (I.entry_unique hmem' hmem (hid'.trans hid.symm))
  obtain rfl := Option.some.inj (hs₁.symm.trans hs')
  dsimp only at hdeclared' hhash' hx
  rw [hid] at hdeclared' hx
  rw [hx, resolveResource_own r.options s₁ id
    (hcoll id declared' declared hdeclared' hdeclared (hhash'.trans hhash))]

/-- What a step of a call leaves in the table. -/
theorem called_resources (I : t.Inv) (R : t.Resources (r.Resolved D)) (hok : r.JobOk D t job) :
    (called t (r.tableCall job)).Resources (r.Resolved D) := by
  cases hcall : r.tableCall job with
  | none => exact R
  | some c =>
      apply R.step I
      rintro id hash new now rfl
      cases job with
      | inserting p g rs c resolved =>
          cases hcall
          obtain ⟨-, hsettings, hrs, rfl⟩ := hok
          exact ⟨g.settings, hsettings, rs.resource, hrs, rfl, rfl⟩
      | enqueueing p g =>
          simp only [tableCall] at hcall
          split at hcall <;> cases hcall
      | _ => cases hcall

theorem advance_ok (I : s.table.Inv) (R : s.table.Resources (r.Resolved D))
    (hcoll : Collisionless D)
    (hok : r.JobOk D s.table job) (h : r.advance s job = some (s', job')) :
    r.JobOk D s'.table job' := by
  have htable := (advance_calls h).table
  have I' := called_inv I (r.tableCall job)
  have R' := called_resources I R hok
  rw [← htable] at I' R'
  cases job with
  | admitting req received now =>
      rcases admit_cases (Option.some.inj h) with ⟨result, rfl⟩ | ⟨decoded, modes, hdecode, rfl⟩
      · trivial
      · intro rs hrs
        exact hok _ _ ⟨decoded, rs, hdecode, hrs, rfl, rfl⟩
  | lookingUp p =>
      have hlook := Option.some.inj h
      unfold lookUp at hlook
      dsimp only at hlook
      split at hlook
      · next settings hcached =>
        apply identified_ok hok _ hlook
        have hans :=
          (LeafTable.step_spec I.toWellLinked I.maxLeaves_pos (.settings p.leafId p.now)).2
        obtain ⟨a, e, rest, hfront, hid, hs⟩ := hans settings hcached
        exact ⟨a, e, by rw [show (s.table.settings p.leafId p.now).1.recency = _ from hfront]; simp,
          hid, hs⟩
      · rw [← (Prod.mk.inj hlook).2]
        split <;> exact hok
  | checkingUnknown p =>
      have hcheck := Option.some.inj h
      unfold checkUnknown at hcheck
      dsimp only at hcheck
      split at hcheck
      · rw [← (Prod.mk.inj hcheck).2]
        trivial
      · rw [← (Prod.mk.inj hcheck).2]
        exact hok
  | asking p => cases h
  | refusing p =>
      rw [← (Prod.mk.inj (Option.some.inj h)).2]
      trivial
  | adopting p fresh =>
      have hadopt := Option.some.inj h
      unfold adopt at hadopt
      dsimp only at hadopt
      split at hadopt
      · next settings hkept =>
        apply identified_ok hok _ hadopt
        have hans := (LeafTable.step_spec I.toWellLinked I.maxLeaves_pos
          (.adoptSettings p.leafId (some fresh) p.now)).2
        obtain ⟨a, e, rest, hfront, hid, hs⟩ := hans settings hkept
        exact ⟨a, e, by
          rw [show (s.table.adoptSettings p.leafId (some fresh) p.now).1.recency = _ from hfront]
          simp, hid, hs⟩
      · rw [← (Prod.mk.inj hadopt).2]
        trivial
  | enqueueing p g =>
      obtain ⟨hrest, hsettings⟩ := hok
      have henqueue := Option.some.inj h
      unfold enqueue at henqueue
      split at henqueue
      · rw [← (Prod.mk.inj henqueue).2]
        trivial
      · next rs mode rest hcons =>
        have hown := hsettings (by rw [hcons]; simp)
        have hkept : s'.table.HasSettings p.leafId g.settings := by
          rw [htable]
          simp only [tableCall, hcons]
          cases mode with
          | bootRelative => exact LeafTable.HasSettings.step_self I hown
          | _ => exact hown
        rw [hcons] at hrest
        rw [← (Prod.mk.inj henqueue).2]
        refine ⟨fun x hx => hrest x (List.mem_cons_of_mem _ hx), hkept, hrest (rs, mode) (by simp)⟩
  | finding p g rs c =>
      obtain ⟨hrest, hsettings, hrs⟩ := hok
      have hkept : s'.table.HasSettings p.leafId g.settings := by
        rw [htable]
        exact LeafTable.HasSettings.step_self I hsettings
      have hfind := Option.some.inj h
      unfold find at hfind
      dsimp only at hfind
      split at hfind
      · next x hcached =>
        have hans := (LeafTable.step_spec I.toWellLinked I.maxLeaves_pos
          (.find p.leafId (hashDeclaredResource rs.resource) p.now)).2
        obtain ⟨a, e, rest, hfront, hid, hx, hhash, -⟩ := hans x hcached
        have hmem : (a, e) ∈ s'.table.recency := by
          rw [htable]
          exact hfront ▸ List.mem_cons_self
        rw [← (Prod.mk.inj hfind).2]
        refine ⟨hrest, fun _ => hkept, ?_⟩
        rw [resource_resolved I' R' hcoll hkept hrs hmem hid hx (hhash _ _ _ rfl)]
      · rw [← (Prod.mk.inj hfind).2]
        exact ⟨hrest, hkept, hrs, rfl⟩
  | inserting p g rs c resolved =>
      obtain ⟨hrest, hsettings, hrs, hresolved⟩ := hok
      have hkept : s'.table.HasSettings p.leafId g.settings := by
        rw [htable]
        exact LeafTable.HasSettings.step_self I hsettings
      obtain ⟨x, hx⟩ := LeafTable.insert_some I p.leafId (hashDeclaredResource rs.resource)
        resolved.resource p.now
      have hans := (LeafTable.step_spec I.toWellLinked I.maxLeaves_pos
        (.insert p.leafId (hashDeclaredResource rs.resource) (some resolved.resource) p.now)).2
      obtain ⟨a, e, rest, hfront, hid, hresource, -, hhash⟩ := hans x hx
      have hmem : (a, e) ∈ s'.table.recency := by
        rw [htable]
        exact hfront ▸ List.mem_cons_self
      rw [← (Prod.mk.inj (Option.some.inj h)).2]
      have heq := resource_resolved I' R' hcoll hkept hrs hmem hid hresource (hhash _ _ _ _ rfl)
      exact ⟨hrest, fun _ => hkept, hx.trans (congrArg some heq)⟩
  | emitting p g rs c resource spans =>
      cases spans with
      | nil =>
          obtain ⟨rfl, rfl⟩ := Prod.mk.inj (Option.some.inj h)
          exact ⟨hok.1, hok.2.1⟩
      | cons span spans => cases h
  | finished result => cases h

/-- The other steps of a call leave what it knows alone. -/
theorem act_ok (hother : ∀ call, a ≠ .advance call) (hok : r.JobOk D s.table job)
    (h : r.act s a job = some (s', job')) : r.JobOk D s'.table job' := by
  rw [(act_frame hother h).table]
  cases a with
  | advance call => exact absurd rfl (hother call)
  | answer call a =>
      cases job with
      | asking p =>
          have hcases := r.answered_cases s p a
          simp only [act, answer] at h
          split at h
          · cases h
          · rw [Option.some.inj h] at hcases
            rcases hcases with heq | heq
            · obtain rfl : job' = .refusing p := heq
              exact hok
            · obtain rfl : job' = .adopting p (resolveSettings r.options p.leafId a).1 := heq
              exact hok
      | _ => cases h
  | sample call sampling queued =>
      cases job with
      | emitting p g rs c resource spans =>
          cases spans with
          | nil => cases h
          | cons span spans =>
              rw [← (Prod.mk.inj (Option.some.inj h)).2]
              exact hok
      | _ => cases h
  | outOfMemory call =>
      cases job with
      | finished result => cases h
      | _ =>
          rw [← (Prod.mk.inj (Option.some.inj h)).2]
          trivial
  | ingest call req clock now => cases h
  | markShutDown => cases h

/-- Step lemma: a call that acts keeps the agreement, if no entry is evicted
under another call. -/
theorem Agrees.acted (A : r.Agrees D σ) (hcoll : Collisionless D) (hkeep : KeepsInFlight σ a)
    {call : Nat} {next : Shared × Job} (hcall : a.call = some call) (hjob : σ.jobs call = some job)
    (hact : r.act σ.shared a job = some next) : r.Agrees D (σ.put call next) := by
  have hok := A.jobs call job hjob
  have hjobs : ∀ {next : Shared × Job}, r.JobOk D next.1.table next.2 →
      (∀ call' job' id s, σ.jobs call' = some job' → inFlight job' = some (id, s) →
        σ.shared.table.HasSettings id s → next.1.table.HasSettings id s) →
      ∀ call' job', (σ.put call next).jobs call' = some job' → r.JobOk D next.1.table job' := by
    intro next hnext hothers call' job' hjob'
    by_cases hself : call' = call
    · subst hself
      rw [State.put_self] at hjob'
      exact Option.some.inj hjob' ▸ hnext
    · rw [State.put_other σ next hself] at hjob'
      exact (A.jobs call' job' hjob').mono fun id s => hothers call' job' id s hjob'
  obtain ⟨s', job'⟩ := next
  rcases advance_or_other hcall with rfl | hother
  · have htable : s'.table = called σ.shared.table (r.tableCall job) := (advance_calls hact).table
    refine ⟨?_, ?_, hjobs (advance_ok A.table A.resources hcoll hok hact) ?_⟩
    · change s'.table.Inv
      rw [htable]
      exact called_inv A.table _
    · change s'.table.Resources _
      rw [htable]
      exact called_resources A.table A.resources hok
    · intro call' job'' id s hjob'' hflight hsettings
      change s'.table.HasSettings id s
      rw [htable]
      cases hc : r.tableCall job with
      | none => exact hsettings
      | some c =>
          apply hsettings.step A.table
          intro hinserts habsent
          -- Only an adopting call finds its leaf without an entry.
          cases job with
          | adopting p fresh =>
              cases hc
              exact hkeep call p fresh rfl hjob habsent call' job'' id s hjob'' hflight
          | enqueueing p g =>
              simp only [tableCall] at hc
              split at hc
              · next rs rest hcons =>
                cases hc
                exact absurd habsent (hok.2 (by rw [hcons]; simp)).not_absent
              · cases hc
          | inserting p g rs c' resolved =>
              cases hc
              exact absurd habsent hok.2.1.not_absent
          | lookingUp p =>
              cases hc
              cases hinserts
          | finding p g rs c' =>
              cases hc
              cases hinserts
          | _ => cases hc
  · have htable := (act_frame hother hact).table
    have hnext := act_ok hother hok hact
    refine ⟨?_, ?_, hjobs hnext ?_⟩
    · change s'.table.Inv
      rw [htable]
      exact A.table
    · change s'.table.Resources _
      rw [htable]
      exact A.resources
    · intro call' job'' id s _ _ hsettings
      change s'.table.HasSettings id s
      rw [htable]
      exact hsettings

/-- Step lemma. -/
theorem Agrees.step (A : r.Agrees D σ) (hcoll : Collisionless D) (hkeep : KeepsInFlight σ a)
    (hdeclared : ∀ call req clock now, a = .ingest call req clock now →
      ∀ id declared, r.declaredBy req id declared → D id declared)
    (h : r.step σ a = some σ') : r.Agrees D σ' := by
  cases step_spec h with
  | @begun call req clock now hfresh =>
      have htable := (begin_frame σ.shared req clock now).table
      have hbegin : r.JobOk D σ.shared.table (begin σ.shared req clock now).2 := by
        unfold begin
        split
        · trivial
        · exact hdeclared call req clock now rfl
      refine ⟨?_, ?_, ?_⟩
      · change (begin σ.shared req clock now).1.table.Inv
        rw [htable]
        exact A.table
      · change (begin σ.shared req clock now).1.table.Resources _
        rw [htable]
        exact A.resources
      · intro call' job hjob
        change r.JobOk D (begin σ.shared req clock now).1.table job
        rw [htable]
        by_cases hself : call' = call
        · subst hself
          rw [State.put_self] at hjob
          exact Option.some.inj hjob ▸ hbegin
        · rw [State.put_other σ _ hself] at hjob
          exact A.jobs call' job hjob
  | acted hcall hjob hact => exact A.acted hcoll hkeep hcall hjob hact
  | shut => exact ⟨A.table, A.resources, A.jobs⟩

/-- In every run that evicts no entry under a call in flight and whose declared
Resources do not collide, each payload's spans carry the Resource that its own
declared attributes, its leaf id, the defaults and its own settings resolve to. -/
theorem resources_agree (r : Receiver) (actions : List Action) (σ : State)
    (hrun : Machine.run r.step r.init actions = some σ)
    (hcoll : Collisionless (r.declaredIn actions))
    (hkeep : ∀ before a after σ', actions = before ++ a :: after →
      Machine.run r.step r.init before = some σ' → KeepsInFlight σ' a) :
    ∀ call p g rs c resource spans, σ.jobs call = some (.emitting p g rs c resource spans) →
      resource = some (resolveResource r.options g.settings p.leafId rs.resource).resource := by
  have hfinal : r.Agrees (r.declaredIn actions) σ := by
    refine @Machine.run_invariant_of _ _ r.step (fun σ' a => KeepsInFlight σ' a ∧
      ∀ call req clock now, a = .ingest call req clock now →
        ∀ id declared, r.declaredBy req id declared → r.declaredIn actions id declared)
      (r.Agrees (r.declaredIn actions)) ?_ r.init σ actions (Agrees.init r _) ?_ hrun
    · intro σ' a σ'' A hok hstep
      exact A.step hcoll hok.1 hok.2 hstep
    · intro before a after σ' hsplit hbefore
      refine ⟨hkeep before a after σ' hsplit hbefore, ?_⟩
      rintro call req clock now rfl id declared hdeclared
      exact ⟨call, req, clock, now, by rw [hsplit]; simp, hdeclared⟩
  intro call p g rs c resource spans hjob
  exact (hfinal.jobs call _ hjob).2.2

/-! ### A receiver with room for one leaf -/

def oneSpan : SpanRecord Resource where
  context := { traceId := ⟨Vector.replicate 16 1⟩, spanId := ⟨Vector.replicate 8 1⟩ }
  name := ascii "boot"

/-- Full nodes, at most one of them in the table; every payload decodes to one
span with no Resource of its own. -/
def oneLeaf : Receiver where
  options := { maxLeaves := 1, defaultTimeMode := some .unix, resolver := true }
  deps :=
    { decode := fun _ _ => .ok [{ resource := [], scopes := [⟨⟨[], []⟩, [oneSpan]⟩] }]
      applySpanLimits := id
      appendAttributes := List.append
      batchProcessor := true }

def siteConfig (site : String) : LeafConfig where
  resource := [⟨ascii "site", .string (ascii site)⟩]

/-- A call up to the end of its settings lookup, for a leaf with no entry. -/
def identifyCall (call : Nat) (leaf : String) (config : LeafConfig) : List Action :=
  [.ingest call { leafId := ascii leaf, payload := [] } 0 0, .advance call, .advance call,
    .answer call (some config), .advance call]

/-- If the one call is about to create an entry, it leaves the entry that the other is
about in the table. -/
def keepsUnder (σ : State) (call call' : Nat) : Bool :=
  match σ.jobs call, (σ.jobs call').bind inFlight with
  | some (.adopting p _), some (id, _) =>
      σ.shared.table.recency.any (fun n => n.2.id = p.leafId) ||
        ((σ.shared.table.evictIdle p.now).evictFull).recency.any (fun n => n.2.id = id)
  | _, _ => true

theorem keepsInFlight_of_keepsUnder {σ : State} (a : Action) (calls : List Nat)
    (hothers : ∀ call, call ∉ calls → σ.jobs call = none)
    (hkeep : ∀ call ∈ calls, ∀ call' ∈ calls, keepsUnder σ call call' = true) :
    KeepsInFlight σ a := by
  have hmem : ∀ {call job}, σ.jobs call = some job → call ∈ calls := by
    intro call job hjob
    by_contra hcall
    rw [hothers call hcall] at hjob
    cases hjob
  rintro call p fresh - hjob habsent call' job id s hjob' hflight hgone
  have hcheck := hkeep call (hmem hjob) call' (hmem hjob')
  rw [keepsUnder, hjob, hjob', Option.bind_some, hflight] at hcheck
  rcases (Bool.or_eq_true _ _).mp hcheck with hleaf | hid
  · exact LeafTable.not_absent_of_any hleaf habsent
  · exact LeafTable.not_absent_of_any hid hgone

/-- Leaf `b` is done with its call. Then two calls of leaf `a` go side by side: both miss
the table and ask the resolver, which answers them differently, and the first to adopt its
answer evicts the entry of leaf `b`. -/
def sideBySide : List Action :=
  identifyCall 2 "b" (siteConfig "east") ++
    ([.advance 2, .advance 2, .advance 2,
      .ingest 0 { leafId := ascii "a", payload := [] } 0 0,
      .ingest 1 { leafId := ascii "a", payload := [] } 0 0,
      .advance 0, .advance 1, .advance 0, .advance 1,
      .answer 0 (some (siteConfig "north")), .answer 1 (some (siteConfig "south")),
      .advance 0, .advance 1, .advance 0, .advance 1, .advance 0, .advance 1,
      .advance 0, .advance 1] : List Action)

theorem sideBySide_keeps {before after : List Action} {a : Action} {σ : State}
    (hsplit : sideBySide = before ++ a :: after)
    (hrun : Machine.run oneLeaf.step oneLeaf.init before = some σ) : KeepsInFlight σ a := by
  have hcalls : ∀ b ∈ sideBySide, b.call ∈ [some 0, some 1, some 2] := by decide
  have hstates : ∀ n < sideBySide.length,
      (Machine.run oneLeaf.step oneLeaf.init (sideBySide.take n)).all (fun σ =>
        [0, 1, 2].all fun call => [0, 1, 2].all fun call' => keepsUnder σ call call') = true := by
    decide +kernel
  apply keepsInFlight_of_keepsUnder a [0, 1, 2]
  · intro call hcall
    have hother : ∀ b ∈ before, b.call ≠ some call := by
      intro b hb heq
      have hmem := hcalls b (by rw [hsplit]; exact List.mem_append_left _ hb)
      rw [heq] at hmem
      exact hcall (by simpa using hmem)
    exact run_other hrun hother
  · have hlength : before.length < sideBySide.length := by
      rw [hsplit, List.length_append, List.length_cons]
      omega
    have hstate := hstates before.length hlength
    rw [hsplit, List.take_left, hrun, Option.all_some] at hstate
    intro call hcall call' hcall'
    exact List.all_eq_true.mp (List.all_eq_true.mp hstate call hcall) call' hcall'

/-- The two payloads of leaf `a` carry the Resource of the settings adopted first. -/
theorem resources_agree_sideBySide :
    ∃ σ, Machine.run oneLeaf.step oneLeaf.init sideBySide = some σ ∧ ∀ call ∈ [0, 1],
      ∃ p g rs c resource spans,
        σ.jobs call = some (.emitting p g rs c resource spans) ∧ p.leafId = ascii "a" ∧
        g.settings.resource = (siteConfig "north").resource ∧
        resource = some
          (resolveResource oneLeaf.options g.settings p.leafId rs.resource).resource := by
  obtain ⟨σ, hrun⟩ : ∃ σ, Machine.run oneLeaf.step oneLeaf.init sideBySide = some σ := ⟨_, rfl⟩
  have hjobs : ∀ call ∈ [0, 1], ∃ p g rs c resource spans,
      (Machine.run oneLeaf.step oneLeaf.init sideBySide).bind (fun σ => σ.jobs call) =
        some (.emitting p g rs c resource spans) ∧
      p.leafId = ascii "a" ∧ g.settings.resource = (siteConfig "north").resource := by
    intro call hcall
    rcases List.mem_pair.mp hcall with rfl | rfl
    · exact ⟨_, _, _, _, _, _, rfl, rfl, rfl⟩
    · exact ⟨_, _, _, _, _, _, rfl, rfl, rfl⟩
  refine ⟨σ, hrun, fun call hcall => ?_⟩
  obtain ⟨p, g, rs, c, resource, spans, hjob, hleaf, hsettings⟩ := hjobs call hcall
  rw [hrun, Option.bind_some] at hjob
  refine ⟨p, g, rs, c, resource, spans, hjob, hleaf, hsettings, ?_⟩
  apply resources_agree oneLeaf sideBySide σ hrun ?_ ?_ call p g rs c resource spans hjob
  · rintro id declared declared' ⟨_, _, _, _, -, decoded, rs, hdecode, hrs, -, rfl⟩
      ⟨_, _, _, _, -, decoded', rs', hdecode', hrs', -, rfl⟩ -
    obtain rfl := Except.ok.inj hdecode
    obtain rfl := Except.ok.inj hdecode'
    rw [List.mem_singleton.mp hrs, List.mem_singleton.mp hrs']
  · intro before a after σ' hsplit hbefore
    exact sideBySide_keeps hsplit hbefore

/-- The first call of leaf `a` holds the settings of its first entry while leaf
`b` evicts that entry and a second call of leaf `a` gets another. -/
def evictedUnder : List Action :=
  identifyCall 0 "a" (siteConfig "north") ++ identifyCall 1 "b" (siteConfig "east") ++
    identifyCall 2 "a" (siteConfig "south") ++
    ([.advance 0, .advance 0, .advance 0, .advance 2, .advance 2] : List Action)

/-- The second call is exported under the Resource of the first call's settings. -/
theorem resource_of_other_settings :
    ¬ ∀ (r : Receiver) (actions : List Action) (σ : State),
      Machine.run r.step r.init actions = some σ →
      ∀ call p g rs c resource spans, σ.jobs call = some (.emitting p g rs c resource spans) →
        resource = some (resolveResource r.options g.settings p.leafId rs.resource).resource := by
  intro h
  obtain ⟨σ, p, g, rs, c, resource, spans, hrun, hjob, hresource⟩ :
      ∃ σ p g rs c resource spans, Machine.run oneLeaf.step oneLeaf.init evictedUnder = some σ ∧
        σ.jobs 2 = some (.emitting p g rs c resource spans) ∧
        resource ≠
          some (resolveResource oneLeaf.options g.settings p.leafId rs.resource).resource :=
    ⟨_, _, _, _, _, _, _, rfl, rfl, by decide +kernel⟩
  exact hresource (h oneLeaf evictedUnder σ hrun 2 p g rs c resource spans hjob)

end Receiver

end Microtel.Concentrator
