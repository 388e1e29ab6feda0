import Microtel.Lib.Machine
import Microtel.Pipeline.Exporter

/-!
What holds in every state of `OtlpExporter` reached by any interleaving of its
callers with its worker: every batch offered is accepted or refused and counted,
every batch accepted has at most one outcome, and the queue keeps its bounds.
-/

namespace Microtel.Pipeline

open Machine

variable {ρ : Type}

/-! ### Requests -/

/-- The requests lie end to end from batch `a` to batch `b`, none of them empty. -/
def Tiles : Nat → List RequestRange → Nat → Prop
  | a, [], b => a = b
  | a, r :: rs, b => r.first = a ∧ 0 < r.count ∧ Tiles (a + r.count) rs b

theorem tiles_snoc {a b : Nat} {rs : List RequestRange} {r : RequestRange} :
    Tiles a (rs ++ [r]) b ↔ Tiles a rs r.first ∧ 0 < r.count ∧ r.first + r.count = b := by
  induction rs generalizing a with
  | nil =>
      simp only [List.nil_append, Tiles]
      constructor
      · rintro ⟨hfirst, hpos, hend⟩
        exact ⟨hfirst.symm, hpos, by omega⟩
      · rintro ⟨hfirst, hpos, hend⟩
        exact ⟨hfirst.symm, hpos, by omega⟩
  | cons r' rs ih =>
      simp only [List.cons_append, Tiles, ih]
      tauto

theorem Tiles.le {a b : Nat} {rs : List RequestRange} (h : Tiles a rs b) : a ≤ b := by
  induction rs generalizing a with
  | nil => exact le_of_eq h
  | cons r rs ih => exact le_trans (Nat.le_add_right _ _) (ih h.2.2)

theorem modify_last {α : Type} (xs : List α) (x : α) (f : α → α) :
    (xs ++ [x]).modify ((xs ++ [x]).length - 1) f = xs ++ [f x] := by
  have hlast : (xs ++ [x]).length - 1 = xs.length := by simp
  rw [hlast]
  induction xs with
  | nil => rfl
  | cons y xs ih => simp [ih]

theorem groupNext_requests (config : OtlpExporterConfig) (g : Grouping) (i spans bytes : Nat) :
    (groupNext config g i spans bytes).requests = g.requests ++ [⟨i, 1⟩] ∨
      ∃ rs r, g.requests = rs ++ [r] ∧
        (groupNext config g i spans bytes).requests = rs ++ [{ r with count := r.count + 1 }] := by
  unfold groupNext
  dsimp only
  split
  · exact Or.inl (modify_last _ _ _)
  · next hstay =>
    push Not at hstay
    obtain ⟨rs, r, hrs⟩ := (List.eq_nil_or_concat g.requests).resolve_left hstay.1
    rw [List.concat_eq_append] at hrs
    rw [hrs]
    exact Or.inr ⟨rs, r, rfl, modify_last _ _ _⟩

theorem groupFrom_tiles (config : OtlpExporterConfig) (i : Nat) (sizes : List (Nat × Nat))
    (g : Grouping) (h : Tiles 0 g.requests i) :
    Tiles 0 (groupFrom config i sizes g).requests (i + sizes.length) := by
  induction sizes generalizing i g with
  | nil => exact h
  | cons size sizes ih =>
      have hnext : Tiles 0 (groupNext config g i size.1 size.2).requests (i + 1) := by
        rcases groupNext_requests config g i size.1 size.2 with hnew | ⟨rs, r, hrs, hmore⟩
        · rw [hnew]
          exact tiles_snoc.mpr ⟨h, Nat.one_pos, rfl⟩
        · rw [hrs] at h
          obtain ⟨hbefore, hpos, hend⟩ := tiles_snoc.mp h
          rw [hmore]
          exact tiles_snoc.mpr ⟨hbefore, Nat.succ_pos _, by dsimp only; omega⟩
      have hlen : i + (size :: sizes).length = i + 1 + sizes.length := by
        rw [List.length_cons]
        omega
      rw [hlen]
      exact ih (i + 1) _ hnext

/-- The requests of a drain lie end to end over its batches. -/
theorem groupIntoRequests_tiles (config : OtlpExporterConfig) (sizes : List (Nat × Nat)) :
    Tiles 0 (groupIntoRequests config sizes) sizes.length := by
  have h := groupFrom_tiles config 0 sizes ⟨[], 0, 0⟩ rfl
  rw [Nat.zero_add] at h
  exact h

section Slices

variable {α : Type} {batches : List α} {a b : Nat} {rs : List RequestRange}

theorem Tiles.slices (h : Tiles a rs b) (batches : List α) :
    rs.flatMap (·.slice batches) = (batches.drop a).take (b - a) := by
  induction rs generalizing a with
  | nil =>
      rw [show b - a = 0 by simp [h.symm.le]]
      simp
  | cons r rs ih =>
      obtain ⟨hfirst, -, hrest⟩ := h
      have hle := hrest.le
      rw [List.flatMap_cons, ih hrest, RequestRange.slice, hfirst,
        show b - a = r.count + (b - (a + r.count)) by omega, List.take_add, List.drop_drop]

theorem Tiles.slice_length (h : Tiles a rs b) (hb : b ≤ batches.length) :
    ∀ r ∈ rs, (r.slice batches).length = r.count ∧ 0 < r.count := by
  induction rs generalizing a with
  | nil => simp
  | cons r rs ih =>
      obtain ⟨hfirst, hpos, hrest⟩ := h
      intro r' hr'
      rcases List.mem_cons.mp hr' with rfl | hr'
      · have hle := hrest.le
        refine ⟨?_, hpos⟩
        rw [RequestRange.slice, List.length_take, List.length_drop]
        omega
      · exact ih hrest r' hr'

end Slices

/-! ### Settling -/

/-- What settling a request may change of the diagnostics: its batches are counted
once, as sent or as failed, and no refusal is counted. -/
structure Settles (d d' : Diagnostics) (success : Bool) (batches : Nat) : Prop where
  sent : d'.batchesSent = d.batchesSent + if success then batches else 0
  failed : d'.batchesFailed = d.batchesFailed + if success then 0 else batches
  refusals : d'.drops .postShutdown = d.drops .postShutdown ∧
    d'.drops .queueFull = d.drops .queueFull

theorem recordDrop_refusals (d : Diagnostics) (reason : DropReason) (n : Nat)
    (hpost : reason ≠ .postShutdown) (hfull : reason ≠ .queueFull) :
    (d.recordDrop reason n).drops .postShutdown = d.drops .postShutdown ∧
      (d.recordDrop reason n).drops .queueFull = d.drops .queueFull := by
  unfold Diagnostics.recordDrop recordDropped
  exact ⟨Function.update_of_ne hpost.symm _ _, Function.update_of_ne hfull.symm _ _⟩

theorem repeat_sent (d : Diagnostics) (n : Nat) :
    Settles d (repeatRecord n Diagnostics.recordBatchSent d) true n := by
  induction n with
  | zero => exact ⟨rfl, rfl, rfl, rfl⟩
  | succ n ih => exact ⟨congrArg (· + 1) ih.sent, ih.failed, ih.refusals⟩

theorem repeat_failed (d : Diagnostics) (n : Nat) (message : String) :
    Settles d (repeatRecord n (·.recordBatchFailed message) d) false n := by
  induction n with
  | zero => exact ⟨rfl, rfl, rfl, rfl⟩
  | succ n ih => exact ⟨ih.sent, congrArg (· + 1) ih.failed, ih.refusals⟩

theorem recordOutcome_settles (d : Diagnostics) (result : WireResult) (stage : String) (n : Nat) :
    Settles d (recordOutcome d result stage n) result.success n := by
  unfold recordOutcome
  split
  · next hsent =>
    rw [hsent]
    dsimp only
    split
    · have h := repeat_sent
        (d.recordDrop .partialSuccessRejection result.partialSuccessRejected) n
      have hkeep := recordDrop_refusals d .partialSuccessRejection result.partialSuccessRejected
        (by decide) (by decide)
      exact ⟨h.sent, h.failed, h.refusals.1.trans hkeep.1, h.refusals.2.trans hkeep.2⟩
    · exact repeat_sent d n
  · next hfailed =>
    rw [Bool.not_eq_true] at hfailed
    rw [hfailed]
    dsimp only
    have hreason : (if result.retryable then DropReason.retryBudgetExhausted
        else .nonRetryableFailure) ≠ .postShutdown ∧
        (if result.retryable then DropReason.retryBudgetExhausted
        else .nonRetryableFailure) ≠ .queueFull := by
      split
      · exact ⟨by decide, by decide⟩
      · exact ⟨by decide, by decide⟩
    generalize (if result.retryable then DropReason.retryBudgetExhausted
        else .nonRetryableFailure) = reason at hreason ⊢
    have h := repeat_failed (d.recordDrop reason n) n (result.error.getD stage)
    have hkeep := recordDrop_refusals d reason n hreason.1 hreason.2
    exact ⟨h.sent, h.failed, h.refusals.1.trans hkeep.1, h.refusals.2.trans hkeep.2⟩

/-- The retry loop only notes a recovery; the outcome is recorded after it. -/
theorem resolve_keeps {maxAttempts n : Nat} {d d' : Diagnostics} {first result : WireResult}
    {attempts : List Attempt} (h : resolve maxAttempts d first attempts n = .ok (result, d')) :
    d'.batchesSent = d.batchesSent ∧ d'.batchesFailed = d.batchesFailed ∧
      d'.drops .postShutdown = d.drops .postShutdown ∧
      d'.drops .queueFull = d.drops .queueFull := by
  unfold resolve at h
  split at h
  · cases h
    exact ⟨rfl, rfl, rfl, rfl⟩
  split at h
  · cases h
  · cases h
    exact ⟨rfl, rfl, rfl, rfl⟩
  · next retried _ =>
    cases h
    split
    · exact ⟨rfl, rfl, recordDrop_refusals d _ n (by decide) (by decide)⟩
    · exact ⟨rfl, rfl, rfl, rfl⟩

theorem settle_settles {maxAttempts n : Nat} {d d' : Diagnostics} {first : WireResult} {sent : Bool}
    {attempts : List Attempt} {stage : String}
    (h : settle maxAttempts d first attempts stage n = .ok (sent, d')) : Settles d d' sent n := by
  unfold settle at h
  split at h
  · cases h
  · next result d₁ hresolve =>
    cases h
    obtain ⟨hsent, hfailed, hpost, hfull⟩ := resolve_keeps hresolve
    have hout := recordOutcome_settles d₁ result stage n
    refine ⟨?_, ?_, hout.refusals.1.trans hpost, hout.refusals.2.trans hfull⟩
    · rw [hout.sent, hsent]
    · rw [hout.failed, hfailed]

namespace Exporter

/-! ### The accounts -/

/-- The spans of the batches refused for a reason. -/
def refusedSpans (refused : List (BatchHandle ρ × DropReason)) (reason : DropReason) : Nat :=
  ((refused.filter (·.2 = reason)).map fun r => spanCount r.1).sum

/-- Where the worker can be, and with what. -/
structure WorkerOk (e : Exporter ρ) : Prop where
  sending : ∀ batches, e.worker = .sending batches → batches ≠ []
  requests : ∀ batches todo, e.worker = .settling batches todo →
    ∀ request ∈ todo, (request.1.slice batches).length = request.1.count ∧ 0 < request.1.count
  leaving : e.worker = .leaving ∨ e.worker = .exited → e.shutdown = true ∧ e.queue = []

structure Accounts (e : Exporter ρ) : Prop extends WorkerOk e where
  offered : e.ledger.offered.Perm (e.ledger.accepted ++ e.ledger.refused.map Prod.fst)
  accepted : e.ledger.accepted.Perm
    (e.queue ++ e.unsettled ++ e.ledger.sent ++ e.ledger.failed ++ e.ledger.abandoned)
  refused : ∀ r ∈ e.ledger.refused, r.2 = .postShutdown ∨ r.2 = .queueFull
  counted : ∀ reason, reason = .postShutdown ∨ reason = .queueFull →
    e.diag.drops reason = refusedSpans e.ledger.refused reason
  spans : e.queuedSpans = queuedCount e.queue
  spansBounded : e.queuedSpans ≤ e.config.maxQueuedSpans
  sizeBounded : e.queue.length ≤ e.config.maxQueueSize
  sent : e.diag.batchesSent = e.ledger.sent.length
  failed : e.diag.batchesFailed = e.ledger.failed.length + e.ledger.throws

theorem Accounts.new (config : OtlpExporterConfig) : (new config : Exporter ρ).Accounts where
  sending := by simp [Exporter.new]
  requests := by simp [Exporter.new]
  leaving := by simp [Exporter.new]
  offered := List.Perm.nil
  accepted := List.Perm.nil
  refused := by simp [Exporter.new]
  counted _ _ := rfl
  spans := rfl
  spansBounded := Nat.zero_le _
  sizeBounded := Nat.zero_le _
  sent := rfl
  failed := rfl

/-- Two states that differ in nothing the accounts are about but the worker. -/
structure SameBooks (e e' : Exporter ρ) : Prop where
  queue : e'.queue = e.queue
  queuedSpans : e'.queuedSpans = e.queuedSpans
  config : e'.config = e.config
  drops : e'.diag.drops = e.diag.drops
  batchesSent : e'.diag.batchesSent = e.diag.batchesSent
  batchesFailed : e'.diag.batchesFailed = e.diag.batchesFailed
  ledger : e'.ledger = e.ledger

variable {e e' : Exporter ρ}

theorem Accounts.same (h : e.Accounts) (S : SameBooks e e')
    (hunsettled : e'.unsettled = e.unsettled) (hworker : e'.WorkerOk) : e'.Accounts where
  toWorkerOk := hworker
  offered := by
    rw [S.ledger]
    exact h.offered
  accepted := by
    rw [S.ledger, S.queue, hunsettled]
    exact h.accepted
  refused := by
    rw [S.ledger]
    exact h.refused
  counted := by
    rw [S.ledger, S.drops]
    exact h.counted
  spans := by
    rw [S.queuedSpans, S.queue]
    exact h.spans
  spansBounded := by
    rw [S.queuedSpans, S.config]
    exact h.spansBounded
  sizeBounded := by
    rw [S.queue, S.config]
    exact h.sizeBounded
  sent := by
    rw [S.batchesSent, S.ledger]
    exact h.sent
  failed := by
    rw [S.batchesFailed, S.ledger]
    exact h.failed

/-- A worker that holds no batch and is in its loop. -/
def Free (worker : ExporterWorker ρ) : Prop :=
  worker = .top ∨ worker = .blocked ∨ worker = .caught

theorem unsettled_of_free (h : Free e.worker) : e.unsettled = [] := by
  unfold Exporter.unsettled
  rcases h with h | h | h <;> rw [h]

theorem WorkerOk.of_free (h : Free e.worker) : e.WorkerOk := by
  rcases h with h | h | h
  · exact ⟨by simp [h], by simp [h], by simp [h]⟩
  · exact ⟨by simp [h], by simp [h], by simp [h]⟩
  · exact ⟨by simp [h], by simp [h], by simp [h]⟩

/-- The worker stays where it is, or was and is free. -/
theorem Accounts.same_free (h : e.Accounts) (S : SameBooks e e')
    (hworker : e'.worker = e.worker ∧ (e.shutdown = true → e'.shutdown = true) ∨
      Free e.worker ∧ Free e'.worker) : e'.Accounts := by
  rcases hworker with ⟨hsame, hshut⟩ | ⟨hold, hnew⟩
  · apply h.same S
    · unfold Exporter.unsettled
      rw [hsame]
    · refine ⟨?_, ?_, ?_⟩
      · rw [hsame]
        exact h.sending
      · rw [hsame]
        exact h.requests
      · rw [hsame, S.queue]
        intro hleaving
        obtain ⟨hdown, hempty⟩ := h.leaving hleaving
        exact ⟨hshut hdown, hempty⟩
  · apply h.same S _ (WorkerOk.of_free hnew)
    rw [unsettled_of_free hold, unsettled_of_free hnew]

theorem wakeWorker_cases (worker : ExporterWorker ρ) :
    wakeWorker worker = worker ∨ worker = .blocked ∧ wakeWorker worker = .top := by
  cases worker with
  | blocked => exact Or.inr ⟨rfl, rfl⟩
  | top => exact Or.inl rfl
  | sending batches => exact Or.inl rfl
  | settling batches todo => exact Or.inl rfl
  | caught => exact Or.inl rfl
  | leaving => exact Or.inl rfl
  | exited => exact Or.inl rfl

theorem Accounts.notifyAll (h : e.Accounts) : e.notifyAll.Accounts := by
  have S : SameBooks e e.notifyAll := ⟨rfl, rfl, rfl, rfl, rfl, rfl, rfl⟩
  apply h.same_free S
  rcases wakeWorker_cases e.worker with hsame | ⟨hblocked, htop⟩
  · exact Or.inl ⟨hsame, id⟩
  · exact Or.inr ⟨Or.inr (Or.inl hblocked), Or.inl htop⟩

/-! ### Callers -/

theorem refusedSpans_append (refused : List (BatchHandle ρ × DropReason)) (batch : BatchHandle ρ)
    (lost reason : DropReason) :
    refusedSpans (refused ++ [(batch, lost)]) reason =
      refusedSpans refused reason + if reason = lost then spanCount batch else 0 := by
  unfold refusedSpans
  rw [List.filter_append, List.map_append, List.sum_append]
  by_cases h : reason = lost
  · subst h
    simp
  · have hne : ¬ lost = reason := fun heq => h heq.symm
    simp [h, hne]

theorem Accounts.refuse (h : e.Accounts) (batch : BatchHandle ρ) {reason : DropReason}
    (hreason : reason = .postShutdown ∨ reason = .queueFull) :
    (e.refuse batch reason).Accounts where
  toWorkerOk := ⟨h.sending, h.requests, h.leaving⟩
  offered := by
    change (e.ledger.offered ++ [batch]).Perm (_ ++ List.map Prod.fst (e.ledger.refused ++ [_]))
    rw [List.map_append, ← List.append_assoc]
    exact h.offered.append_right _
  accepted := h.accepted
  refused := by
    intro r hr
    rcases List.mem_append.mp hr with hr | hr
    · exact h.refused r hr
    · rw [List.mem_singleton.mp hr]
      exact hreason
  counted := by
    intro reason' hreason'
    change recordDropped e.diag.drops reason _ reason' =
      refusedSpans (e.ledger.refused ++ [_]) reason'
    rw [recordDropped_apply, refusedSpans_append, h.counted reason' hreason']
  spans := h.spans
  spansBounded := h.spansBounded
  sizeBounded := h.sizeBounded
  sent := h.sent
  failed := h.failed

theorem Accounts.enqueueLocked (h : e.Accounts) (batch : BatchHandle ρ) (throws : Bool) :
    (e.enqueueLocked batch throws).1.Accounts := by
  unfold Exporter.enqueueLocked
  split
  · exact h.refuse batch (Or.inl rfl)
  split
  · exact h.refuse batch (Or.inr rfl)
  split
  · exact h.refuse batch (Or.inr rfl)
  next hopen hroom _ =>
  push Not at hroom
  refine ⟨⟨h.sending, h.requests, ?_⟩, ?_, ?_, h.refused, h.counted, ?_, hroom.2, ?_, h.sent,
    h.failed⟩
  · intro hleaving
    exact absurd (h.leaving hleaving).1 hopen
  · change (e.ledger.offered ++ [batch]).Perm (e.ledger.accepted ++ [batch] ++ _)
    apply (h.offered.append_right _).trans
    rw [List.append_assoc, List.append_assoc]
    exact List.perm_append_comm.append_left _
  · change (e.ledger.accepted ++ [batch]).Perm (e.queue ++ [batch] ++ e.unsettled ++ _ ++ _ ++ _)
    apply (h.accepted.append_right _).trans
    simp only [List.append_assoc]
    apply List.Perm.append_left
    simp only [← List.append_assoc]
    exact List.perm_append_comm
  · change e.queuedSpans + spanCount batch = queuedCount (e.queue ++ [batch])
    rw [h.spans]
    simp [queuedCount]
  · change (e.queue ++ [batch]).length ≤ e.config.maxQueueSize
    rw [List.length_append]
    exact hroom.1

theorem Accounts.enqueueAll (group : List (BatchHandle ρ × Bool)) (h : e.Accounts) :
    (e.enqueueAll group).1.Accounts := by
  induction group generalizing e with
  | nil => exact h
  | cons item group ih => exact ih (h.enqueueLocked item.1 item.2)

theorem Accounts.exportGroup (h : e.Accounts) (group : List (BatchHandle ρ × Bool)) :
    (e.exportGroup group).Accounts := by
  have hall := Accounts.enqueueAll group h
  unfold Exporter.exportGroup
  dsimp only
  split
  · exact hall.same ⟨rfl, rfl, rfl, rfl, rfl, rfl, rfl⟩ rfl
      ⟨hall.sending, hall.requests, hall.leaving⟩
  · exact hall

theorem Accounts.wakeOne (h : e.Accounts) {target : Target} (hstep : e.wakeOne target = some e') :
    e'.Accounts := by
  unfold Exporter.wakeOne at hstep
  split at hstep
  · split at hstep
    · next hblocked =>
      cases hstep
      exact h.same_free ⟨rfl, rfl, rfl, rfl, rfl, rfl, rfl⟩
        (Or.inr ⟨Or.inr (Or.inl hblocked), Or.inl rfl⟩)
    · cases hstep
  · split at hstep
    · cases hstep
    split at hstep
    · cases hstep
      exact h.same_free ⟨rfl, rfl, rfl, rfl, rfl, rfl, rfl⟩ (Or.inl ⟨rfl, id⟩)
    · cases hstep

theorem Accounts.notifyOne (h : e.Accounts) {target : Option Target}
    (hstep : e.notifyOne target = some e') : e'.Accounts := by
  unfold Exporter.notifyOne at hstep
  split at hstep
  · cases hstep
  have hless : Accounts { e with owed := e.owed - 1 } :=
    h.same_free ⟨rfl, rfl, rfl, rfl, rfl, rfl, rfl⟩ (Or.inl ⟨rfl, id⟩)
  dsimp only at hstep
  split at hstep
  · exact hless.wakeOne hstep
  · split at hstep
    · cases hstep
      exact hless
    · cases hstep

theorem Accounts.forceFlush (h : e.Accounts) : e.forceFlush.Accounts := by
  have hmore : Accounts { e with flushSeq := e.flushSeq + 1 } :=
    h.same_free ⟨rfl, rfl, rfl, rfl, rfl, rfl, rfl⟩ (Or.inl ⟨rfl, id⟩)
  exact hmore.notifyAll.same_free ⟨rfl, rfl, rfl, rfl, rfl, rfl, rfl⟩ (Or.inl ⟨rfl, id⟩)

theorem Accounts.shutDown (h : e.Accounts) : e.shutDown.Accounts := by
  unfold Exporter.shutDown
  split
  · exact h
  · have hshut : Accounts { e with shutdown := true } :=
      h.same_free ⟨rfl, rfl, rfl, rfl, rfl, rfl, rfl⟩ (Or.inl ⟨rfl, fun _ => rfl⟩)
    exact hshut.forceFlush

theorem Accounts.check (h : e.Accounts) {i : Nat} (hstep : e.check i = some e') : e'.Accounts := by
  unfold Exporter.check at hstep
  split at hstep
  · cases hstep
  split at hstep
  · cases hstep
    exact h.same_free ⟨rfl, rfl, rfl, rfl, rfl, rfl, rfl⟩ (Or.inl ⟨rfl, id⟩)
  · cases hstep
    exact h.same_free ⟨rfl, rfl, rfl, rfl, rfl, rfl, rfl⟩ (Or.inl ⟨rfl, id⟩)
  · cases hstep

theorem Accounts.expire (h : e.Accounts) {i : Nat} (hstep : e.expire i = some e') :
    e'.Accounts := by
  unfold Exporter.expire at hstep
  split at hstep
  · cases hstep
  split at hstep
  · cases hstep
    exact h.same_free ⟨rfl, rfl, rfl, rfl, rfl, rfl, rfl⟩ (Or.inl ⟨rfl, id⟩)
  · cases hstep

/-! ### The worker -/

theorem Accounts.endIteration (h : e.Accounts) (hunsettled : e.unsettled = [])
    (hempty : e.queue = []) : e.endIteration.Accounts := by
  have hany : ∀ e₁ : Exporter ρ, e₁.Accounts → e₁.unsettled = [] → e₁.queue = [] →
      Accounts { e₁ with worker := if e₁.shutdown then .leaving else .top } := by
    intro e₁ h₁ hunsettled₁ hempty₁
    refine h₁.same ⟨rfl, rfl, rfl, rfl, rfl, rfl, rfl⟩ ?_ ?_
    · rw [hunsettled₁]
      unfold Exporter.unsettled
      cases e₁.shutdown <;> rfl
    · cases hdown : e₁.shutdown with
      | true => exact ⟨by simp, by simp, fun _ => ⟨rfl, hempty₁⟩⟩
      | false => exact WorkerOk.of_free (Or.inl rfl)
  unfold Exporter.endIteration
  dsimp only
  split
  · have hdone : Accounts { e with flushDoneSeq := e.flushSeq } :=
      h.same_free ⟨rfl, rfl, rfl, rfl, rfl, rfl, rfl⟩ (Or.inl ⟨rfl, id⟩)
    apply hany _ hdone.notifyAll _ hempty
    change Exporter.unsettled { e with worker := wakeWorker e.worker } = []
    rcases wakeWorker_cases e.worker with hsame | ⟨-, htop⟩
    · unfold Exporter.unsettled at hunsettled ⊢
      rw [hsame]
      exact hunsettled
    · unfold Exporter.unsettled
      rw [htop]
  · exact hany e h hunsettled hempty

theorem Accounts.drain (h : e.Accounts) (hunsettled : e.unsettled = []) : e.drain.Accounts := by
  unfold Exporter.drain
  split
  · next hempty => exact h.endIteration hunsettled hempty
  · next hsome =>
    refine ⟨⟨?_, by simp, by simp⟩, h.offered, ?_, h.refused, h.counted, rfl, Nat.zero_le _,
      Nat.zero_le _, h.sent, h.failed⟩
    · intro batches hbatches
      rw [← ExporterWorker.sending.inj hbatches]
      exact hsome
    · have haccepted := h.accepted
      rw [hunsettled, List.append_nil] at haccepted
      exact haccepted

theorem Accounts.workerCheck (h : e.Accounts) (hstep : e.workerCheck = some e') : e'.Accounts := by
  unfold Exporter.workerCheck at hstep
  split at hstep
  · next htop =>
    split at hstep
    · cases hstep
      exact h.drain (unsettled_of_free (Or.inl htop))
    · cases hstep
      exact h.same_free ⟨rfl, rfl, rfl, rfl, rfl, rfl, rfl⟩
        (Or.inr ⟨Or.inl htop, Or.inr (Or.inl rfl)⟩)
  · cases hstep

/-- The batches without an outcome are abandoned, and one failure is counted. -/
theorem Accounts.drainThrew (h : e.Accounts) (what : String) : (e.drainThrew what).Accounts := by
  have hfree : (e.drainThrew what).unsettled = [] := unsettled_of_free (Or.inr (Or.inr rfl))
  refine ⟨WorkerOk.of_free (Or.inr (Or.inr rfl)), h.offered, ?_, h.refused, h.counted, h.spans,
    h.spansBounded, h.sizeBounded, h.sent, ?_⟩
  · rw [hfree]
    change e.ledger.accepted.Perm (e.queue ++ [] ++ e.ledger.sent ++ e.ledger.failed ++
      (e.ledger.abandoned ++ e.unsettled))
    apply h.accepted.trans
    simp only [← Multiset.coe_eq_coe, ← Multiset.coe_add]
    abel
  · change e.diag.batchesFailed + 1 = e.ledger.failed.length + (e.ledger.throws + 1)
    rw [h.failed, Nat.add_assoc]

theorem Accounts.sendThrew (h : e.Accounts) {what : String} (hstep : e.sendThrew what = some e') :
    e'.Accounts := by
  unfold Exporter.sendThrew at hstep
  split at hstep
  · cases hstep
    exact h.drainThrew what
  · cases hstep

/-- The requests of a drain carry its batches, each in one request. -/
theorem Accounts.sendAll (h : e.Accounts) {bytes : List Nat} {results : List WireResult}
    (hstep : e.sendAll bytes results = some e') : e'.Accounts := by
  unfold Exporter.sendAll at hstep
  split at hstep
  · next batches hsending =>
    dsimp only at hstep
    have htiles := groupIntoRequests_tiles e.config ((batches.map spanCount).zip bytes)
    generalize groupIntoRequests e.config ((batches.map spanCount).zip bytes) = requests
      at hstep htiles
    split at hstep
    · next hlens =>
      have hfsts : (requests.zip results).map Prod.fst = requests :=
        List.map_fst_zip (le_of_eq hlens.2.symm)
      have hlen : ((batches.map spanCount).zip bytes).length = batches.length := by
        simp [hlens.1]
      rw [hlen] at htiles
      cases hstep
      refine h.same ⟨rfl, rfl, rfl, rfl, rfl, rfl, rfl⟩ ?_ ?_
      · unfold Exporter.unsettled
        rw [hsending]
        dsimp only
        have hslices := htiles.slices batches
        rw [← hfsts, List.flatMap_map] at hslices
        rw [hslices]
        simp
      · refine ⟨by simp, ?_, by simp⟩
        intro batches' todo hsettling request hrequest
        obtain ⟨rfl, rfl⟩ := ExporterWorker.settling.inj hsettling
        apply htiles.slice_length (le_refl _)
        rw [← hfsts]
        exact List.mem_map_of_mem hrequest
    · cases hstep
  · cases hstep

theorem Accounts.settleNext (h : e.Accounts) {attempts : List Attempt} {what : String}
    (hstep : e.settleNext attempts what = some e') : e'.Accounts := by
  unfold Exporter.settleNext at hstep
  split at hstep
  · next batches range result todo hworker =>
    obtain ⟨hcount, hpos⟩ := h.requests batches _ hworker (range, result) (by simp)
    have hunsettled : e.unsettled =
        range.slice batches ++ todo.flatMap fun request => request.1.slice batches := by
      unfold Exporter.unsettled
      rw [hworker]
      rfl
    split at hstep
    · cases hstep
      exact h.drainThrew what
    · next sent diag hsettle =>
      have S := settle_settles hsettle
      cases hstep
      refine ⟨⟨by simp, ?_, by simp⟩, h.offered, ?_, h.refused, ?_, h.spans, h.spansBounded,
        h.sizeBounded, ?_, ?_⟩
      · intro batches' todo' hsettling request hrequest
        obtain ⟨rfl, rfl⟩ := ExporterWorker.settling.inj hsettling
        exact h.requests batches _ hworker request (by simp [hrequest])
      · have haccepted := h.accepted
        rw [hunsettled] at haccepted
        apply haccepted.trans
        change List.Perm _ (e.queue ++ (todo.flatMap fun request => request.1.slice batches) ++
          (e.ledger.sent ++ if sent then range.slice batches else []) ++
          (e.ledger.failed ++ if sent then [] else range.slice batches) ++ e.ledger.abandoned)
        simp only [← Multiset.coe_eq_coe, ← Multiset.coe_add]
        cases sent with
        | true =>
            simp only [if_true, Multiset.coe_nil]
            abel
        | false =>
            simp only [Bool.false_eq_true, if_false, Multiset.coe_nil]
            abel
      · intro reason hreason
        have hsame : diag.drops reason = e.diag.drops reason := by
          rcases hreason with rfl | rfl
          · exact S.refusals.1
          · exact S.refusals.2
        exact hsame.trans (h.counted reason hreason)
      · change diag.batchesSent = (e.ledger.sent ++ _).length
        rw [S.sent, h.sent, List.length_append]
        cases sent with
        | true => simp [hcount]
        | false => simp
      · change diag.batchesFailed = (e.ledger.failed ++ _).length + e.ledger.throws
        rw [S.failed, h.failed, List.length_append]
        cases sent with
        | true => simp
        | false =>
            simp only [Bool.false_eq_true, if_false, hcount]
            omega
  · cases hstep

theorem Accounts.relock (h : e.Accounts) (hstep : e.relock = some e') : e'.Accounts := by
  unfold Exporter.relock at hstep
  have hdepth : Accounts { e with diag := e.diag.setQueueDepth e.queue.length } :=
    h.same_free ⟨rfl, rfl, rfl, rfl, rfl, rfl, rfl⟩ (Or.inl ⟨rfl, id⟩)
  split at hstep
  · next hworker =>
    cases hstep
    apply hdepth.drain
    unfold Exporter.unsettled
    rw [hworker]
    rfl
  · next hworker =>
    cases hstep
    apply hdepth.drain
    exact unsettled_of_free (Or.inr (Or.inr hworker))
  · cases hstep

theorem Accounts.leave (h : e.Accounts) (hstep : e.leave = some e') : e'.Accounts := by
  unfold Exporter.leave at hstep
  split at hstep
  · next hworker =>
    cases hstep
    refine h.same ⟨rfl, rfl, rfl, rfl, rfl, rfl, rfl⟩ ?_ ?_
    · unfold Exporter.unsettled
      rw [hworker]
    · exact ⟨by simp, by simp, fun _ => h.leaving (Or.inl hworker)⟩
  · cases hstep

/-- Step lemma. -/
theorem Accounts.step (h : e.Accounts) {a : ExporterAction ρ} (hstep : e.step a = some e') :
    e'.Accounts := by
  cases a with
  | exportGroup group =>
      cases hstep
      exact h.exportGroup group
  | notifyOne target => exact h.notifyOne hstep
  | spurious target => exact h.wakeOne hstep
  | forceFlush =>
      cases hstep
      exact h.forceFlush
  | shutdown =>
      cases hstep
      exact h.shutDown
  | check waiter => exact h.check hstep
  | expire waiter => exact h.expire hstep
  | workerCheck => exact h.workerCheck hstep
  | sendThrew what => exact h.sendThrew hstep
  | sendAll bytes results => exact h.sendAll hstep
  | settle attempts what => exact h.settleNext hstep
  | relock => exact h.relock hstep
  | leave => exact h.leave hstep

/-! ### Exceptions -/

/-- The step is one at which an exception ends a drain. -/
def throws (e : Exporter ρ) : ExporterAction ρ → Bool
  | .sendThrew _ => true
  | .settle attempts _ =>
      match e.worker with
      | .settling _ ((range, result) :: _) =>
          match settle e.config.maxAttempts e.diag result attempts kFailureStage range.count with
          | .error () => true
          | .ok _ => false
      | _ => false
  | _ => false

/-- The configuration stays, and no drain is given up. -/
structure Keeps (e e' : Exporter ρ) : Prop where
  config : e'.config = e.config
  abandoned : e'.ledger.abandoned = e.ledger.abandoned
  throws : e'.ledger.throws = e.ledger.throws

theorem enqueueLocked_keeps (e : Exporter ρ) (batch : BatchHandle ρ) (throws : Bool) :
    Keeps e (e.enqueueLocked batch throws).1 := by
  unfold Exporter.enqueueLocked
  split
  · exact ⟨rfl, rfl, rfl⟩
  split
  · exact ⟨rfl, rfl, rfl⟩
  split
  · exact ⟨rfl, rfl, rfl⟩
  · exact ⟨rfl, rfl, rfl⟩

theorem enqueueAll_keeps (e : Exporter ρ) (group : List (BatchHandle ρ × Bool)) :
    Keeps e (e.enqueueAll group).1 := by
  induction group generalizing e with
  | nil => exact ⟨rfl, rfl, rfl⟩
  | cons item group ih =>
      have hfirst := enqueueLocked_keeps e item.1 item.2
      have hrest := ih (e.enqueueLocked item.1 item.2).1
      exact ⟨hrest.config.trans hfirst.config, hrest.abandoned.trans hfirst.abandoned,
        hrest.throws.trans hfirst.throws⟩

theorem exportGroup_keeps (e : Exporter ρ) (group : List (BatchHandle ρ × Bool)) :
    Keeps e (e.exportGroup group) := by
  have h := enqueueAll_keeps e group
  unfold Exporter.exportGroup
  dsimp only
  split
  · exact ⟨h.config, h.abandoned, h.throws⟩
  · exact h

theorem wakeOne_keeps {target : Target} (hstep : e.wakeOne target = some e') : Keeps e e' := by
  unfold Exporter.wakeOne at hstep
  split at hstep
  · split at hstep
    · cases hstep
      exact ⟨rfl, rfl, rfl⟩
    · cases hstep
  · split at hstep
    · cases hstep
    split at hstep
    · cases hstep
      exact ⟨rfl, rfl, rfl⟩
    · cases hstep

theorem notifyOne_keeps {target : Option Target} (hstep : e.notifyOne target = some e') :
    Keeps e e' := by
  unfold Exporter.notifyOne at hstep
  split at hstep
  · cases hstep
  dsimp only at hstep
  split at hstep
  · have h := wakeOne_keeps hstep
    exact ⟨h.config, h.abandoned, h.throws⟩
  · split at hstep
    · cases hstep
      exact ⟨rfl, rfl, rfl⟩
    · cases hstep

theorem shutDown_keeps (e : Exporter ρ) : Keeps e e.shutDown := by
  unfold Exporter.shutDown
  split
  · exact ⟨rfl, rfl, rfl⟩
  · exact ⟨rfl, rfl, rfl⟩

theorem check_keeps {i : Nat} (hstep : e.check i = some e') : Keeps e e' := by
  unfold Exporter.check at hstep
  split at hstep
  · cases hstep
  split at hstep
  · cases hstep
    exact ⟨rfl, rfl, rfl⟩
  · cases hstep
    exact ⟨rfl, rfl, rfl⟩
  · cases hstep

theorem expire_keeps {i : Nat} (hstep : e.expire i = some e') : Keeps e e' := by
  unfold Exporter.expire at hstep
  split at hstep
  · cases hstep
  split at hstep
  · cases hstep
    exact ⟨rfl, rfl, rfl⟩
  · cases hstep

theorem drain_keeps (e : Exporter ρ) : Keeps e e.drain := by
  unfold Exporter.drain
  split
  · unfold Exporter.endIteration
    dsimp only
    split
    · exact ⟨rfl, rfl, rfl⟩
    · exact ⟨rfl, rfl, rfl⟩
  · exact ⟨rfl, rfl, rfl⟩

theorem workerCheck_keeps (hstep : e.workerCheck = some e') : Keeps e e' := by
  unfold Exporter.workerCheck at hstep
  split at hstep
  · split at hstep
    · cases hstep
      exact drain_keeps e
    · cases hstep
      exact ⟨rfl, rfl, rfl⟩
  · cases hstep

theorem relock_keeps (hstep : e.relock = some e') : Keeps e e' := by
  unfold Exporter.relock at hstep
  have h := drain_keeps { e with diag := e.diag.setQueueDepth e.queue.length }
  split at hstep
  · cases hstep
    exact ⟨h.config, h.abandoned, h.throws⟩
  · cases hstep
    exact ⟨h.config, h.abandoned, h.throws⟩
  · cases hstep

/-- Without an exception nothing is abandoned. -/
theorem step_keeps {a : ExporterAction ρ} (hstep : e.step a = some e') (hno : e.throws a = false) :
    Keeps e e' := by
  cases a with
  | exportGroup group =>
      cases hstep
      exact exportGroup_keeps e group
  | notifyOne target => exact notifyOne_keeps hstep
  | spurious target => exact wakeOne_keeps hstep
  | forceFlush =>
      cases hstep
      exact ⟨rfl, rfl, rfl⟩
  | shutdown =>
      cases hstep
      exact shutDown_keeps e
  | check waiter => exact check_keeps hstep
  | expire waiter => exact expire_keeps hstep
  | workerCheck => exact workerCheck_keeps hstep
  | sendThrew what => cases hno
  | sendAll bytes results =>
      simp only [Exporter.step, Exporter.sendAll] at hstep
      split at hstep
      · split at hstep
        · cases hstep
          exact ⟨rfl, rfl, rfl⟩
        · cases hstep
      · cases hstep
  | settle attempts what =>
      simp only [Exporter.step, Exporter.settleNext] at hstep
      simp only [Exporter.throws] at hno
      split at hstep
      · next hworker =>
        rw [hworker] at hno
        dsimp only at hno
        split at hstep
        · next hthrew =>
          rw [hthrew] at hno
          cases hno
        · cases hstep
          exact ⟨rfl, rfl, rfl⟩
      · cases hstep
  | relock => exact relock_keeps hstep
  | leave =>
      simp only [Exporter.step, Exporter.leave] at hstep
      split at hstep
      · cases hstep
        exact ⟨rfl, rfl, rfl⟩
      · cases hstep

/-- An exception gives up the batches that have no outcome, and there is one. -/
theorem step_throws (h : e.Accounts) {a : ExporterAction ρ} (hstep : e.step a = some e')
    (hthrows : e.throws a = true) :
    e'.config = e.config ∧ e'.ledger.abandoned = e.ledger.abandoned ++ e.unsettled ∧
      e'.ledger.throws = e.ledger.throws + 1 ∧ 0 < e.unsettled.length := by
  cases a with
  | sendThrew what =>
      simp only [Exporter.step, Exporter.sendThrew] at hstep
      split at hstep
      · next batches hworker =>
        cases hstep
        refine ⟨rfl, rfl, rfl, ?_⟩
        have hunsettled : e.unsettled = batches := by
          unfold Exporter.unsettled
          rw [hworker]
        rw [hunsettled]
        exact List.length_pos_iff.mpr (h.sending batches hworker)
      · cases hstep
  | settle attempts what =>
      simp only [Exporter.step, Exporter.settleNext] at hstep
      simp only [Exporter.throws] at hthrows
      split at hstep
      · next batches range result todo hworker =>
        rw [hworker] at hthrows
        dsimp only at hthrows
        obtain ⟨hcount, hpos⟩ := h.requests batches _ hworker (range, result) (by simp)
        split at hstep
        · cases hstep
          refine ⟨rfl, rfl, rfl, ?_⟩
          unfold Exporter.unsettled
          rw [hworker]
          dsimp only
          rw [List.flatMap_cons, List.length_append, hcount]
          omega
        · next hok =>
          rw [hok] at hthrows
          cases hthrows
      · cases hstep
  | exportGroup group => cases hthrows
  | notifyOne target => cases hthrows
  | spurious target => cases hthrows
  | forceFlush => cases hthrows
  | shutdown => cases hthrows
  | check waiter => cases hthrows
  | expire waiter => cases hthrows
  | workerCheck => cases hthrows
  | sendAll bytes results => cases hthrows
  | relock => cases hthrows
  | leave => cases hthrows

theorem step_config (h : e.Accounts) {a : ExporterAction ρ} (hstep : e.step a = some e') :
    e'.config = e.config := by
  cases hthrows : e.throws a with
  | true => exact (step_throws h hstep hthrows).1
  | false => exact (step_keeps hstep hthrows).config

/-- Of each drain an exception ended, the batches without an outcome but one: the
failure counted for the drain stands for one of them only. -/
def uncounted (e : Exporter ρ) : List (ExporterAction ρ) → Nat
  | [] => 0
  | a :: as =>
      (if e.throws a then e.unsettled.length - 1 else 0) +
        match e.step a with
        | none => 0
        | some e' => e'.uncounted as

theorem uncounted_cons {a : ExporterAction ρ} (h : e.step a = some e')
    (actions : List (ExporterAction ρ)) :
    e.uncounted (a :: actions) =
      (if e.throws a then e.unsettled.length - 1 else 0) + e'.uncounted actions := by
  rw [uncounted, h]

/-- Run lemma: the batches given up are the exceptions and the uncounted ones. -/
theorem run_abandoned (h : e.Accounts) {actions : List (ExporterAction ρ)}
    (hrun : run step e actions = some e') :
    e'.ledger.abandoned.length + e.ledger.throws =
      e.ledger.abandoned.length + e'.ledger.throws + e.uncounted actions := by
  induction actions generalizing e with
  | nil =>
      cases hrun
      rfl
  | cons a actions ih =>
      rw [run_cons, Option.bind_eq_some_iff] at hrun
      obtain ⟨e₁, hstep, hrest⟩ := hrun
      have hih := ih (h.step hstep) hrest
      rw [uncounted_cons hstep]
      cases hthrows : e.throws a with
      | true =>
          obtain ⟨-, habandoned, hthrew, hpos⟩ := step_throws h hstep hthrows
          rw [habandoned, hthrew, List.length_append] at hih
          simp only [if_true]
          omega
      | false =>
          have hkeeps := step_keeps hstep hthrows
          rw [hkeeps.abandoned, hkeeps.throws] at hih
          simp only [Bool.false_eq_true, if_false]
          omega

/-- Every exception strikes when exactly one batch of its drain has no outcome. -/
def ThrowsOnLast (e : Exporter ρ) (actions : List (ExporterAction ρ)) : Prop :=
  ∀ before a after s, actions = before ++ a :: after → run step e before = some s →
    s.throws a = true → s.unsettled.length = 1

theorem uncounted_eq_zero_iff (h : e.Accounts) {actions : List (ExporterAction ρ)}
    (hrun : run step e actions = some e') : e.uncounted actions = 0 ↔ e.ThrowsOnLast actions := by
  induction actions generalizing e with
  | nil =>
      refine ⟨fun _ before a after s hsplit => ?_, fun _ => rfl⟩
      simp at hsplit
  | cons a actions ih =>
      rw [run_cons, Option.bind_eq_some_iff] at hrun
      obtain ⟨e₁, hstep, hrest⟩ := hrun
      have hih := ih (h.step hstep) hrest
      rw [uncounted_cons hstep, Nat.add_eq_zero_iff, hih]
      constructor
      · rintro ⟨hhere, hlater⟩ before a' after s hsplit hbefore hthrows
        cases before with
        | nil =>
            obtain ⟨rfl, rfl⟩ := List.cons.inj hsplit
            cases hbefore
            rw [if_pos hthrows] at hhere
            have hpos := (step_throws h hstep hthrows).2.2.2
            omega
        | cons b before =>
            obtain ⟨rfl, hrest'⟩ := List.cons.inj hsplit
            rw [run_cons, hstep] at hbefore
            exact hlater before a' after s hrest' hbefore hthrows
      · intro hall
        refine ⟨?_, ?_⟩
        · split
          · next hthrows =>
            rw [hall [] a actions e rfl rfl hthrows]
          · rfl
        · intro before a' after s hsplit hbefore hthrows
          refine hall (a :: before) a' after s ?_ ?_ hthrows
          · rw [hsplit, List.cons_append]
          · rw [run_cons, hstep]
            exact hbefore

/-- The exporter, over every run. Every batch offered is accepted, or refused and
counted with its spans; every batch accepted is in one place; the counters of sent
and failed batches add up to the accepted ones, once the worker has exited, if
and only if every exception struck when one batch was left to settle. -/
theorem batches_settled (config : OtlpExporterConfig) (actions : List (ExporterAction ρ))
    (e : Exporter ρ) (hrun : run step (new config) actions = some e) :
    e.ledger.offered.Perm (e.ledger.accepted ++ e.ledger.refused.map Prod.fst) ∧
    (∀ r ∈ e.ledger.refused, r.2 = .postShutdown ∨ r.2 = .queueFull) ∧
    (∀ reason, reason = .postShutdown ∨ reason = .queueFull →
      e.diag.drops reason = refusedSpans e.ledger.refused reason) ∧
    e.queuedSpans = queuedCount e.queue ∧ e.queuedSpans ≤ config.maxQueuedSpans ∧
    e.queue.length ≤ config.maxQueueSize ∧
    e.ledger.accepted.Perm
      (e.queue ++ e.unsettled ++ e.ledger.sent ++ e.ledger.failed ++ e.ledger.abandoned) ∧
    e.diag.batchesSent = e.ledger.sent.length ∧
    e.diag.batchesFailed = e.ledger.failed.length + e.ledger.throws ∧
    (e.worker = .exited → (e.diag.batchesSent + e.diag.batchesFailed = e.ledger.accepted.length ↔
      (new config : Exporter ρ).ThrowsOnLast actions)) := by
  have hkept : ∀ (s : Exporter ρ) a s', s.Accounts ∧ s.config = config → s.step a = some s' →
      s'.Accounts ∧ s'.config = config :=
    fun s a s' hs hstep => ⟨hs.1.step hstep, (step_config hs.1 hstep).trans hs.2⟩
  obtain ⟨h, hconfig⟩ := run_invariant hkept ⟨Accounts.new config, rfl⟩ hrun
  refine ⟨h.offered, h.refused, h.counted, h.spans, ?_, ?_, h.accepted, h.sent, h.failed, ?_⟩
  · rw [← hconfig]
    exact h.spansBounded
  · rw [← hconfig]
    exact h.sizeBounded
  · intro hexited
    have hlen := h.accepted.length_eq
    have hunsettled : e.unsettled = [] := by
      unfold Exporter.unsettled
      rw [hexited]
    rw [(h.leaving (Or.inr hexited)).2, hunsettled] at hlen
    simp only [List.length_append, List.length_nil] at hlen
    have habandoned := run_abandoned (Accounts.new config) hrun
    change _ + 0 = 0 + _ + _ at habandoned
    rw [← uncounted_eq_zero_iff (Accounts.new config) hrun, h.sent, h.failed]
    omega

/-- One span under Resource 0. -/
def oneSpan : BatchHandle Nat := { records := [{}], resource := 0, scope := default }

def smallConfig : OtlpExporterConfig :=
  { maxQueueSize := 4, maxQueuedSpans := 4, maxSpansPerRequest := 2, maxRequestBytes := 0
    maxAttempts := 2 }

/-- A drain of two batches in one request, sent at its second attempt, then a shutdown. -/
def retriedDrain : List (ExporterAction Nat) :=
  [.exportGroup [(oneSpan, false), (oneSpan, false)], .notifyOne none, .workerCheck,
    .sendAll [10, 10] [{ success := false, retryable := true }],
    .settle [.result { success := true }] "", .shutdown, .relock, .leave]

theorem batches_settled_retriedDrain :
    ∃ e : Exporter Nat, run step (new smallConfig) retriedDrain = some e ∧ e.worker = .exited ∧
      e.diag.batchesSent = 2 ∧ (new smallConfig : Exporter Nat).ThrowsOnLast retriedDrain := by
  obtain ⟨e, hrun, hexited, hsent, htotal⟩ : ∃ e : Exporter Nat,
      run step (new smallConfig) retriedDrain = some e ∧ e.worker = .exited ∧
        e.diag.batchesSent = 2 ∧
        e.diag.batchesSent + e.diag.batchesFailed = e.ledger.accepted.length :=
    ⟨_, rfl, rfl, rfl, rfl⟩
  obtain ⟨-, -, -, -, -, -, -, -, -, hiff⟩ := batches_settled smallConfig retriedDrain e hrun
  exact ⟨e, hrun, hexited, hsent, (hiff hexited).mp htotal⟩

/-- `Encode` throws on the first batch of a drain of two: two batches were
accepted, one outcome is counted. -/
theorem drain_of_two_counted_once :
    ∃ e : Exporter Nat, run step (new smallConfig)
        [.exportGroup [(oneSpan, false), (oneSpan, false)], .notifyOne none, .workerCheck,
          .sendThrew "encode failed", .shutdown, .relock, .leave] = some e ∧
      e.worker = .exited ∧ e.ledger.accepted = [oneSpan, oneSpan] ∧
      e.diag.batchesSent + e.diag.batchesFailed = 1 :=
  ⟨_, rfl, rfl, rfl, rfl⟩

end Exporter

end Microtel.Pipeline
