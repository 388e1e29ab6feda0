import Microtel.Pipeline.ExporterFlush
import Microtel.Pipeline.ProcessorFlush

/-!
The trace pipeline: a `BatchSpanProcessor` whose worker hands its batches to an
`OtlpExporter`, and the two-stage flush of `SdkProvider::FlushPipeline`
(`src/sdk/sdk_provider.cpp`) over them.
-/

namespace Microtel.Pipeline

open Machine

variable {ρ : Type}

inductive FlushPc
  /-- In the processor's `ForceFlush`, as this call of it. -/
  | inProcessor (call : Nat)
  /-- In the exporter's `ForceFlush`, as this waiter. -/
  | inExporter (waiter : Nat)
  | returned (status : Status)
  deriving DecidableEq, Repr

/-- A call of `FlushPipeline`. -/
structure PipelineFlush (ρ : Type) where
  pc : FlushPc
  /-- Every record whose `Enqueue` had returned `true`. -/
  before : List (Scoped ρ)

structure TracePipeline (ρ : Type) where
  processor : Processor ρ
  exporter : Exporter ρ
  flushes : List (PipelineFlush ρ) := []

inductive PipelineAction (ρ : Type)
  | processor (a : ProcessorAction ρ)
  | exporter (a : ExporterAction ρ)
  /-- The processor's worker calls `Export` or `ExportGroup`; `throws` says at which
  batches `push_back` throws. -/
  | handOver (throws : List Bool)
  | flush
  | flushNext (flush : Nat)

namespace TracePipeline

/-- The exporter is called by the processor's worker only. -/
def handOver (t : TracePipeline ρ) (throws : List Bool) : Option (TracePipeline ρ) :=
  if throws.length = t.processor.nextCall.length then
    t.processor.handOver.map fun processor =>
      { t with
        processor := processor
        exporter := t.exporter.exportGroup (t.processor.nextCall.zip throws) }
  else none

/-- `FlushPipeline` up to the wait of its first stage. -/
def flush (t : TracePipeline ρ) : TracePipeline ρ :=
  let before := t.processor.ledger.accepted
  if t.processor.shutdown then
    { t with flushes := t.flushes ++ [{ pc := .returned .alreadyShutDown, before := before }] }
  else
    { t with
      processor := t.processor.forceFlush
      flushes := t.flushes ++
        [{ pc := .inProcessor t.processor.flushes.length, before := before }] }

/-- The end of a stage of `FlushPipeline`. -/
def flushNext (t : TracePipeline ρ) (i : Nat) : Option (TracePipeline ρ) :=
  match t.flushes[i]? with
  | none => none
  | some f =>
      match f.pc with
      | .inProcessor call =>
          match (t.processor.flushes[call]?).bind FlushCall.result with
          | none => none
          | some .completed =>
              some { t with
                exporter := t.exporter.forceFlush
                flushes := t.flushes.set i { f with pc := .inExporter t.exporter.waiters.length } }
          | some status =>
              some { t with flushes := t.flushes.set i { f with pc := .returned status } }
      | .inExporter waiter =>
          match (t.exporter.waiters[waiter]?).map Waiter.pc with
          | some (.returned status) =>
              some { t with flushes := t.flushes.set i { f with pc := .returned status } }
          | _ => none
      | .returned _ => none

def step [DecidableEq ρ] (t : TracePipeline ρ) : PipelineAction ρ → Option (TracePipeline ρ)
  | .processor .handOver => none
  | .processor a => (t.processor.step a).map fun processor => { t with processor := processor }
  | .exporter (.exportGroup _) => none
  | .exporter a => (t.exporter.step a).map fun exporter => { t with exporter := exporter }
  | .handOver throws => t.handOver throws
  | .flush => some t.flush
  | .flushNext i => t.flushNext i

def new (resource : ρ) (opts : BatchOptions) (maxRecordBytes maxTotalQueueBytes : Nat)
    (grouped : Bool) (config : OtlpExporterConfig) : TracePipeline ρ :=
  { processor := Processor.new resource opts maxRecordBytes maxTotalQueueBytes grouped
    exporter := Exporter.new config }

/-! ### The invariant -/

/-- The records of the batches the exporter is done with. -/
def outcomes (t : TracePipeline ρ) : List (Scoped ρ) :=
  t.exporter.outcomes.flatMap BatchHandle.scoped

/-- What a flush has waited for so far. -/
def FlushOk (t : TracePipeline ρ) (f : PipelineFlush ρ) : Prop :=
  match f.pc with
  | .inProcessor call => t.processor.befores[call]? = some f.before
  | .inExporter waiter =>
      ∃ offered, t.exporter.befores[waiter]? = some offered ∧
        f.before.Subperm (t.processor.ledger.evicted ++ offered.flatMap BatchHandle.scoped)
  | .returned .completed => f.before.Subperm (t.processor.ledger.evicted ++ t.outcomes)
  | .returned _ => True

structure Inv (t : TracePipeline ρ) : Prop where
  conserves : t.processor.Conserves
  processorFlushes : t.processor.Flushes
  accounts : t.exporter.Accounts
  exporterFlushes : t.exporter.Flushes
  handed : t.exporter.ledger.offered = t.processor.ledger.handed
  flushes : ∀ f ∈ t.flushes, t.FlushOk f

variable {t t' : TracePipeline ρ}

theorem Inv.new (resource : ρ) (opts : BatchOptions) (maxRecordBytes maxTotalQueueBytes : Nat)
    (grouped : Bool) (config : OtlpExporterConfig) :
    (new resource opts maxRecordBytes maxTotalQueueBytes grouped config).Inv where
  conserves := Processor.Conserves.new _ _ _ _ _
  processorFlushes := Processor.Flushes.new _ _ _ _ _
  accounts := Exporter.Accounts.new config
  exporterFlushes := Exporter.Flushes.new config
  handed := rfl
  flushes := by simp [TracePipeline.new]

theorem getElem?_of_isPrefix {α : Type} {l l' : List α} {i : Nat} {x : α} (h : l <+: l')
    (hx : l[i]? = some x) : l'[i]? = some x := by
  obtain ⟨rest, rfl⟩ := h
  rw [List.getElem?_append_left (List.getElem?_eq_some_iff.mp hx).1]
  exact hx

theorem subperm_flatMap {α β : Type} {l l' : List α} (f : α → List β) (h : l.Subperm l') :
    (l.flatMap f).Subperm (l'.flatMap f) := by
  obtain ⟨m, hperm, hsub⟩ := h
  exact ⟨m.flatMap f, hperm.flatMap_right f, hsub.flatMap f⟩

/-- What a flush has waited for stays so as the two stages move on. -/
theorem FlushOk.mono {f : PipelineFlush ρ} (h : t.FlushOk f)
    (P : Processor.Moves t.processor t'.processor)
    (hbefores : t.exporter.befores <+: t'.exporter.befores)
    (houtcomes : t.exporter.outcomes.Subperm t'.exporter.outcomes) : t'.FlushOk f := by
  unfold FlushOk at h ⊢
  split at h
  · exact getElem?_of_isPrefix P.befores h
  · obtain ⟨offered, hat, hsub⟩ := h
    refine ⟨offered, getElem?_of_isPrefix hbefores hat, hsub.trans ?_⟩
    exact P.evicted.sublist.subperm.append (List.Subperm.refl _)
  · apply h.trans
    exact P.evicted.sublist.subperm.append (subperm_flatMap _ houtcomes)
  · trivial

/-! ### Steps -/

theorem Inv.handOver [DecidableEq ρ] (h : t.Inv) {throws : List Bool}
    (hstep : t.handOver throws = some t') : t'.Inv := by
  unfold TracePipeline.handOver at hstep
  split at hstep
  · next hlen =>
    rw [Option.map_eq_some_iff] at hstep
    obtain ⟨p', hover, rfl⟩ := hstep
    obtain ⟨P, hhanded⟩ := Processor.handOver_moves hover
    obtain ⟨hoffered, hbefores⟩ :=
      Exporter.exportGroup_offered t.exporter (t.processor.nextCall.zip throws)
    have G := Exporter.exportGroup_grows t.exporter (t.processor.nextCall.zip throws)
    refine ⟨h.conserves.handOver hover, h.processorFlushes.handOver hover,
      h.accounts.exportGroup _, h.exporterFlushes.grow G, ?_, ?_⟩
    · dsimp only
      rw [hoffered, hhanded, h.handed, List.map_fst_zip (le_of_eq hlen.symm)]
    · intro f hf
      exact (h.flushes f hf).mono P (by rw [hbefores]) G.outcomes
  · cases hstep

/-- `FlushPipeline` starts by a `ForceFlush` of the processor. -/
theorem Inv.flush (h : t.Inv) : t.flush.Inv := by
  unfold TracePipeline.flush
  dsimp only
  split
  · refine ⟨h.conserves, h.processorFlushes, h.accounts, h.exporterFlushes, h.handed, ?_⟩
    intro f hf
    rcases List.mem_append.mp hf with hf | hf
    · exact h.flushes f hf
    · rw [List.mem_singleton.mp hf]
      trivial
  · next hopen =>
    have P := Processor.forceFlush_moves t.processor
    have hnew : t.processor.forceFlush.flushes = t.processor.flushes ++
        [{ target := t.processor.flushSeq + 1, before := t.processor.ledger.accepted }] := by
      unfold Processor.forceFlush
      rw [if_neg hopen]
    have hsame : t.processor.forceFlush.ledger = t.processor.ledger := by
      unfold Processor.forceFlush
      rw [if_neg hopen]
    refine ⟨h.conserves.forceFlush, h.processorFlushes.forceFlush, h.accounts, h.exporterFlushes,
      ?_, ?_⟩
    · dsimp only
      rw [hsame]
      exact h.handed
    · intro f hf
      rcases List.mem_append.mp hf with hf | hf
      · exact (h.flushes f hf).mono P (List.prefix_refl _) (List.Subperm.refl _)
      · rw [List.mem_singleton.mp hf]
        change t.processor.forceFlush.befores[t.processor.flushes.length]? = some _
        unfold Processor.befores
        rw [hnew]
        simp

theorem mem_set_flush {i : Nat} {f : PipelineFlush ρ} {fs : List (PipelineFlush ρ)}
    {f' : PipelineFlush ρ} (hf : f ∈ fs.set i f') : f ∈ fs ∨ f = f' :=
  List.mem_or_eq_of_mem_set hf

/-- The first stage ends with every record accepted before the call evicted or
offered to the exporter, and the second with every batch offered done with. -/
theorem Inv.flushNext (h : t.Inv) {i : Nat} (hstep : t.flushNext i = some t') : t'.Inv := by
  unfold TracePipeline.flushNext at hstep
  split at hstep
  · cases hstep
  next f₀ hf₀ =>
  have hok := h.flushes f₀ (List.mem_of_getElem? hf₀)
  split at hstep
  · next call hpc =>
    unfold FlushOk at hok
    rw [hpc] at hok
    dsimp only at hok
    split at hstep
    · cases hstep
    · next hcompleted =>
      rw [Option.bind_eq_some_iff] at hcompleted
      obtain ⟨c, hc, hresult⟩ := hcompleted
      have hmem := List.mem_of_getElem? hc
      have hbefore : c.before = f₀.before := by
        unfold Processor.befores at hok
        rw [List.getElem?_map, hc] at hok
        exact Option.some.inj hok
      have hpassed := h.processorFlushes.done c hmem (h.processorFlushes.completed c hmem hresult)
      rw [hbefore] at hpassed
      have M := Exporter.forceFlush_moves t.exporter
      cases hstep
      refine ⟨h.conserves, h.processorFlushes, h.accounts.forceFlush, h.exporterFlushes.forceFlush,
        h.handed, ?_⟩
      intro f hf
      rcases mem_set_flush hf with hf | rfl
      · exact (h.flushes f hf).mono ⟨List.prefix_refl _, List.prefix_refl _⟩ M.befores M.outcomes
      · refine ⟨t.exporter.ledger.offered, ?_, ?_⟩
        · change (List.map Waiter.before (t.exporter.waiters.map Waiter.wake ++ [_]))[_]? = _
          rw [List.map_append]
          simp
          rfl
        · rw [h.handed]
          exact hpassed
    · next status hnot _ =>
      cases hstep
      refine ⟨h.conserves, h.processorFlushes, h.accounts, h.exporterFlushes, h.handed, ?_⟩
      intro f hf
      rcases mem_set_flush hf with hf | rfl
      · exact h.flushes f hf
      · unfold FlushOk
        cases status with
        | completed => exact absurd rfl hnot
        | timedOut | alreadyShutDown | failed | invalidArgument | unsupported => trivial
  · next waiter hpc =>
    unfold FlushOk at hok
    rw [hpc] at hok
    obtain ⟨offered, hat, hsub⟩ := hok
    split at hstep
    · next status hreturned =>
      rw [Option.map_eq_some_iff] at hreturned
      obtain ⟨w, hw, hwpc⟩ := hreturned
      have hmem := List.mem_of_getElem? hw
      have hbefore : w.before = offered := by
        unfold Exporter.befores at hat
        rw [List.getElem?_map, hw] at hat
        exact Option.some.inj hat
      cases hstep
      refine ⟨h.conserves, h.processorFlushes, h.accounts, h.exporterFlushes, h.handed, ?_⟩
      intro f hf
      rcases mem_set_flush hf with hf | rfl
      · exact h.flushes f hf
      · unfold FlushOk
        cases status with
        | completed =>
            have hdone := h.exporterFlushes.done w hmem (h.exporterFlushes.completed w hmem hwpc)
            rw [hbefore] at hdone
            exact hsub.trans ((List.Subperm.refl _).append (subperm_flatMap _ hdone))
        | timedOut | alreadyShutDown | failed | invalidArgument | unsupported => trivial
    · cases hstep
  · cases hstep

/-- An action of the processor's own is a step of the processor. -/
theorem step_processor [DecidableEq ρ] {a : ProcessorAction ρ}
    (hstep : t.step (.processor a) = some t') :
    ∃ p', a ≠ .handOver ∧ t.processor.step a = some p' ∧ t' = { t with processor := p' } := by
  cases a with
  | handOver => cases hstep
  | _ =>
      simp only [TracePipeline.step, Option.map_eq_some_iff] at hstep
      obtain ⟨p', hp, rfl⟩ := hstep
      exact ⟨p', by simp, hp, rfl⟩

theorem step_exporter [DecidableEq ρ] {a : ExporterAction ρ}
    (hstep : t.step (.exporter a) = some t') :
    ∃ e', (∀ group, a ≠ .exportGroup group) ∧ t.exporter.step a = some e' ∧
      t' = { t with exporter := e' } := by
  cases a with
  | exportGroup group => cases hstep
  | _ =>
      simp only [TracePipeline.step, Option.map_eq_some_iff] at hstep
      obtain ⟨e', he, rfl⟩ := hstep
      exact ⟨e', by simp, he, rfl⟩

/-- Step lemma. -/
theorem Inv.step [DecidableEq ρ] (h : t.Inv) {a : PipelineAction ρ} (hstep : t.step a = some t') :
    t'.Inv := by
  cases a with
  | processor a =>
      obtain ⟨p', ha, hp, rfl⟩ := step_processor hstep
      obtain ⟨P, hhanded⟩ := Processor.step_moves hp ha
      refine ⟨h.conserves.step hp, h.processorFlushes.step h.conserves hp, h.accounts,
        h.exporterFlushes, h.handed.trans hhanded.symm, ?_⟩
      intro f hf
      exact (h.flushes f hf).mono P (List.prefix_refl _) (List.Subperm.refl _)
  | exporter a =>
      obtain ⟨e', ha, he, rfl⟩ := step_exporter hstep
      have M := Exporter.step_moves he ha
      refine ⟨h.conserves, h.processorFlushes, h.accounts.step he,
        h.exporterFlushes.step h.accounts he, M.offered.trans h.handed, ?_⟩
      intro f hf
      exact (h.flushes f hf).mono ⟨List.prefix_refl _, List.prefix_refl _⟩ M.befores M.outcomes
  | handOver throws => exact h.handOver hstep
  | flush =>
      cases hstep
      exact h.flush
  | flushNext i => exact h.flushNext hstep

/-! ### Every run -/

/-- In every run: a two-stage flush that completed has waited for every record
accepted before it, in that each is evicted, in a batch the exporter refused, in a
batch that is settled, or in a batch given up when an exception ended its drain.
What is evicted or refused is counted as dropped, and a drain that is given up as
a failed batch. The exporter's worker does not exit with a batch in its queue. -/
theorem completed_flush [DecidableEq ρ] (resource : ρ) (opts : BatchOptions)
    (maxRecordBytes maxTotalQueueBytes : Nat) (grouped : Bool) (config : OtlpExporterConfig)
    (actions : List (PipelineAction ρ)) (t : TracePipeline ρ)
    (hrun : run step (new resource opts maxRecordBytes maxTotalQueueBytes grouped config) actions =
      some t) :
    (∀ f ∈ t.flushes, f.pc = .returned .completed → f.before.Subperm
      (t.processor.ledger.evicted ++
        (t.exporter.ledger.refused.map Prod.fst ++ t.exporter.ledger.sent ++
          t.exporter.ledger.failed ++ t.exporter.ledger.abandoned).flatMap BatchHandle.scoped)) ∧
    (t.processor.ledger.evicted.map (·, DropReason.queueFull)).Sublist t.processor.ledger.lost ∧
    (∀ reason, t.processor.drops reason = t.processor.ledger.lost.countP (·.2 = reason)) ∧
    (∀ reason, reason = .postShutdown ∨ reason = .queueFull →
      t.exporter.diag.drops reason = Exporter.refusedSpans t.exporter.ledger.refused reason) ∧
    t.exporter.diag.batchesFailed = t.exporter.ledger.failed.length + t.exporter.ledger.throws ∧
    (t.exporter.worker = .exited → t.exporter.queue = []) := by
  have h : t.Inv := run_invariant (fun _ _ _ h hstep => h.step hstep) (Inv.new _ _ _ _ _ _) hrun
  refine ⟨?_, h.processorFlushes.evicted, h.conserves.counted, h.accounts.counted,
    h.accounts.failed, fun hexited => (h.accounts.leaving (Or.inr hexited)).2⟩
  intro f hf hcompleted
  have hok := h.flushes f hf
  unfold FlushOk at hok
  rw [hcompleted] at hok
  exact hok

/-- A span, and a flush called after it; the exporter's worker then does `drain`. -/
def flushOneSpan (drain : List (ExporterAction Nat)) : List (PipelineAction Nat) :=
  ([.processor (.enqueue {} default), .flush, .processor .collect, .handOver [false],
    .exporter (.notifyOne none), .processor .finish, .processor (.flushReturn 0), .flushNext 0,
    .exporter .workerCheck] : List (PipelineAction Nat)) ++ drain.map .exporter ++
  ([.exporter .relock, .exporter (.check 0), .flushNext 0] : List (PipelineAction Nat))

theorem completed_flush_flushOneSpan :
    ∃ t : TracePipeline Nat, run step (new 0 {} 4096 4096 true Exporter.smallConfig)
        (flushOneSpan [.sendAll [10] [{ success := true }], .settle [] ""]) = some t ∧
      ∃ f ∈ t.flushes, f.pc = .returned .completed ∧ f.before.length = 1 ∧
        f.before.Subperm (t.exporter.ledger.sent.flatMap BatchHandle.scoped) := by
  obtain ⟨t, hrun, f, hflushes, hpc, hlen, hevicted, hrefused, hfailed, habandoned⟩ :
      ∃ t : TracePipeline Nat, run step (new 0 {} 4096 4096 true Exporter.smallConfig)
          (flushOneSpan [.sendAll [10] [{ success := true }], .settle [] ""]) = some t ∧
        ∃ f, t.flushes = [f] ∧ f.pc = .returned .completed ∧ f.before.length = 1 ∧
          t.processor.ledger.evicted = [] ∧ t.exporter.ledger.refused = [] ∧
          t.exporter.ledger.failed = [] ∧ t.exporter.ledger.abandoned = [] :=
    ⟨_, rfl, _, rfl, rfl, rfl, rfl, rfl, rfl, rfl⟩
  have hmem : f ∈ t.flushes := by
    rw [hflushes]
    exact List.mem_singleton.mpr rfl
  have hall := (completed_flush 0 _ _ _ _ _ _ t hrun).1 f hmem hpc
  rw [hevicted, hrefused, hfailed, habandoned] at hall
  simp only [List.map_nil, List.nil_append, List.append_nil] at hall
  exact ⟨t, hrun, f, hmem, hpc, hlen, hall⟩

/-- `Encode` throws: the flush completes, and the span it waited for is neither
dropped nor in a batch that was sent and settled. -/
theorem flush_completes_over_exception :
    ∃ t : TracePipeline Nat, run step (new 0 {} 4096 4096 true Exporter.smallConfig)
        (flushOneSpan [.sendThrew "encode failed"]) = some t ∧
      ∃ f, t.flushes = [f] ∧ f.pc = .returned .completed ∧ f.before = [({}, default)] ∧
        t.processor.ledger.lost = [] ∧ t.exporter.ledger.refused = [] ∧
        t.exporter.ledger.sent = [] ∧ t.exporter.ledger.failed = [] :=
  ⟨_, rfl, _, rfl, rfl, rfl, rfl, rfl, rfl, rfl⟩

end TracePipeline

end Microtel.Pipeline
