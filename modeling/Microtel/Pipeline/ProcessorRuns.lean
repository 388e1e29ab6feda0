import Microtel.Pipeline.Processor

/-!
What holds in every state of `BatchSpanProcessor` reached by any interleaving of
its callers with its worker: every record offered is in exactly one place.
-/

namespace Microtel.Pipeline

open Machine

variable {ρ : Type}

/-- The records a handle carries, each with the scope it goes out under. -/
def BatchHandle.scoped (handle : BatchHandle ρ) : List (Scoped ρ) :=
  handle.records.map (·, handle.scope)

namespace Processor

/-! ### The groups of a batch -/

section Groups

variable {own : ρ}

def Group.scoped (group : Group ρ) : List (Scoped ρ) := group.records.map (·, group.scope)

def Group.key (group : Group ρ) : ρ × InstrumentationScope := (group.resource, group.scope)

def itemKey (own : ρ) (item : QueuedSpan ρ) : ρ × InstrumentationScope :=
  (owner own item.record, item.scope)

/-- Every record's group number names a group with the record's key. -/
def Assigned (own : ρ) (keys : List (ρ × InstrumentationScope)) :
    List (QueuedSpan ρ) → List Nat → Prop :=
  List.Forall₂ fun item g => keys[g]? = some (itemKey own item)

theorem Assigned.mono {keys more : List (ρ × InstrumentationScope)} {batch : List (QueuedSpan ρ)}
    {groupOf : List Nat} (h : Assigned own keys batch groupOf) :
    Assigned own (keys ++ more) batch groupOf := by
  apply List.Forall₂.imp _ h
  intro item g hg
  obtain ⟨hlt, -⟩ := List.getElem?_eq_some_iff.mp hg
  rw [List.getElem?_append_left hlt]
  exact hg

theorem modify_key (groups : List (Group ρ)) (g : Nat) (record : SpanRecord ρ) :
    (groups.modify g fun group =>
      { group with records := group.records ++ [record] }).map Group.key =
      groups.map Group.key := by
  apply List.ext_getElem?
  intro i
  rw [List.getElem?_map, List.getElem?_map, List.getElem?_modify]
  cases groups[i]? with
  | none => rfl
  | some group =>
      simp only [Option.map_eq_map, Option.map_some, Option.some.injEq]
      split <;> rfl

/-- A record moved to a group of its key is among the records of the groups. -/
theorem modify_scoped (groups : List (Group ρ)) (g : Nat) (item : QueuedSpan ρ)
    (hkey : (groups.map Group.key)[g]? = some (itemKey own item)) :
    ((groups.modify g fun group =>
        { group with records := group.records ++ [item.record] }).flatMap Group.scoped).Perm
      (item.scoped :: groups.flatMap Group.scoped) := by
  rw [List.getElem?_map, Option.map_eq_some_iff] at hkey
  obtain ⟨group, hgroup, hkey⟩ := hkey
  obtain ⟨hlt, rfl⟩ := List.getElem?_eq_some_iff.mp hgroup
  obtain ⟨l₁, group, l₂, hsplit, hlen, hmodified⟩ := List.exists_of_modify
    (fun group : Group ρ => { group with records := group.records ++ [item.record] }) hlt
  have hscope : group.scope = item.scope := by
    have hat : groups[g]? = some group := by
      rw [hsplit, ← hlen]
      simp
    rw [hgroup] at hat
    rw [Option.some.inj hat] at hkey
    exact (Prod.mk.inj hkey).2
  have hnew : Group.scoped { group with records := group.records ++ [item.record] } =
      group.scoped ++ [item.scoped] := by
    simp [Group.scoped, QueuedSpan.scoped, hscope]
  rw [hmodified, hsplit, List.flatMap_append, List.flatMap_append, List.flatMap_cons,
    List.flatMap_cons, hnew]
  have hmove : (l₁.flatMap Group.scoped ++ group.scoped ++ [item.scoped] ++
      l₂.flatMap Group.scoped).Perm
      (item.scoped :: (l₁.flatMap Group.scoped ++ group.scoped ++ l₂.flatMap Group.scoped)) := by
    rw [List.append_assoc, List.singleton_append]
    exact List.perm_middle
  simpa [List.append_assoc] using hmove

theorem fillGroups_spec (batch : List (QueuedSpan ρ)) (groupOf : List Nat) (groups : List (Group ρ))
    (hassigned : Assigned own (groups.map Group.key) batch groupOf) :
    ((fillGroups batch groupOf groups).flatMap Group.scoped).Perm
      (batch.map QueuedSpan.scoped ++ groups.flatMap Group.scoped) := by
  induction batch generalizing groupOf groups with
  | nil =>
      cases hassigned
      simp [fillGroups]
  | cons item batch ih =>
      cases hassigned with
      | @cons _ g _ groupOf hkey hrest =>
          unfold fillGroups
          rw [← modify_key groups g item.record] at hrest
          apply (ih groupOf _ hrest).trans
          rw [List.map_cons, List.cons_append]
          apply ((modify_scoped groups g item hkey).append_left _).trans
          exact List.perm_middle

variable [DecidableEq ρ]

theorem sameGroup_iff {item : QueuedSpan ρ} {group : Group ρ} :
    sameGroup own item group = true ↔ group.key = itemKey own item := by
  simp only [sameGroup, decide_eq_true_eq, Group.key, itemKey, Prod.mk.injEq]
  constructor
  · rintro ⟨hres, hname, hversion⟩
    refine ⟨hres, ?_⟩
    cases hg : group.scope
    cases hi : item.scope
    simp_all
  · rintro ⟨hres, hscope⟩
    simp [hres, hscope]

theorem findGroups_spec (batch done : List (QueuedSpan ρ)) (groups : List (Group ρ))
    (groupOf : List Nat) (hassigned : Assigned own (groups.map Group.key) done groupOf)
    (hempty : ∀ group ∈ groups, group.records = []) :
    let result := findGroups own batch groups groupOf
    Assigned own (result.1.map Group.key) (done ++ batch) result.2 ∧
      ∀ group ∈ result.1, group.records = [] := by
  induction batch generalizing done groups groupOf with
  | nil =>
      rw [List.append_nil]
      exact ⟨hassigned, hempty⟩
  | cons item batch ih =>
      rw [List.append_cons]
      unfold findGroups
      cases hfind : groups.findIdx? (sameGroup own item) with
      | some g =>
          obtain ⟨hlt, hsame, -⟩ := List.findIdx?_eq_some_iff_getElem.mp hfind
          apply ih (done ++ [item]) groups (groupOf ++ [g]) _ hempty
          apply List.rel_append hassigned
          apply List.Forall₂.cons _ List.Forall₂.nil
          rw [List.getElem?_map, List.getElem?_eq_getElem hlt, Option.map_some,
            sameGroup_iff.mp hsame]
      | none =>
          apply ih
          · rw [List.map_append]
            apply List.rel_append hassigned.mono
            apply List.Forall₂.cons _ List.Forall₂.nil
            simp [Group.key, itemKey]
          · intro group hgroup
            rcases List.mem_append.mp hgroup with hgroup | hgroup
            · exact hempty group hgroup
            · rw [List.mem_singleton.mp hgroup]

/-- The handles of a batch carry its records, each under its own scope. -/
theorem batchHandles_perm (own : ρ) (batch : List (QueuedSpan ρ)) :
    ((batchHandles own batch).flatMap BatchHandle.scoped).Perm (batch.map QueuedSpan.scoped) := by
  obtain ⟨hassigned, hempty⟩ :=
    findGroups_spec batch [] [] [] (List.Forall₂.nil : Assigned own [] [] []) (by simp)
  have hfill := fillGroups_spec batch _ _ hassigned
  have hnone : (findGroups own batch [] []).1.flatMap Group.scoped = [] := by
    apply List.flatMap_eq_nil_iff.mpr
    intro group hgroup
    simp [Group.scoped, hempty group hgroup]
  rw [hnone, List.append_nil] at hfill
  unfold batchHandles
  rw [List.flatMap_map]
  exact hfill

end Groups

/-! ### Making room -/

def totalBytes (queue : List (QueuedSpan ρ)) : Nat := (queue.map QueuedSpan.bytes).sum

@[simp] theorem totalBytes_cons (q : QueuedSpan ρ) (queue : List (QueuedSpan ρ)) :
    totalBytes (q :: queue) = q.bytes + totalBytes queue := by
  simp [totalBytes]

@[simp] theorem totalBytes_append (q₁ q₂ : List (QueuedSpan ρ)) :
    totalBytes (q₁ ++ q₂) = totalBytes q₁ + totalBytes q₂ := by
  simp [totalBytes]

/-- `MakeRoomFor` evicts from the front, keeps the byte count exact and counts
one `QueueFull` for each record lost, the incoming one included. -/
theorem makeRoomFor_spec (opts : BatchOptions) (maxTotal recordBytes : Nat)
    (queue : List (QueuedSpan ρ)) (queueBytes : Int) (drops : DropReason → Nat)
    (hbytes : queueBytes = totalBytes queue) :
    let room := makeRoomFor opts maxTotal recordBytes queue queueBytes drops
    queue = room.evicted ++ room.queue ∧ room.queueBytes = totalBytes room.queue ∧
      (∀ reason, room.drops reason =
        drops reason + if reason = .queueFull then
          room.evicted.length + (if room.fits then 0 else 1) else 0) ∧
      (room.fits = true → room.queue.length < opts.maxQueueSize ∧
        room.queueBytes + recordBytes ≤ maxTotal) := by
  induction queue generalizing queueBytes drops with
  | nil =>
      unfold makeRoomFor
      split
      · split
        · exact ⟨rfl, hbytes, fun reason => recordDropped_apply _ _ _ _, by simp⟩
        · exact ⟨rfl, hbytes, fun reason => recordDropped_apply _ _ _ _, by simp⟩
      · next hroom =>
        push Not at hroom
        exact ⟨rfl, hbytes, by simp, fun _ => hroom⟩
  | cons front rest ih =>
      unfold makeRoomFor
      split
      · split
        · exact ⟨rfl, hbytes, fun reason => recordDropped_apply _ _ _ _, by simp⟩
        · have hrest : queueBytes - front.bytes = totalBytes rest := by
            rw [hbytes, totalBytes_cons]
            push_cast
            ring
          obtain ⟨hsplit, hleft, hdrops, hfits⟩ :=
            ih (queueBytes - front.bytes) (recordDropped drops .queueFull) hrest
          refine ⟨congrArg (front :: ·) hsplit, hleft, ?_, hfits⟩
          intro reason
          dsimp only
          rw [hdrops reason, recordDropped_apply]
          split
          · simp only [List.length_cons]
            omega
          · rfl
      · next hroom =>
        push Not at hroom
        exact ⟨rfl, hbytes, by simp, fun _ => hroom⟩

/-! ### The invariant -/

/-- The records of the batch the worker holds, less those handed over. -/
def held (p : Processor ρ) : List (Scoped ρ) :=
  match p.worker with
  | .exporting handles _ _ => handles.flatMap BatchHandle.scoped
  | _ => []

/-- Every place a record can be in. -/
def places (p : Processor ρ) : List (Scoped ρ) :=
  p.queue.map QueuedSpan.scoped ++ p.held ++ p.ledger.handed.flatMap BatchHandle.scoped ++
    p.ledger.lost.map Prod.fst

/-- The reasons a record can be lost for. -/
def LossReason (reason : DropReason) : Prop :=
  reason = .postShutdown ∨ reason = .recordTooLarge ∨ reason = .queueFull

structure Conserves (p : Processor ρ) : Prop where
  places : p.ledger.offered.Perm p.places
  counted : ∀ reason, p.drops reason = p.ledger.lost.countP (·.2 = reason)
  reasons : ∀ l ∈ p.ledger.lost, LossReason l.2
  order : p.ledger.accepted = p.ledger.departed ++ p.queue.map QueuedSpan.scoped
  bytes : p.queueBytes = totalBytes p.queue
  /-- The worker leaves its loop only with the queue shut and empty. -/
  leaving : (p.worker = .exited ∨ ∃ handles seq, p.worker = .exporting handles seq true) →
    p.shutdown = true ∧ p.queue = []

theorem Conserves.new (resource : ρ) (opts : BatchOptions) (maxRecordBytes maxTotalQueueBytes : Nat)
    (grouped : Bool) :
    (new resource opts maxRecordBytes maxTotalQueueBytes grouped).Conserves where
  places := List.Perm.nil
  counted _ := rfl
  reasons := by simp [Processor.new]
  order := rfl
  bytes := rfl
  leaving := by simp [Processor.new]

variable {p p' : Processor ρ}

theorem countP_reason (records : List (Scoped ρ)) (lost reason : DropReason) :
    (records.map (·, lost)).countP (·.2 = reason) =
      if reason = lost then records.length else 0 := by
  rw [List.countP_map]
  by_cases h : reason = lost
  · subst h
    simp [Function.comp_def]
  · have hne : ¬ lost = reason := fun heq => h heq.symm
    simp [Function.comp_def, h, hne]

theorem map_fst_pair (records : List (Scoped ρ)) (reason : DropReason) :
    (records.map (·, reason)).map Prod.fst = records := by
  simp [Function.comp_def]

theorem reasons_append (h : p.Conserves) (records : List (Scoped ρ)) {reason : DropReason}
    (hreason : LossReason reason) :
    ∀ l ∈ p.ledger.lost ++ records.map (·, reason), LossReason l.2 := by
  intro l hl
  rcases List.mem_append.mp hl with hl | hl
  · exact h.reasons l hl
  · obtain ⟨r, -, rfl⟩ := List.mem_map.mp hl
    exact hreason

/-- A record counted and lost on the way in. -/
theorem Conserves.refuse (h : p.Conserves) (record : Scoped ρ) {reason : DropReason}
    (hreason : LossReason reason) :
    ({ p with drops := recordDropped p.drops reason }.refuse record reason).Conserves where
  places := by
    change (p.ledger.offered ++ [record]).Perm (_ ++ List.map Prod.fst (p.ledger.lost ++ _))
    rw [List.map_append, ← List.append_assoc]
    exact h.places.append_right _
  counted reason' := by
    change recordDropped p.drops reason 1 reason' =
      (p.ledger.lost ++ [record].map (·, reason)).countP _
    rw [List.countP_append, countP_reason, recordDropped_apply, h.counted]
    rfl
  reasons := reasons_append h [record] hreason
  order := h.order
  bytes := h.bytes
  leaving := h.leaving

/-- `Enqueue` keeps every record in one place. -/
theorem Conserves.enqueue (h : p.Conserves) (record : SpanRecord ρ) (scope : InstrumentationScope) :
    (p.enqueue record scope).1.Conserves := by
  unfold Processor.enqueue
  dsimp only
  split
  · exact h.refuse (record, scope) (Or.inl rfl)
  split
  · exact h.refuse (record, scope) (Or.inr (Or.inl rfl))
  next hopen _ =>
  have hroom := makeRoomFor_spec p.opts p.maxTotalQueueBytes (estimateRecordBytes record) p.queue
    p.queueBytes p.drops h.bytes
  generalize makeRoomFor p.opts p.maxTotalQueueBytes (estimateRecordBytes record) p.queue
    p.queueBytes p.drops = room at hroom ⊢
  obtain ⟨hqueue, hbytes, hdrops, -⟩ := hroom
  have hbefore : p.ledger.offered.Perm
      (room.queue.map QueuedSpan.scoped ++ p.held ++ p.ledger.handed.flatMap BatchHandle.scoped ++
        (p.ledger.lost.map Prod.fst ++ room.evicted.map QueuedSpan.scoped)) := by
    apply h.places.trans
    unfold Processor.places
    rw [hqueue, List.map_append]
    simp only [List.append_assoc]
    exact List.perm_append_comm.trans (by simp)
  have horder : p.ledger.accepted = p.ledger.departed ++ room.evicted.map QueuedSpan.scoped ++
      room.queue.map QueuedSpan.scoped := by
    rw [h.order, hqueue, List.map_append, List.append_assoc]
  have hclosed : ¬ (p.worker = .exited ∨ ∃ handles seq, p.worker = .exporting handles seq true) :=
    fun hleaving => hopen (h.leaving hleaving).1
  split
  · next hfits =>
    refine ⟨?_, ?_, ?_, ?_, ?_, fun hleaving => absurd hleaving hclosed⟩
    · change (p.ledger.offered ++ [(record, scope)]).Perm
        (List.map QueuedSpan.scoped (room.queue ++ [_]) ++ p.held ++ _ ++
          List.map Prod.fst (p.ledger.lost ++ _))
      rw [List.map_append, List.map_append, map_fst_pair]
      apply (hbefore.append_right _).trans
      simp only [List.append_assoc]
      apply List.Perm.append_left
      simp only [← List.append_assoc]
      exact List.perm_append_comm
    · intro reason
      change room.drops reason = (p.ledger.lost ++ _).countP _
      rw [hdrops, List.countP_append, countP_reason, h.counted, List.length_map, if_pos hfits]
      rfl
    · exact reasons_append h _ (Or.inr (Or.inr rfl))
    · change p.ledger.accepted ++ [(record, scope)] =
        _ ++ List.map QueuedSpan.scoped (room.queue ++ [_])
      rw [List.map_append, horder, List.append_assoc]
      rfl
    · change room.queueBytes + estimateRecordBytes record = totalBytes (room.queue ++ [_])
      rw [totalBytes_append, hbytes]
      simp [totalBytes]
  · next hfull =>
    refine ⟨?_, ?_, ?_, horder, hbytes, fun hleaving => absurd hleaving hclosed⟩
    · change (p.ledger.offered ++ [(record, scope)]).Perm
        (List.map QueuedSpan.scoped room.queue ++ p.held ++ _ ++
          List.map Prod.fst (p.ledger.lost ++ _ ++ _))
      rw [List.map_append, List.map_append, map_fst_pair, ← List.append_assoc]
      exact hbefore.append_right _
    · intro reason
      change room.drops reason =
        (p.ledger.lost ++ _ ++ [(record, scope)].map (·, DropReason.queueFull)).countP _
      rw [hdrops, List.countP_append, List.countP_append, countP_reason, countP_reason, h.counted,
        List.length_map, if_neg hfull]
      split
      · simp [Nat.add_assoc]
      · rfl
    · intro l hl
      rcases List.mem_append.mp hl with hl | hl
      · exact reasons_append h _ (Or.inr (Or.inr rfl)) l hl
      · rw [List.mem_singleton.mp hl]
        exact Or.inr (Or.inr rfl)
theorem foldl_bytes (batch : List (QueuedSpan ρ)) (total : Int) :
    batch.foldl (fun (total : Int) q => total - q.bytes) total = total - totalBytes batch := by
  induction batch generalizing total with
  | nil => simp [totalBytes]
  | cons q batch ih =>
      rw [List.foldl_cons, ih, totalBytes_cons]
      push_cast
      ring

section Worker

variable [DecidableEq ρ]

/-- `WaitAndCollect` moves a front part of the queue to the worker. -/
theorem Conserves.collect (h : p.Conserves) (hstep : p.collect = some p') : p'.Conserves := by
  unfold Processor.collect at hstep
  split at hstep
  · next hworker =>
    dsimp only at hstep
    generalize min p.queue.length p.opts.maxExportBatchSize = count at hstep
    have hqueue : p.queue = p.queue.take count ++ p.queue.drop count :=
      (List.take_append_drop _ _).symm
    have hheld : p.held = [] := by
      unfold Processor.held
      rw [hworker]
    cases hstep
    refine ⟨?_, h.counted, h.reasons, ?_, ?_, ?_⟩
    · change p.ledger.offered.Perm (_ ++ (batchHandles _ _).flatMap _ ++ _ ++ _)
      apply h.places.trans
      unfold Processor.places
      rw [hheld, List.append_nil]
      nth_rewrite 1 [hqueue]
      rw [List.map_append]
      simp only [List.append_assoc]
      rw [← List.append_assoc, ← List.append_assoc (List.map _ (List.drop _ _))]
      apply List.Perm.append_right
      apply List.perm_append_comm.trans
      exact (batchHandles_perm p.resource _).symm.append_left _
    · change p.ledger.accepted = _ ++ List.map _ (List.take _ _) ++ List.map _ (List.drop _ _)
      rw [h.order, List.append_assoc, ← List.map_append, ← hqueue]
    · change List.foldl _ p.queueBytes (List.take _ _) = (totalBytes (List.drop _ _) : Int)
      have htotal : totalBytes p.queue =
          totalBytes (p.queue.take count) + totalBytes (p.queue.drop count) := by
        rw [← totalBytes_append, ← hqueue]
      rw [foldl_bytes, h.bytes, htotal]
      push_cast
      ring
    · rintro (hexit | ⟨handles, seq, hexporting⟩)
      · cases hexit
      · have hdone := (Worker.exporting.inj hexporting).2.2
        rw [Bool.and_eq_true, List.isEmpty_iff] at hdone
        exact hdone
  · cases hstep

end Worker

/-- A call into the exporter moves its handles from the worker to the exporter. -/
theorem Conserves.handOver (h : p.Conserves) (hstep : p.handOver = some p') : p'.Conserves := by
  unfold Processor.handOver at hstep
  split at hstep
  · next handle handles seq done hworker =>
    have hheld : p.held = (handle :: handles).flatMap BatchHandle.scoped := by
      unfold Processor.held
      rw [hworker]
    have hnext : p.nextCall = if p.grouped then handle :: handles else [handle] := by
      unfold Processor.nextCall
      rw [hworker]
      rfl
    cases hstep
    refine ⟨?_, h.counted, h.reasons, h.order, h.bytes, ?_⟩
    · change p.ledger.offered.Perm (_ ++ List.flatMap _ _ ++ (p.ledger.handed ++ _).flatMap _ ++ _)
      apply h.places.trans
      unfold Processor.places
      rw [hheld, hnext, List.flatMap_append]
      apply List.Perm.append_right
      simp only [List.append_assoc]
      apply List.Perm.append_left
      split
      · rw [List.flatMap_nil, List.nil_append]
        exact List.perm_append_comm
      · rw [List.flatMap_cons, List.flatMap_singleton, List.append_assoc]
        exact List.perm_append_comm.trans (by simp)
    · rintro (hexit | ⟨handles', seq', hexporting⟩)
      · cases hexit
      · apply h.leaving
        refine Or.inr ⟨handle :: handles, seq, ?_⟩
        rw [hworker, (Worker.exporting.inj hexporting).2.2]
  · cases hstep

theorem Conserves.finish (h : p.Conserves) (hstep : p.finish = some p') : p'.Conserves := by
  unfold Processor.finish at hstep
  split at hstep
  · next seq done hworker =>
    have hheld : p.held = [] := by
      unfold Processor.held
      rw [hworker]
      rfl
    cases hstep
    refine ⟨?_, h.counted, h.reasons, h.order, h.bytes, ?_⟩
    · have hempty : Processor.held { p with
          flushDoneSeq := if 0 < seq then seq else p.flushDoneSeq
          worker := if done then .exited else .waiting } = p.held := by
        rw [hheld]
        unfold Processor.held
        cases done <;> rfl
      unfold Processor.places
      rw [hempty]
      exact h.places
    · intro hleaving
      cases done with
      | true => exact h.leaving (Or.inr ⟨_, _, hworker⟩)
      | false =>
          rcases hleaving with hexit | ⟨handles, seq', hexporting⟩
          · cases hexit
          · cases hexporting
  · cases hstep
theorem Conserves.flushReturn (h : p.Conserves) {call : Nat}
    (hstep : p.flushReturn call = some p') :
    p'.Conserves := by
  unfold Processor.flushReturn at hstep
  split at hstep
  · cases hstep
  · split at hstep
    · cases hstep
    · cases hstep
      exact ⟨h.places, h.counted, h.reasons, h.order, h.bytes, h.leaving⟩

theorem Conserves.forceFlush (h : p.Conserves) : p.forceFlush.Conserves := by
  unfold Processor.forceFlush
  split
  · exact h
  · exact ⟨h.places, h.counted, h.reasons, h.order, h.bytes, h.leaving⟩

theorem Conserves.shutDown (h : p.Conserves) : p.shutDown.Conserves :=
  ⟨h.places, h.counted, h.reasons, h.order, h.bytes, fun hleaving => ⟨rfl, (h.leaving hleaving).2⟩⟩

/-! ### Every run -/

/-- Both caps hold after an `Enqueue` that returned `true`. -/
theorem enqueue_bounded (h : p.Conserves) {record : SpanRecord ρ} {scope : InstrumentationScope}
    (htrue : (p.enqueue record scope).2 = true) :
    (p.enqueue record scope).1.queue.length ≤ p.opts.maxQueueSize ∧
      (p.enqueue record scope).1.queueBytes ≤ p.maxTotalQueueBytes := by
  unfold Processor.enqueue at htrue ⊢
  dsimp only at htrue ⊢
  split at htrue
  · cases htrue
  split at htrue
  · cases htrue
  next hopen hsmall =>
  rw [if_neg hopen, if_neg hsmall]
  have hroom := makeRoomFor_spec p.opts p.maxTotalQueueBytes (estimateRecordBytes record) p.queue
    p.queueBytes p.drops h.bytes
  generalize makeRoomFor p.opts p.maxTotalQueueBytes (estimateRecordBytes record) p.queue
    p.queueBytes p.drops = room at hroom htrue ⊢
  obtain ⟨-, -, -, hfits⟩ := hroom
  split at htrue
  · next hroom =>
    obtain ⟨hlen, hbytes⟩ := hfits hroom
    rw [if_pos hroom]
    refine ⟨?_, hbytes⟩
    simp only [List.length_append, List.length_singleton]
    omega
  · cases htrue

theorem enqueue_maxTotal (p : Processor ρ) (record : SpanRecord ρ) (scope : InstrumentationScope) :
    (p.enqueue record scope).1.maxTotalQueueBytes = p.maxTotalQueueBytes := by
  unfold Processor.enqueue
  dsimp only
  split
  · rfl
  split
  · rfl
  split
  · rfl
  · rfl

/-- Every lost record is counted under one of the three reasons. -/
theorem Conserves.total (h : p.Conserves) :
    p.drops .postShutdown + p.drops .recordTooLarge + p.drops .queueFull =
      p.ledger.lost.length := by
  rw [h.counted, h.counted, h.counted]
  have hreasons := h.reasons
  generalize p.ledger.lost = lost at hreasons ⊢
  induction lost with
  | nil => rfl
  | cons l lost ih =>
      have hl := hreasons l (by simp)
      have hrest := ih fun l' hl' => hreasons l' (by simp [hl'])
      simp only [List.countP_cons, List.length_cons]
      rcases hl with hl | hl | hl
      · simp [hl]
        omega
      · simp [hl]
        omega
      · simp [hl]
        omega

section Runs

variable [DecidableEq ρ]

/-- Step lemma. -/
theorem Conserves.step (h : p.Conserves) {a : ProcessorAction ρ} (hstep : p.step a = some p') :
    p'.Conserves := by
  cases a with
  | enqueue record scope =>
      cases hstep
      exact h.enqueue record scope
  | setOptions opts =>
      cases hstep
      exact ⟨h.places, h.counted, h.reasons, h.order, h.bytes, h.leaving⟩
  | forceFlush =>
      cases hstep
      exact h.forceFlush
  | flushReturn call => exact h.flushReturn hstep
  | shutdown =>
      cases hstep
      exact h.shutDown
  | collect => exact h.collect hstep
  | handOver => exact h.handOver hstep
  | finish => exact h.finish hstep

/-- The byte cap is the constructor's. -/
theorem step_maxTotal {a : ProcessorAction ρ} (hstep : p.step a = some p') :
    p'.maxTotalQueueBytes = p.maxTotalQueueBytes := by
  cases a with
  | enqueue record scope =>
      cases hstep
      exact enqueue_maxTotal p record scope
  | setOptions opts =>
      cases hstep
      rfl
  | forceFlush =>
      cases hstep
      unfold Processor.forceFlush
      split
      · rfl
      · rfl
  | flushReturn call =>
      simp only [Processor.step, Processor.flushReturn] at hstep
      split at hstep
      · cases hstep
      split at hstep
      · cases hstep
      cases hstep
      rfl
  | shutdown =>
      cases hstep
      rfl
  | collect =>
      simp only [Processor.step, Processor.collect] at hstep
      split at hstep
      · cases hstep
        rfl
      · cases hstep
  | handOver =>
      simp only [Processor.step, Processor.handOver] at hstep
      split at hstep
      · cases hstep
        rfl
      · cases hstep
  | finish =>
      simp only [Processor.step, Processor.finish] at hstep
      split at hstep
      · cases hstep
        rfl
      · cases hstep

/-- In every state reached, every record ever offered is queued, held by the
worker, handed to the exporter or lost and counted, and in one of these only. -/
theorem spans_conserved (resource : ρ) (opts : BatchOptions)
    (maxRecordBytes maxTotalQueueBytes : Nat) (grouped : Bool) (actions : List (ProcessorAction ρ))
    (p : Processor ρ)
    (hrun : run step (new resource opts maxRecordBytes maxTotalQueueBytes grouped) actions =
      some p) :
    p.ledger.offered.Perm
      (p.queue.map QueuedSpan.scoped ++ p.held ++ p.ledger.handed.flatMap BatchHandle.scoped ++
        p.ledger.lost.map Prod.fst) ∧
    (∀ reason, p.drops reason = p.ledger.lost.countP (·.2 = reason)) ∧
    p.drops .postShutdown + p.drops .recordTooLarge + p.drops .queueFull = p.ledger.lost.length ∧
    p.ledger.accepted = p.ledger.departed ++ p.queue.map QueuedSpan.scoped ∧
    p.queueBytes = totalBytes p.queue ∧
    (∀ record scope, (p.enqueue record scope).2 = true →
      (p.enqueue record scope).1.queue.length ≤ p.opts.maxQueueSize ∧
      (p.enqueue record scope).1.queueBytes ≤ maxTotalQueueBytes) ∧
    (p.worker = .exited → p.queue = []) := by
  have h : p.Conserves :=
    run_invariant (fun _ _ _ h hstep => h.step hstep) (Conserves.new _ _ _ _ _) hrun
  have hmax : p.maxTotalQueueBytes = maxTotalQueueBytes :=
    run_invariant (fun _ _ _ hmax hstep => (step_maxTotal hstep).trans hmax)
      (show (new resource opts maxRecordBytes maxTotalQueueBytes grouped).maxTotalQueueBytes = _
        from rfl) hrun
  refine ⟨h.places, h.counted, h.total, h.order, h.bytes, ?_, ?_⟩
  · intro record scope htrue
    rw [← hmax]
    exact enqueue_bounded h htrue
  · intro hexited
    exact (h.leaving (Or.inl hexited)).2

/-- Two records into a queue of one, a flush and a shutdown. -/
def flushThenShutdown : List (ProcessorAction Nat) :=
  [.enqueue {} default, .enqueue { name := [1] } default, .forceFlush, .collect, .handOver,
    .shutdown, .enqueue {} default, .finish, .flushReturn 0, .collect, .finish]

theorem spans_conserved_flushThenShutdown :
    ∃ p : Processor Nat,
      run step (new 0 { maxQueueSize := 1, dropPolicy := .dropOldest } 4096 4096 true)
        flushThenShutdown = some p ∧
      p.worker = .exited ∧ p.ledger.lost.length = 2 ∧ p.queue = [] := by
  obtain ⟨p, hrun, hexited, hlost⟩ : ∃ p : Processor Nat,
      run step (new 0 { maxQueueSize := 1, dropPolicy := .dropOldest } 4096 4096 true)
        flushThenShutdown = some p ∧ p.worker = .exited ∧ p.ledger.lost.length = 2 :=
    ⟨_, rfl, rfl, rfl⟩
  obtain ⟨-, -, -, -, -, -, hempty⟩ := spans_conserved 0 _ _ _ _ _ p hrun
  exact ⟨p, hrun, hexited, hlost, hempty hexited⟩

end Runs
end Processor

end Microtel.Pipeline
