import Microtel.Lib.Sweeps
import Microtel.Sdk.SamplerWalk

/-!
Any number of `SetSamplerRatio` calls on one tree. Every description is fresh or has its
publication still before it, in any order of the steps. The ratio samplers agree where
no call overtakes another between two of them.
-/

namespace Microtel.Sdk.SamplerTree

open Concentrator Machine

variable {format : Ratio → Bytes} {t p : Handle} {ratios : Nat → Ratio} {s s' : Samplers}

/-! ### Renderings -/

/-- The descriptions of the objects that do not compose. -/
structure Leaves (format : Ratio → Bytes) (t : Handle) (ratios : Nat → Ratio)
    (descriptions : Nat → Bytes) : Prop where
  ratio : ∀ id, .traceIdRatio id ∈ t.nodes → descriptions id = ratioDescription format (ratios id)
  other : ∀ id description, .other id description ∈ t.nodes → descriptions id = description

theorem compose_eq {descriptions : Nat → Bytes} {f : Handle → Bytes}
    (hnull : f .null = ascii "<null>")
    (h : ∀ c ∈ p.children, descriptions c.id = f c) : p.compose descriptions = p.composeWith f := by
  refine Handle.composeWith_congr ?_ ?_
  · rw [hnull]
    rfl
  · intro c hc
    unfold Handle.descriptionOf
    rw [Handle.not_null_of_mem_children hc]
    exact h c hc

theorem compose_congr {d d' : Nat → Bytes} (h : ∀ c ∈ p.children, d c.id = d' c.id) :
    p.compose d = p.compose d' := by
  refine compose_eq rfl ?_
  intro c hc
  unfold Handle.descriptionOf
  rw [Handle.not_null_of_mem_children hc]
  exact h c hc

/-- Descriptions that are all composed from each other render the tree. -/
theorem Leaves.rendering {descriptions : Nat → Bytes} (h : Leaves format t ratios descriptions)
    (hfresh : ∀ p ∈ t.nodes, p.isComposite = true → descriptions p.id = p.compose descriptions)
    {x : Handle} (hx : x ∈ t.nodes) : descriptions x.id = x.rendering format ratios := by
  induction x using Handle.children_induction with
  | hstep x ih =>
      cases hcomposite : x.isComposite with
      | true =>
          rw [hfresh x hx hcomposite, Handle.rendering_eq format ratios hcomposite]
          refine compose_eq rfl ?_
          intro c hc
          exact ih c hc (Handle.children_mem_nodes hx hc)
      | false =>
          cases x with
          | null => cases Handle.mem_nodes_not_null hx
          | traceIdRatio id => exact h.ratio id hx
          | other id description => exact h.other id description hx
          | _ => cases hcomposite

theorem start_descriptions (format : Ratio → Bytes) (ratios : Nat → Ratio) (hd : t.Distinct)
    {x : Handle} (hx : x ∈ t.nodes) :
    (Samplers.start format t ratios).descriptions x.id = x.rendering format ratios := by
  unfold Samplers.start
  dsimp only
  rw [KeyedList.find_of_mem hd hx]
  rfl

theorem start_leaves (format : Ratio → Bytes) (ratios : Nat → Ratio) (hd : t.Distinct) :
    Leaves format t ratios (Samplers.start format t ratios).descriptions where
  ratio _ hmem := start_descriptions format ratios hd hmem
  other _ _ hmem := start_descriptions format ratios hd hmem

theorem start_fresh (format : Ratio → Bytes) (ratios : Nat → Ratio) (hd : t.Distinct)
    (hp : p ∈ t.nodes) (hcomposite : p.isComposite = true) :
    (Samplers.start format t ratios).descriptions p.id =
      p.compose (Samplers.start format t ratios).descriptions := by
  rw [start_descriptions format ratios hd hp, Handle.rendering_eq format ratios hcomposite]
  symm
  refine compose_eq rfl ?_
  intro c hc
  exact start_descriptions format ratios hd (Handle.children_mem_nodes hp hc)

/-! ### What a step writes -/

theorem update_descriptions (s : Samplers) (id : Nat) (ratio : Ratio) {i : Nat} (hne : i ≠ id) :
    (s.update format id ratio).descriptions i = s.descriptions i := by
  unfold Samplers.update
  split
  · rfl
  · exact Function.update_of_ne hne _ _

theorem perform_descriptions (s : Samplers) (k : Nat) (a : Step) {i : Nat} (hne : i ≠ a.node.id) :
    (s.perform format k a).descriptions i = s.descriptions i := by
  cases a with
  | update id ratio => exact update_descriptions s id ratio hne
  | publish h => exact Function.update_of_ne hne _ _

theorem update_ratios (s : Samplers) (id : Nat) (ratio : Ratio) :
    ratio.same ((s.update format id ratio).ratios id) = true ∧
      ∀ i, i ≠ id → (s.update format id ratio).ratios i = s.ratios i := by
  unfold Samplers.update
  split
  · next hsame => exact ⟨hsame, fun i hne => rfl⟩
  · refine ⟨?_, fun i hne => Function.update_of_ne hne _ _⟩
    dsimp only
    rw [Function.update_self]
    exact Ratio.same_refl ratio

theorem update_self (s : Samplers) (id : Nat) (ratio : Ratio)
    (h : s.descriptions id = ratioDescription format (s.ratios id)) :
    (s.update format id ratio).descriptions id =
      ratioDescription format ((s.update format id ratio).ratios id) := by
  unfold Samplers.update
  split
  · exact h
  · dsimp only
    rw [Function.update_self, Function.update_self]

theorem update_thresholds (s : Samplers) (id : Nat) (ratio : Ratio)
    (h : ∀ i, s.thresholds i = computeThreshold (s.ratios i)) (i : Nat) :
    (s.update format id ratio).thresholds i =
      computeThreshold ((s.update format id ratio).ratios i) := by
  unfold Samplers.update
  split
  · exact h i
  · dsimp only
    by_cases hi : i = id
    · rw [hi, Function.update_self, Function.update_self]
    · rw [Function.update_of_ne hi, Function.update_of_ne hi]
      exact h i

/-! ### The invariant -/

/-- A call that accepted its ratio is on the walk of the tree, the others are through. -/
structure Sound (t : Handle) (c : Call) : Prop where
  walk : ∀ r, c.ratio = some r → c.todo <:+ t.steps r
  through : c.ratio = none → c.todo = []
  applied : ∀ r, c.ratio = some r → (c.answer = .completed ↔ t.ratioIds ≠ [])
  refused : ∀ r, c.ratio = some r → (c.answer = .unsupported ↔ t.ratioIds = [])
  rejected : c.ratio = none → c.answer = .alreadyShutDown ∨ c.answer = .invalidArgument

theorem sound_setSamplerRatio (t : Handle) (shutDown : Bool) (bits : UInt64) :
    Sound t (setSamplerRatio t shutDown bits) := by
  unfold setSamplerRatio
  split
  · exact ⟨by simp, by simp, by simp, by simp, fun _ => .inl rfl⟩
  · split
    · next hunit =>
      have happlied : t.applied ⟨bits, hunit⟩ = true ↔ t.ratioIds ≠ [] := Handle.applied_iff
      have hsteps : ∀ {steps : List Step} {answer : Bool},
          t.trySetRatio ⟨bits, hunit⟩ = (steps, answer) →
            steps = t.steps ⟨bits, hunit⟩ ∧ answer = t.applied ⟨bits, hunit⟩ := by
        intro steps answer heq
        rw [Handle.steps, Handle.applied, heq]
        exact ⟨rfl, rfl⟩
      split
      · next steps heq =>
        obtain ⟨rfl, htrue⟩ := hsteps heq
        have hsome := happlied.mp htrue.symm
        refine ⟨?_, by simp, ?_, ?_, by simp⟩
        · intro r hr
          cases hr
          exact List.suffix_refl _
        · exact fun _ _ => iff_of_true rfl hsome
        · exact fun _ _ => iff_of_false (by simp) hsome
      · next steps heq =>
        obtain ⟨rfl, hfalse⟩ := hsteps heq
        have hnone : t.ratioIds = [] := by
          by_contra hsome
          rw [happlied.mpr hsome] at hfalse
          cases hfalse
        refine ⟨?_, by simp, ?_, ?_, by simp⟩
        · intro r hr
          cases hr
          exact List.suffix_refl _
        · exact fun _ _ => iff_of_false (by simp) fun hsome => hsome hnone
        · exact fun _ _ => iff_of_true rfl hnone
    · exact ⟨by simp, by simp, by simp, by simp, fun _ => .inr rfl⟩

theorem Sound.rest {ratio : Option Ratio} {a : Step} {rest : List Step} {answer : Status}
    (h : Sound t ⟨ratio, a :: rest, answer⟩) : Sound t ⟨ratio, rest, answer⟩ where
  walk r hr := (List.suffix_cons a rest).trans (h.walk r hr)
  through hnone := by cases h.through hnone
  applied := h.applied
  refused := h.refused
  rejected := h.rejected

/-- The ratio and the walk of a call that has a step to take. -/
theorem Sound.walking {ratio : Option Ratio} {a : Step} {rest : List Step} {answer : Status}
    (h : Sound t ⟨ratio, a :: rest, answer⟩) : ∃ r, ratio = some r ∧ a :: rest <:+ t.steps r := by
  cases ratio with
  | none => cases h.through rfl
  | some r => exact ⟨r, rfl, h.walk r rfl⟩

structure Inv (format : Ratio → Bytes) (t : Handle) (ratios : Nat → Ratio) (s : Samplers) :
    Prop where
  leaves : Leaves format t s.ratios s.descriptions
  thresholds : ∀ id, s.thresholds id = computeThreshold (s.ratios id)
  fresh : ∀ p ∈ t.nodes, p.isComposite = true →
    s.descriptions p.id = p.compose s.descriptions ∨ ∃ c ∈ s.calls, .publish p ∈ c.todo
  calls : ∀ c ∈ s.calls, Sound t c
  untouched : t.ratioIds = [] →
    s.ratios = ratios ∧ s.descriptions = (Samplers.start format t ratios).descriptions

theorem inv_start (format : Ratio → Bytes) (ratios : Nat → Ratio) (hd : t.Distinct) :
    Inv format t ratios (Samplers.start format t ratios) where
  leaves := start_leaves format ratios hd
  thresholds _ := rfl
  fresh _ hp hcomposite := .inl (start_fresh format ratios hd hp hcomposite)
  calls c hc := by cases hc
  untouched _ := ⟨rfl, rfl⟩

/-- A composite is not among its own delegates. -/
theorem own_not_read (hd : t.Distinct) (hp : p ∈ t.nodes) : ∀ c ∈ p.children, c.id ≠ p.id := by
  intro c hc hid
  have heq : c = p := hd.eq_of_id (Handle.children_mem_nodes hp hc) hp hid
  have hlt := Handle.sizeOf_children hc
  rw [heq] at hlt
  exact Nat.lt_irrefl _ hlt

section Next

variable {k : Nat} {r : Ratio} {a : Step} {rest : List Step} {answer : Status}

/-- An object a step does not write keeps its description. -/
theorem perform_other (hd : t.Distinct) (hwalk : a :: rest <:+ t.steps r) {x : Handle}
    (hx : x ∈ t.nodes) (hne : x ≠ a.node) :
    (s.perform format k a).descriptions x.id = s.descriptions x.id := by
  apply perform_descriptions
  intro hid
  have hnode := (Handle.mem_steps (hwalk.subset List.mem_cons_self)).1
  exact hne (hd.eq_of_id hx hnode hid)

theorem leaves_perform (h : Inv format t ratios s) (hd : t.Distinct)
    (hwalk : a :: rest <:+ t.steps r) :
    Leaves format t (s.perform format k a).ratios (s.perform format k a).descriptions := by
  obtain ⟨hnode, hkind⟩ := Handle.mem_steps (hwalk.subset List.mem_cons_self)
  refine ⟨?_, ?_⟩
  · intro id hid
    rcases hkind with ⟨i, rfl⟩ | ⟨q, rfl, hq⟩
    · by_cases hi : id = i
      · rw [hi]
        exact update_self s i r (h.leaves.ratio i (hi ▸ hid))
      · have hdesc : (s.update format i r).descriptions id = s.descriptions id :=
          update_descriptions s i r hi
        have hratio : (s.update format i r).ratios id = s.ratios id := (update_ratios s i r).2 id hi
        exact hdesc.trans (hratio ▸ h.leaves.ratio id hid)
    · have hne : Handle.traceIdRatio id ≠ (Step.publish q).node := by
        rintro rfl
        cases hq
      exact (perform_other hd hwalk hid hne).trans (h.leaves.ratio id hid)
  · intro id description hid
    have hne : Handle.other id description ≠ a.node := by
      rcases hkind with ⟨i, rfl⟩ | ⟨q, rfl, hq⟩
      · intro heq
        cases heq
      · rintro rfl
        cases hq
    exact (perform_other hd hwalk hid hne).trans (h.leaves.other id description hid)

/-- A composite is fresh after a step, or a publication of it is left to some call: to
the one that took the step, if that step wrote what the composite reads. -/
theorem fresh_perform (h : Inv format t ratios s) (hd : t.Distinct)
    (hc : s.calls[k]? = some ⟨some r, a :: rest, answer⟩) (hwalk : a :: rest <:+ t.steps r)
    (hp : p ∈ t.nodes) (hcomposite : p.isComposite = true) :
    (s.perform format k a).descriptions p.id = p.compose (s.perform format k a).descriptions ∨
      ∃ c ∈ s.calls.set k ⟨some r, rest, answer⟩, .publish p ∈ c.todo := by
  obtain ⟨hnode, hkind⟩ := Handle.mem_steps (hwalk.subset List.mem_cons_self)
  have hself : (⟨some r, rest, answer⟩ : Call) ∈ s.calls.set k ⟨some r, rest, answer⟩ :=
    List.mem_of_getElem? (Threads.set_self hc)
  by_cases hpublish : a = .publish p
  · left
    have hcompose : p.compose (s.publish p).descriptions = p.compose s.descriptions := by
      apply compose_congr
      intro c hc
      exact Function.update_of_ne (own_not_read hd hp c hc) _ _
    rw [hpublish, Samplers.perform, hcompose]
    exact Function.update_self _ _ _
  · by_cases hread : a.node.id ∈ p.children.map Handle.id
    · right
      have hcovers := (Handle.covers_steps hd hp hcomposite).of_suffix hwalk
      exact ⟨_, hself, hcovers.1 hread⟩
    · have hne : p ≠ a.node := by
        rintro rfl
        rcases hkind with ⟨i, rfl⟩ | ⟨q, rfl, hq⟩
        · cases hcomposite
        · exact hpublish rfl
      have hcompose : p.compose (s.perform format k a).descriptions = p.compose s.descriptions := by
        apply compose_congr
        intro c hc
        apply perform_descriptions
        intro hid
        exact hread (hid ▸ List.mem_map_of_mem hc)
      rw [hcompose, perform_other hd hwalk hp hne]
      rcases h.fresh p hp hcomposite with hfresh | ⟨c, hmem, hpending⟩
      · exact .inl hfresh
      · right
        obtain ⟨j, hj⟩ := List.mem_iff_getElem?.mp hmem
        by_cases hjk : j = k
        · rw [hjk, hc] at hj
          cases hj
          rcases List.mem_cons.mp hpending with heq | hrest
          · exact absurd heq.symm hpublish
          · exact ⟨_, hself, hrest⟩
        · refine ⟨c, List.mem_of_getElem? (i := j) ?_, hpending⟩
          rw [Threads.set_other hjk]
          exact hj

end Next

theorem Inv.step (h : Inv format t ratios s) (hd : t.Distinct) {action : Action}
    (hstep : step format t s action = some s') : Inv format t ratios s' := by
  cases action with
  | call bits =>
      cases hstep
      refine ⟨h.leaves, h.thresholds, ?_, ?_, h.untouched⟩
      · intro p hp hcomposite
        rcases h.fresh p hp hcomposite with hfresh | ⟨c, hc, hpending⟩
        · exact .inl hfresh
        · exact .inr ⟨c, List.mem_append_left _ hc, hpending⟩
      · intro c hc
        rcases List.mem_append.mp hc with hc | hc
        · exact h.calls c hc
        · rw [List.mem_singleton.mp hc]
          exact sound_setSamplerRatio t s.shutDown bits
  | shutDown =>
      cases hstep
      exact ⟨h.leaves, h.thresholds, h.fresh, h.calls, h.untouched⟩
  | next k =>
      unfold SamplerTree.step at hstep
      dsimp only at hstep
      split at hstep
      · next ratio a rest answer hc =>
        cases hstep
        have hsound := h.calls _ (List.mem_of_getElem? hc)
        obtain ⟨r, rfl, hwalk⟩ := hsound.walking
        refine ⟨leaves_perform h hd hwalk, ?_, ?_, ?_, ?_⟩
        · cases a with
          | update id ratio => exact update_thresholds s id ratio h.thresholds
          | publish q => exact h.thresholds
        · intro p hp hcomposite
          exact fresh_perform h hd hc hwalk hp hcomposite
        · intro c hmem
          rcases List.mem_or_eq_of_mem_set hmem with hmem | rfl
          · exact h.calls c hmem
          · exact hsound.rest
        · intro hnone
          rw [Handle.steps_nil_of_ratioIds hnone, List.suffix_nil] at hwalk
          cases hwalk
      · cases hstep

/-! ### The ratio samplers as a row that the calls sweep -/

/-- A call updates a ratio sampler only after every call that began to update before it. -/
def inOrder (s : Samplers) : Action → Bool
  | .next k =>
      match s.calls[k]? with
      | some ⟨_, .update id _ :: _, _⟩ =>
          (s.arrivals.takeWhile (· ≠ k)).all fun j =>
            (s.calls[j]?).any fun c => !(updates c.todo).contains id
      | _ => true
  | _ => true

def Call.sweep (c : Call) : Sweeps.Sweep Nat Ratio := ⟨c.ratio, updates c.todo⟩

/-- The calls have begun in turn, and each ratio sampler has the ratio of the last of
them that updated it. -/
def Retuned (t : Handle) (ratios : Nat → Ratio) (s : Samplers) : Prop :=
  Sweeps.InTurn (fun r r' => r.same r' = true) t.ratioIds ratios s.ratios (s.calls.map Call.sweep)
    s.arrivals

theorem ratioIds_sublist (l : List Handle) :
    (l.filterMap fun
      | .traceIdRatio id => some id
      | _ => none).Sublist (l.map Handle.id) := by
  induction l with
  | nil => exact List.Sublist.slnil
  | cons h l ih =>
      cases h with
      | traceIdRatio id => exact ih.cons_cons id
      | _ => exact ih.cons _

theorem ratioIds_nodup (hd : t.Distinct) : t.ratioIds.Nodup :=
  hd.sublist (ratioIds_sublist t.nodes)

theorem updates_setSamplerRatio {shutDown : Bool} {bits : UInt64} {r : Ratio}
    (h : (setSamplerRatio t shutDown bits).ratio = some r) :
    updates (setSamplerRatio t shutDown bits).todo = t.ratioIds := by
  unfold setSamplerRatio at h ⊢
  split
  · next hshut =>
    rw [if_pos hshut] at h
    cases h
  · next hopen =>
    rw [if_neg hopen] at h
    split
    · next hunit =>
      have hupdates : updates (t.trySetRatio ⟨bits, hunit⟩).1 = t.ratioIds := Handle.updates_steps
      split <;> next steps heq => rw [heq] at hupdates; exact hupdates
    · next hunit =>
      rw [dif_neg hunit] at h
      cases h

theorem wrote_sweep {calls : List Call} {j id : Nat}
    (h : (calls[j]?).any (fun c => !(updates c.todo).contains id) = true) :
    Sweeps.Wrote (calls.map Call.sweep) j id := by
  obtain ⟨c, hc, hdone⟩ := (Option.any_eq_true _ _).mp h
  refine ⟨c.sweep, ?_, ?_⟩
  · rw [List.getElem?_map, hc]
    rfl
  · simpa [Call.sweep] using hdone

theorem Retuned.step (h : Retuned t ratios s) (hinv : ∀ c ∈ s.calls, Sound t c) (hd : t.Distinct)
    {action : Action} (hok : inOrder s action = true) (hstep : step format t s action = some s') :
    Retuned t ratios s' := by
  cases action with
  | call bits =>
      cases hstep
      unfold Retuned
      rw [List.map_append, List.map_singleton]
      exact h.push fun r hr => updates_setSamplerRatio hr
  | shutDown =>
      cases hstep
      exact h
  | next k =>
      unfold SamplerTree.step at hstep
      dsimp only at hstep
      split at hstep
      · next ratio a rest answer hc =>
        cases hstep
        obtain ⟨r, rfl, hwalk⟩ := (hinv _ (List.mem_of_getElem? hc)).walking
        obtain ⟨-, hkind⟩ := Handle.mem_steps (hwalk.subset List.mem_cons_self)
        have hsweep : (s.calls.map Call.sweep)[k]? = some ⟨some r, updates (a :: rest)⟩ := by
          rw [List.getElem?_map, hc]
          rfl
        unfold Retuned
        rw [List.map_set]
        rcases hkind with ⟨id, rfl⟩ | ⟨q, rfl, -⟩
        · have hsuffix : updates (.update id r :: rest) <:+ t.ratioIds := by
            rw [← Handle.updates_steps]
            exact hwalk.filterMap _
          have hfresh : id ∉ updates rest :=
            (List.nodup_cons.mp ((ratioIds_nodup hd).sublist hsuffix.sublist)).1
          obtain ⟨hsame, hother⟩ := update_ratios s id r
          refine Sweeps.InTurn.write h hsweep hfresh ?_ hsame hother
          intro j hj
          unfold inOrder at hok
          simp only [hc] at hok
          exact wrote_sweep (List.all_eq_true.mp hok j hj)
        · -- a publication updates no ratio sampler
          have hsame : (s.calls.map Call.sweep).set k (Call.sweep ⟨some r, rest, answer⟩) =
              s.calls.map Call.sweep := Threads.set_same hsweep
          rw [hsame]
          exact h
      · cases hstep

/-! ### Runs -/

/-- What the calls leave when all have returned. -/
structure Converged (format : Ratio → Bytes) (t : Handle) (ratios : Nat → Ratio) (s : Samplers) :
    Prop where
  agree : ((∀ c ∈ s.calls, c.ratio = none) ∧ s.ratios = ratios) ∨
    ∃ c ∈ s.calls, ∃ r, c.ratio = some r ∧ ∀ id ∈ t.ratioIds, r.same (s.ratios id) = true
  rendered : ∀ h ∈ t.nodes, s.descriptions h.id = h.rendering format s.ratios
  thresholds : ∀ id, s.thresholds id = computeThreshold (s.ratios id)
  answers : ∀ c ∈ s.calls, ∀ r, c.ratio = some r → (c.answer = .completed ↔ t.ratioIds ≠ [])
  untouched : t.ratioIds = [] →
    s.ratios = ratios ∧ s.descriptions = (Samplers.start format t ratios).descriptions

/-- In any order of the steps the descriptions are those of the ratios in force. -/
theorem Inv.rendered (h : Inv format t ratios s) (hreturned : ∀ c ∈ s.calls, c.todo = []) :
    ∀ x ∈ t.nodes, s.descriptions x.id = x.rendering format s.ratios := by
  intro x hx
  refine h.leaves.rendering ?_ hx
  intro p hp hcomposite
  rcases h.fresh p hp hcomposite with hfresh | ⟨c, hc, hpending⟩
  · exact hfresh
  · rw [hreturned c hc] at hpending
    cases hpending

/-- Where no call overtakes another between two ratio samplers, the whole tree has the
ratio of one call when all have returned. -/
theorem samplers_converge (format : Ratio → Bytes) (t : Handle) (hd : t.Distinct)
    (ratios : Nat → Ratio) (actions : List Action) (s : Samplers)
    (hrun : run (step format t) (Samplers.start format t ratios) actions = some s)
    (hok : ∀ before a after s', actions = before ++ a :: after →
      run (step format t) (Samplers.start format t ratios) before = some s' → inOrder s' a = true)
    (hreturned : ∀ c ∈ s.calls, c.todo = []) :
    Converged format t ratios s := by
  have hstart : Inv format t ratios (Samplers.start format t ratios) ∧
      Retuned t ratios (Samplers.start format t ratios) :=
    ⟨inv_start format ratios hd, Sweeps.InTurn.start _ _ _⟩
  have hkeep : ∀ s a s', Inv format t ratios s ∧ Retuned t ratios s → inOrder s a = true →
      step format t s a = some s' → Inv format t ratios s' ∧ Retuned t ratios s' := by
    rintro s a s' ⟨hinv, hretuned⟩ ha hstep
    exact ⟨hinv.step hd hstep, hretuned.step hinv.calls hd ha hstep⟩
  obtain ⟨hinv, hretuned⟩ := run_invariant_of hkeep hstart hok hrun
  refine ⟨?_, hinv.rendered hreturned, hinv.thresholds, fun c hc => (hinv.calls c hc).applied,
    hinv.untouched⟩
  have hdone : ∀ w ∈ s.calls.map Call.sweep, w.left = [] := by
    intro w hw
    obtain ⟨c, hc, rfl⟩ := List.mem_map.mp hw
    rw [Call.sweep, hreturned c hc]
    rfl
  rcases hretuned.finished hdone with ⟨hnone, hfirst⟩ | ⟨w, hw, r, hr, hagree⟩
  · refine .inl ⟨?_, hfirst⟩
    intro c hc
    exact hnone _ (List.mem_map_of_mem hc)
  · obtain ⟨c, hc, rfl⟩ := List.mem_map.mp hw
    exact .inr ⟨c, hc, r, hr, hagree⟩

/-! ### Two ratio samplers in a chain -/

def twoRatios : Handle := .chain 0 .firstMatch [.traceIdRatio 1, .traceIdRatio 2]

def whole : Ratio := ⟨0x3FF0000000000000, rfl⟩

/-- The three decimals of one quarter, one half and one. -/
def decimals (r : Ratio) : Bytes :=
  if r.bits = 0x3FD0000000000000 then ascii "0.250"
  else if r.bits = 0x3FE0000000000000 then ascii "0.500"
  else ascii "1.000"

/-- Where the samplers are after these steps of a call for one quarter and a call for
one half. -/
def retuned (steps : List Nat) : Samplers :=
  (run (step decimals twoRatios) (Samplers.start decimals twoRatios fun _ => whole)
    ([.call 0x3FD0000000000000, .call 0x3FE0000000000000] ++ steps.map .next)).getD
      (Samplers.start decimals twoRatios fun _ => whole)

theorem run_retuned {steps : List Nat}
    (h : (run (step decimals twoRatios) (Samplers.start decimals twoRatios fun _ => whole)
      ([.call 0x3FD0000000000000, .call 0x3FE0000000000000] ++ steps.map .next)).isSome = true) :
    run (step decimals twoRatios) (Samplers.start decimals twoRatios fun _ => whole)
      ([.call 0x3FD0000000000000, .call 0x3FE0000000000000] ++ steps.map .next) =
        some (retuned steps) := by
  obtain ⟨s, hs⟩ := Option.isSome_iff_exists.mp h
  rw [retuned, hs]
  rfl

theorem returned_of_all {calls : List Call} (h : calls.all (fun c => c.todo.isEmpty) = true) :
    ∀ c ∈ calls, c.todo = [] := fun c hc => List.isEmpty_iff.mp (List.all_eq_true.mp h c hc)

theorem samplers_converge_inTurn :
    Converged decimals twoRatios (fun _ => whole) (retuned [0, 1, 0, 1, 1, 0]) :=
  samplers_converge decimals twoRatios (by decide +kernel) (fun _ => whole) _ _
    (run_retuned (by decide +kernel))
    (throughout_sound (by decide +kernel : throughout (step decimals twoRatios)
      (fun s a => inOrder s a = true) (Samplers.start decimals twoRatios fun _ => whole)
      ([.call 0x3FD0000000000000, .call 0x3FE0000000000000] ++ [0, 1, 0, 1, 1, 0].map .next) =
        true))
    (returned_of_all (by decide +kernel))

/-- Two calls pass each other between the ratio samplers, and each leaves its ratio in
one of them. -/
theorem samplers_diverge :
    ¬ ∀ (format : Ratio → Bytes) (t : Handle) (ratios : Nat → Ratio) (actions : List Action)
      (s : Samplers), t.Distinct →
        run (step format t) (Samplers.start format t ratios) actions = some s →
          (∀ c ∈ s.calls, c.todo = []) → Converged format t ratios s := by
  intro h
  have hconverged := h decimals twoRatios (fun _ => whole) _ _ (by decide +kernel)
    (run_retuned (by decide +kernel : (run (step decimals twoRatios)
      (Samplers.start decimals twoRatios fun _ => whole)
      ([.call 0x3FD0000000000000, .call 0x3FE0000000000000] ++
        [0, 1, 1, 0, 0, 1].map .next)).isSome =
        true))
    (returned_of_all (by decide +kernel))
  have hids : twoRatios.ratioIds = [1, 2] := by decide +kernel
  have hfirst : ((retuned [0, 1, 1, 0, 0, 1]).ratios 1).bits = 0x3FE0000000000000 := by
    decide +kernel
  have hsecond : ((retuned [0, 1, 1, 0, 0, 1]).ratios 2).bits = 0x3FD0000000000000 := by
    decide +kernel
  rcases hconverged.agree with ⟨-, hkept⟩ | ⟨c, hc, r, hr, hagree⟩
  · rw [hkept] at hfirst
    exact absurd hfirst (by decide)
  · rw [hids] at hagree
    have hhalf : r.bits = 0x3FE0000000000000 := by
      simpa [Ratio.same, Ratio.isZero, hfirst] using hagree 1 (by simp)
    have hquarter : r.bits = 0x3FD0000000000000 := by
      simpa [Ratio.same, Ratio.isZero, hsecond] using hagree 2 (by simp)
    rw [hhalf] at hquarter
    exact absurd hquarter (by decide)

end Microtel.Sdk.SamplerTree
