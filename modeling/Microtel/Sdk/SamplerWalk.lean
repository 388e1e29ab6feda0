import Microtel.Sdk.SamplerTree

/-!
The tree a call walks, one equation for all composites: the delegates that are there,
the steps of each in turn, and the publication behind them. Every step that writes a
delegate's description has the publication of its owner behind it.
-/

namespace Microtel.Sdk.SamplerTree

open Concentrator

namespace Handle

variable {h c p : Handle} {ratio : Ratio}

/-- The delegates that are not empty. -/
def children : Handle → List Handle
  | .parentBased _ root => buildChildren [root]
  | .rule _ _ _ onMatch onNoMatch => buildChildren [onMatch, onNoMatch]
  | .chain _ _ children => buildChildren children
  | _ => []

def steps (ratio : Ratio) (h : Handle) : List Step := (h.trySetRatio ratio).1

def applied (ratio : Ratio) (h : Handle) : Bool := (h.trySetRatio ratio).2

theorem mem_buildChildren {children : List Handle} :
    c ∈ buildChildren children ↔ c ∈ children ∧ c.isNull = false := by
  unfold buildChildren
  rw [List.mem_filter, Bool.not_eq_true']

theorem sizeOf_children (hc : c ∈ h.children) : sizeOf c < sizeOf h := by
  cases h with
  | parentBased id root =>
      have hmem := List.mem_singleton.mp (mem_buildChildren.mp hc).1
      rw [hmem, parentBased.sizeOf_spec]
      omega
  | rule id name predicate onMatch onNoMatch =>
      have hmem := (mem_buildChildren.mp hc).1
      rw [rule.sizeOf_spec]
      rcases List.mem_cons.mp hmem with rfl | hmem
      · omega
      · rw [List.mem_singleton.mp hmem]
        omega
  | chain id mode children =>
      have hlt := List.sizeOf_lt_of_mem (mem_buildChildren.mp hc).1
      rw [chain.sizeOf_spec]
      omega
  | null => cases hc
  | traceIdRatio id => cases hc
  | other id description => cases hc

/-- Induction over a tree by its delegates. -/
theorem children_induction {P : Handle → Prop} (hstep : ∀ h, (∀ c ∈ h.children, P c) → P h) :
    ∀ h, P h := by
  intro h
  apply hstep
  intro c hc
  have hlt := sizeOf_children hc
  exact children_induction hstep c
termination_by h => sizeOf h

theorem not_null_of_mem_children (hc : c ∈ h.children) : c.isNull = false := by
  cases h with
  | parentBased id root => exact (mem_buildChildren.mp hc).2
  | rule id name predicate onMatch onNoMatch => exact (mem_buildChildren.mp hc).2
  | chain id mode children => exact (mem_buildChildren.mp hc).2
  | null => cases hc
  | traceIdRatio id => cases hc
  | other id description => cases hc

/-! ### One equation for all composites -/

/-- An empty handle adds nothing to what is gathered over the delegates. -/
theorem flatMap_buildChildren {β : Type} {f : Handle → List β} (hnull : f .null = [])
    (children : List Handle) : (buildChildren children).flatMap f = children.flatMap f := by
  induction children with
  | nil => rfl
  | cons child children ih =>
      unfold buildChildren at ih ⊢
      rw [List.filter_cons, List.flatMap_cons, ← ih]
      cases child with
      | null => rw [hnull]; rfl
      | _ => rfl

theorem any_buildChildren {f : Handle → Bool} (hnull : f .null = false) (children : List Handle) :
    (buildChildren children).any f = children.any f := by
  induction children with
  | nil => rfl
  | cons child children ih =>
      unfold buildChildren at ih ⊢
      rw [List.filter_cons, List.any_cons, ← ih]
      cases child with
      | null => rw [hnull]; rfl
      | _ => rfl

theorem nodesAll_eq (children : List Handle) : nodesAll children = children.flatMap nodes := by
  induction children with
  | nil => rfl
  | cons child children ih => rw [nodesAll, ih, List.flatMap_cons]

theorem nodes_null : nodes .null = [] := rfl

theorem nodes_eq (hnull : h.isNull = false) : h.nodes = h :: h.children.flatMap nodes := by
  cases h with
  | null => cases hnull
  | traceIdRatio id => rfl
  | other id description => rfl
  | parentBased id root =>
      rw [children, flatMap_buildChildren nodes_null, nodes, List.flatMap_singleton]
  | rule id name predicate onMatch onNoMatch =>
      rw [children, flatMap_buildChildren nodes_null, nodes, List.flatMap_cons,
        List.flatMap_singleton]
  | chain id mode children =>
      rw [Handle.children, flatMap_buildChildren nodes_null, nodes, nodesAll_eq]

theorem tryDelegates_eq (children : List Handle) :
    tryDelegates ratio children =
      (children.flatMap (steps ratio), children.any (applied ratio)) := by
  induction children with
  | nil => rfl
  | cons child children ih =>
      rw [tryDelegates, ih, List.flatMap_cons, List.any_cons, Bool.or_comm]
      rfl

theorem trySetRatio_eq (hcomposite : h.isComposite = true) :
    h.trySetRatio ratio =
      (h.children.flatMap (steps ratio) ++
        (if h.children.any (applied ratio) then [.publish h] else []),
        h.children.any (applied ratio)) := by
  have hsteps : steps ratio .null = [] := rfl
  have happlied : applied ratio .null = false := rfl
  cases h with
  | null => cases hcomposite
  | traceIdRatio id => cases hcomposite
  | other id description => cases hcomposite
  | parentBased id root =>
      rw [children, flatMap_buildChildren hsteps, any_buildChildren happlied, trySetRatio,
        List.flatMap_singleton, List.any_cons, List.any_nil, Bool.or_false, steps, applied]
      obtain ⟨walked, success⟩ := root.trySetRatio ratio
      cases success with
      | true => rfl
      | false => exact congrArg (·, false) (List.append_nil _).symm
  | rule id name predicate onMatch onNoMatch =>
      rw [children, flatMap_buildChildren hsteps, any_buildChildren happlied, trySetRatio,
        List.flatMap_cons, List.flatMap_singleton, List.any_cons, List.any_cons, List.any_nil,
        Bool.or_false, steps, steps, applied, applied]
      dsimp only
      rw [Bool.or_comm]
      cases (onMatch.trySetRatio ratio).2 || (onNoMatch.trySetRatio ratio).2 with
      | true => rfl
      | false => exact congrArg (·, false) (List.append_nil _).symm
  | chain id mode children =>
      rw [Handle.children, flatMap_buildChildren hsteps, any_buildChildren happlied, trySetRatio,
        tryDelegates_eq]
      dsimp only
      cases children.any (applied ratio) with
      | true => rfl
      | false => exact congrArg (·, false) (List.append_nil _).symm

theorem applied_eq (hcomposite : h.isComposite = true) :
    h.applied ratio = h.children.any (applied ratio) := by
  rw [applied, trySetRatio_eq hcomposite]

/-- The delegates in turn, then the publication if one of them applied the ratio. -/
theorem steps_eq (hcomposite : h.isComposite = true) :
    h.steps ratio =
      h.children.flatMap (steps ratio) ++ (if h.applied ratio then [.publish h] else []) := by
  rw [applied_eq hcomposite, steps, trySetRatio_eq hcomposite]

theorem renderings_eq (format : Ratio → Bytes) (ratios : Nat → Ratio) (children : List Handle) :
    renderings format ratios children = (buildChildren children).map (rendering format ratios) := by
  induction children with
  | nil => rfl
  | cons child children ih =>
      unfold buildChildren at ih ⊢
      rw [renderings, ih, List.filter_cons]
      cases child.isNull with
      | true => rfl
      | false => rfl

theorem rendering_eq (format : Ratio → Bytes) (ratios : Nat → Ratio)
    (hcomposite : h.isComposite = true) :
    h.rendering format ratios = h.composeWith (rendering format ratios) := by
  cases h with
  | null => cases hcomposite
  | traceIdRatio id => cases hcomposite
  | other id description => cases hcomposite
  | parentBased id root => rfl
  | rule id name predicate onMatch onNoMatch => rfl
  | chain id mode children => rw [rendering, renderings_eq, composeWith]

/-- A composition reads the delegates that are there, and of an empty handle that it is. -/
theorem composeWith_congr {f g : Handle → Bytes} (hnull : f .null = g .null)
    (hchildren : ∀ c ∈ h.children, f c = g c) : h.composeWith f = h.composeWith g := by
  have hdelegate : ∀ {c : Handle} {children : List Handle}, c ∈ children →
      (∀ c ∈ buildChildren children, f c = g c) → f c = g c := by
    intro c children hmem hsame
    cases hc : c.isNull with
    | true =>
        cases c <;> first | exact hnull | cases hc
    | false => exact hsame c (mem_buildChildren.mpr ⟨hmem, hc⟩)
  cases h with
  | null => rfl
  | traceIdRatio id => rfl
  | other id description => rfl
  | parentBased id root =>
      rw [composeWith, composeWith, hdelegate List.mem_cons_self hchildren]
  | rule id name predicate onMatch onNoMatch =>
      rw [composeWith, composeWith, hdelegate List.mem_cons_self hchildren,
        hdelegate (List.mem_cons_of_mem _ List.mem_cons_self) hchildren]
  | chain id mode children =>
      have hmap : (buildChildren children).map f = (buildChildren children).map g :=
        List.map_congr_left hchildren
      rw [composeWith, composeWith, hmap]

/-! ### The objects of a tree -/

/-- No address stands for two objects. -/
def Distinct (h : Handle) : Prop := (h.nodes.map id).Nodup

instance (h : Handle) : Decidable h.Distinct :=
  inferInstanceAs (Decidable (h.nodes.map id).Nodup)

theorem null_of_isNull (hnull : h.isNull = true) : h = .null := by
  cases h with
  | null => rfl
  | _ => cases hnull

theorem self_mem_nodes (hnull : h.isNull = false) : h ∈ h.nodes := by
  rw [nodes_eq hnull]
  exact List.mem_cons_self

theorem mem_nodes_iff (hnull : h.isNull = false) :
    p ∈ h.nodes ↔ p = h ∨ ∃ c ∈ h.children, p ∈ c.nodes := by
  rw [nodes_eq hnull, List.mem_cons, List.mem_flatMap]

theorem nodes_nil_of_isNull (hnull : h.isNull = true) : h.nodes = [] := by
  rw [null_of_isNull hnull, nodes_null]

theorem not_null_of_mem_nodes (hp : p ∈ h.nodes) : h.isNull = false := by
  cases hnull : h.isNull with
  | true =>
      rw [nodes_nil_of_isNull hnull] at hp
      cases hp
  | false => rfl

/-- What an object of the tree owns is in the tree. -/
theorem children_mem_nodes (hp : p ∈ h.nodes) (hc : c ∈ p.children) : c ∈ h.nodes := by
  induction h using children_induction with
  | hstep h ih =>
      have hnull := not_null_of_mem_nodes hp
      rw [mem_nodes_iff hnull] at hp ⊢
      rcases hp with rfl | ⟨d, hd, hp⟩
      · exact .inr ⟨c, hc, self_mem_nodes (not_null_of_mem_children hc)⟩
      · exact .inr ⟨d, hd, ih d hd hp⟩

theorem mem_nodes_not_null (hp : p ∈ h.nodes) : p.isNull = false := by
  induction h using children_induction with
  | hstep h ih =>
      have hnull := not_null_of_mem_nodes hp
      rcases (mem_nodes_iff hnull).mp hp with rfl | ⟨d, hd, hp⟩
      · exact hnull
      · exact ih d hd hp

theorem composite_not_null (hcomposite : h.isComposite = true) : h.isNull = false := by
  cases h with
  | null => cases hcomposite
  | _ => rfl

/-- An object that is no composite owns nothing. -/
theorem children_of_not_composite (hcomposite : h.isComposite = false) : h.children = [] := by
  cases h with
  | null => rfl
  | traceIdRatio id => rfl
  | other id description => rfl
  | _ => cases hcomposite

namespace Distinct

theorem eq_of_id (hd : h.Distinct) {x y : Handle} (hx : x ∈ h.nodes) (hy : y ∈ h.nodes)
    (hid : x.id = y.id) : x = y :=
  List.inj_on_of_nodup_map hd hx hy hid

theorem child (hd : h.Distinct) (hc : c ∈ h.children) : c.Distinct := by
  unfold Distinct at hd ⊢
  cases hnull : h.isNull with
  | true =>
      rw [null_of_isNull hnull] at hc
      cases hc
  | false =>
      rw [nodes_eq hnull, List.map_cons, List.nodup_cons, List.map_flatMap,
        List.nodup_flatMap] at hd
      exact hd.2.1 c hc

/-- The owner's address is not below it. -/
theorem owner (hd : h.Distinct) (hc : c ∈ h.children) {x : Handle} (hx : x ∈ c.nodes) :
    x.id ≠ h.id := by
  intro hid
  unfold Distinct at hd
  cases hnull : h.isNull with
  | true =>
      rw [null_of_isNull hnull] at hc
      cases hc
  | false =>
      rw [nodes_eq hnull, List.map_cons, List.nodup_cons] at hd
      apply hd.1
      rw [← hid]
      exact List.mem_map_of_mem (List.mem_flatMap.mpr ⟨c, hc, hx⟩)

/-- Two delegates have no address in common. -/
theorem apart (hd : h.Distinct) {d : Handle} (hc : c ∈ h.children) (hd' : d ∈ h.children)
    (hne : c ≠ d) {x y : Handle} (hx : x ∈ c.nodes) (hy : y ∈ d.nodes) : x.id ≠ y.id := by
  unfold Distinct at hd
  cases hnull : h.isNull with
  | true =>
      rw [null_of_isNull hnull] at hc
      cases hc
  | false =>
      rw [nodes_eq hnull, List.map_cons, List.nodup_cons, List.map_flatMap,
        List.nodup_flatMap] at hd
      have : Std.Symm (Function.onFun List.Disjoint fun c : Handle => c.nodes.map id) :=
        ⟨fun _ _ hdisjoint => hdisjoint.symm⟩
      have hdisjoint := hd.2.2.forall hc hd' hne
      intro hid
      exact hdisjoint (List.mem_map_of_mem hx) (hid ▸ List.mem_map_of_mem hy)

end Distinct

end Handle

/-! ### The steps of a walk -/

/-- The object a step writes. -/
def Step.node : Step → Handle
  | .update id _ => .traceIdRatio id
  | .publish h => h

/-- The ratio samplers the steps update. -/
def updates (todo : List Step) : List Nat :=
  todo.filterMap fun
    | .update id _ => some id
    | .publish _ => none

theorem updates_append (todo todo' : List Step) :
    updates (todo ++ todo') = updates todo ++ updates todo' := List.filterMap_append

/-- A step that writes what `p` composes from has the publication of `p` behind it. -/
def Covers (p : Handle) : List Step → Prop
  | [] => True
  | a :: todo => (a.node.id ∈ p.children.map Handle.id → .publish p ∈ todo) ∧ Covers p todo

namespace Covers

variable {p : Handle} {todo todo' : List Step}

theorem append (h : Covers p todo) (h' : Covers p todo') : Covers p (todo ++ todo') := by
  induction todo with
  | nil => exact h'
  | cons a todo ih => exact ⟨fun hread => List.mem_append_left _ (h.1 hread), ih h.2⟩

theorem of_apart (h : ∀ a ∈ todo, a.node.id ∉ p.children.map Handle.id) : Covers p todo := by
  induction todo with
  | nil => trivial
  | cons a todo ih =>
      refine ⟨fun hread => absurd hread (h a List.mem_cons_self), ih ?_⟩
      exact fun b hb => h b (List.mem_cons_of_mem _ hb)

/-- With the publication at the end everything is covered. -/
theorem publish_last (h : p.id ∉ p.children.map Handle.id) (todo : List Step) :
    Covers p (todo ++ [.publish p]) := by
  induction todo with
  | nil => exact ⟨fun hread => absurd hread h, trivial⟩
  | cons a todo ih => exact ⟨fun _ => by simp, ih⟩

theorem flatMap {β : Type} {l : List β} {f : β → List Step} (h : ∀ b ∈ l, Covers p (f b)) :
    Covers p (l.flatMap f) := by
  induction l with
  | nil => trivial
  | cons b l ih =>
      rw [List.flatMap_cons]
      exact (h b List.mem_cons_self).append (ih fun b' hb' => h b' (List.mem_cons_of_mem _ hb'))

theorem of_suffix (h : Covers p todo) (hsuffix : todo' <:+ todo) : Covers p todo' := by
  obtain ⟨taken, rfl⟩ := hsuffix
  induction taken with
  | nil => exact h
  | cons a taken ih => exact ih h.2

end Covers

namespace Handle

variable {h c p : Handle} {ratio : Ratio}

/-- The ratio samplers of a tree. -/
def ratioIds (h : Handle) : List Nat :=
  h.nodes.filterMap fun
    | .traceIdRatio id => some id
    | _ => none

theorem ratioIds_composite (hcomposite : h.isComposite = true) :
    h.ratioIds = h.children.flatMap ratioIds := by
  unfold ratioIds
  rw [nodes_eq (composite_not_null hcomposite), List.filterMap_cons, List.filterMap_flatMap]
  cases h with
  | null => cases hcomposite
  | traceIdRatio id => cases hcomposite
  | _ => rfl

theorem steps_of_not_composite (hcomposite : h.isComposite = false) :
    h.steps ratio = h.ratioIds.map fun id => .update id ratio := by
  cases h with
  | null => rfl
  | traceIdRatio id => rfl
  | other id description => rfl
  | _ => cases hcomposite

/-- A call applies the ratio exactly where there is a ratio sampler. -/
theorem applied_iff : h.applied ratio = true ↔ h.ratioIds ≠ [] := by
  induction h using children_induction with
  | hstep h ih =>
      cases hcomposite : h.isComposite with
      | true =>
          rw [applied_eq hcomposite, ratioIds_composite hcomposite, List.any_eq_true, Ne,
            List.flatMap_eq_nil_iff]
          push Not
          constructor
          · rintro ⟨c, hc, happlied⟩
            exact ⟨c, hc, (ih c hc).mp happlied⟩
          · rintro ⟨c, hc, hratio⟩
            exact ⟨c, hc, (ih c hc).mpr hratio⟩
      | false =>
          cases h with
          | null => simp [applied, trySetRatio, ratioIds, nodes]
          | traceIdRatio id => simp [applied, trySetRatio, ratioIds, nodes]
          | other id description => simp [applied, trySetRatio, ratioIds, nodes]
          | _ => cases hcomposite

/-- The updates of a walk are of the ratio samplers, each once, all with its ratio. -/
theorem updates_steps : updates (h.steps ratio) = h.ratioIds := by
  induction h using children_induction with
  | hstep h ih =>
      cases hcomposite : h.isComposite with
      | true =>
          have hpublish : updates (if h.applied ratio then [.publish h] else []) = [] := by
            split <;> rfl
          rw [steps_eq hcomposite, updates_append, hpublish, List.append_nil,
            ratioIds_composite hcomposite, updates, List.filterMap_flatMap]
          exact List.flatMap_congr ih
      | false =>
          rw [steps_of_not_composite hcomposite, updates, List.filterMap_map]
          exact List.filterMap_some

theorem steps_nil_of_ratioIds (hnone : h.ratioIds = []) : h.steps ratio = [] := by
  induction h using children_induction with
  | hstep h ih =>
      cases hcomposite : h.isComposite with
      | true =>
          have hunapplied : h.applied ratio = false := by
            rw [Bool.eq_false_iff]
            exact fun happlied => applied_iff.mp happlied hnone
          rw [steps_eq hcomposite, hunapplied, List.flatMap_eq_nil_iff.mpr]
          · rfl
          · rw [ratioIds_composite hcomposite, List.flatMap_eq_nil_iff] at hnone
            exact fun c hc => ih c hc (hnone c hc)
      | false => rw [steps_of_not_composite hcomposite, hnone, List.map_nil]

/-- A walk writes objects of the tree, and updates with its ratio. -/
theorem mem_steps {a : Step} (ha : a ∈ h.steps ratio) :
    a.node ∈ h.nodes ∧
      ((∃ id, a = .update id ratio) ∨ ∃ p, a = .publish p ∧ p.isComposite = true) := by
  induction h using children_induction with
  | hstep h ih =>
      cases hcomposite : h.isComposite with
      | true =>
          have hnull := composite_not_null hcomposite
          rw [steps_eq hcomposite, List.mem_append, List.mem_flatMap] at ha
          rcases ha with ⟨c, hc, ha⟩ | ha
          · obtain ⟨hnode, hkind⟩ := ih c hc ha
            exact ⟨(mem_nodes_iff hnull).mpr (.inr ⟨c, hc, hnode⟩), hkind⟩
          · split at ha
            · rw [List.mem_singleton.mp ha]
              exact ⟨self_mem_nodes hnull, .inr ⟨h, rfl, hcomposite⟩⟩
            · cases ha
      | false =>
          rw [steps_of_not_composite hcomposite, List.mem_map] at ha
          obtain ⟨id, hid, rfl⟩ := ha
          refine ⟨?_, .inl ⟨id, rfl⟩⟩
          obtain ⟨x, hx, hsome⟩ := List.mem_filterMap.mp hid
          cases x <;> cases hsome
          exact hx

/-- The walk covers every composite of the tree: a delegate is walked before the
publication of its owner, and nothing outside it writes into it. -/
theorem covers_steps (hd : h.Distinct) (hp : p ∈ h.nodes) (hcomposite : p.isComposite = true) :
    Covers p (h.steps ratio) := by
  induction h using children_induction with
  | hstep h ih =>
      have hnull := not_null_of_mem_nodes hp
      have howner : ∀ {x c : Handle}, c ∈ h.children → x ∈ c.nodes → h.id ≠ x.id :=
        fun hc hx => (hd.owner hc hx).symm
      rw [mem_nodes_iff hnull] at hp
      rcases hp with rfl | ⟨d, hdc, hp⟩
      · rw [steps_eq hcomposite]
        cases happlied : p.applied ratio with
        | true =>
            rw [if_pos rfl]
            apply Covers.publish_last
            intro hread
            obtain ⟨c, hc, hid⟩ := List.mem_map.mp hread
            exact howner hc (self_mem_nodes (not_null_of_mem_children hc)) hid.symm
        | false =>
            have hnone : p.ratioIds = [] := by
              by_contra hsome
              rw [applied_iff.mpr hsome] at happlied
              cases happlied
            have hnil : p.steps ratio = [] := steps_nil_of_ratioIds hnone
            rw [steps_eq hcomposite, happlied] at hnil
            rw [hnil]
            trivial
      · have hh : h.isComposite = true := by
          cases hh : h.isComposite with
          | true => rfl
          | false =>
              rw [children_of_not_composite hh] at hdc
              cases hdc
        have hread : ∀ {i : Nat}, i ∈ p.children.map Handle.id → ∃ x ∈ d.nodes, x.id = i := by
          intro i hi
          obtain ⟨x, hx, rfl⟩ := List.mem_map.mp hi
          exact ⟨x, children_mem_nodes hp hx, rfl⟩
        rw [steps_eq hh]
        apply Covers.append
        · apply Covers.flatMap
          intro c hc
          by_cases hcd : c = d
          · rw [hcd]
            exact ih d hdc (hd.child hdc) hp
          · apply Covers.of_apart
            intro a ha hi
            obtain ⟨x, hx, hid⟩ := hread hi
            exact hd.apart hc hdc hcd (mem_steps ha).1 hx hid.symm
        · apply Covers.of_apart
          intro a ha hi
          obtain ⟨x, hx, hid⟩ := hread hi
          split at ha
          · rw [List.mem_singleton.mp ha] at hid
            exact howner hdc hx hid.symm
          · cases ha

end Handle

end Microtel.Sdk.SamplerTree
