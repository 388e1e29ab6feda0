import Microtel.Concentrator.Table

/-!
Histories of the leaf table: what one call can do to the list and the index,
and what therefore holds after every sequence of calls.
-/

namespace Microtel.Concentrator.LeafTable

open LinkedIndex

variable {σ ρ : Type}

/-- The list and the index agree, and the next node's address is new. -/
structure WellLinked (t : LeafTable σ ρ) : Prop where
  linked : Linked Entry.id t.recency t.index
  fresh : ∀ n ∈ t.recency, n.1 < t.nextAddr

def Absent (t : LeafTable σ ρ) (id : Bytes) : Prop := ∀ n ∈ t.recency, n.2.id ≠ id

/-- What a call does to the entry it is about. -/
def Call.effect : Call σ ρ → Entry σ ρ → Entry σ ρ
  | .settings _ now, e => { e with lastSeen := now }
  | .adoptSettings _ new now, e => Entry.adopt new { e with lastSeen := now }
  | .find _ _ now, e => { e with lastSeen := now }
  | .insert _ hash new now, e => Entry.keep hash new { e with lastSeen := now }
  | .updateBootAnchor _ sample window now, e =>
      { e with anchor := (e.anchor.update sample window).1, lastSeen := now }

theorem Call.effect_id (c : Call σ ρ) (e : Entry σ ρ) : (c.effect e).id = e.id := by
  cases c with
  | settings id now => rfl
  | adoptSettings id new now =>
      simp only [Call.effect, Entry.adopt]
      split <;> rfl
  | find id hash now => rfl
  | insert id hash new now =>
      simp only [Call.effect, Entry.keep]
      split <;> rfl
  | updateBootAnchor id sample window now => rfl

theorem Call.effect_lastSeen (c : Call σ ρ) (e : Entry σ ρ) : (c.effect e).lastSeen = c.now := by
  cases c with
  | settings id now => rfl
  | adoptSettings id new now =>
      simp only [Call.effect, Entry.adopt]
      split <;> rfl
  | find id hash now => rfl
  | insert id hash new now =>
      simp only [Call.effect, Entry.keep]
      split <;> rfl
  | updateBootAnchor id sample window now => rfl

/-! ### Touching -/

variable {t t₁ : LeafTable σ ρ} {id : Bytes} {now : TimePoint}

theorem touch_absent (W : t.WellLinked) (h : t.Absent id) : t.touch id now = (t, none) := by
  unfold touch
  rw [W.linked.find_none.mpr h]

theorem not_mem_rest (W : t.WellLinked) {l₁ l₂ : List (Nat × Entry σ ρ)} {a : Nat} {e : Entry σ ρ}
    (hsplit : t.recency = l₁ ++ (a, e) :: l₂) : a ∉ (l₁ ++ l₂).map Prod.fst := by
  have hnodup := W.linked.addrs
  rw [hsplit] at hnodup
  have hperm : (l₁ ++ (a, e) :: l₂).Perm ((a, e) :: (l₁ ++ l₂)) := List.perm_middle
  have hmid := (hperm.map Prod.fst).nodup_iff.mp hnodup
  exact (List.nodup_cons.mp hmid).1

theorem touch_present (W : t.WellLinked) {l₁ l₂ : List (Nat × Entry σ ρ)} {a : Nat}
    {e : Entry σ ρ} (hsplit : t.recency = l₁ ++ (a, e) :: l₂) (hid : e.id = id) :
    t.touch id now =
      ({ t with recency := (a, { e with lastSeen := now }) :: (l₁ ++ l₂) }, some a) := by
  have hmem : (a, e) ∈ t.recency := by
    rw [hsplit]
    simp
  have hnot := not_mem_rest W hsplit
  unfold touch
  rw [W.linked.find_some.mpr ⟨e, hmem, hid⟩]
  dsimp only
  rw [spliceFront_eq hsplit W.linked.addrs, modifyAt_cons _ hnot]

/-- An id is absent, or has one node. -/
theorem absent_or_present (t : LeafTable σ ρ) (id : Bytes) :
    t.Absent id ∨ ∃ l₁ a e l₂, t.recency = l₁ ++ (a, e) :: l₂ ∧ e.id = id := by
  by_cases h : t.Absent id
  · exact Or.inl h
  · right
    unfold Absent at h
    push Not at h
    obtain ⟨⟨a, e⟩, hmem, hid⟩ := h
    obtain ⟨l₁, l₂, hsplit⟩ := List.append_of_mem hmem
    exact ⟨l₁, a, e, l₂, hsplit, hid⟩

/-! ### Evicting -/

/-- The nodes in `gone`, from the back of the list, have been evicted. -/
structure Evicts (t t₁ : LeafTable σ ρ) (gone : List (Nat × Entry σ ρ)) : Prop where
  recency : t.recency = t₁.recency ++ gone
  evicted : t₁.evicted = t.evicted + UInt64.ofNat gone.length
  maxLeaves : t₁.maxLeaves = t.maxLeaves
  idleTimeout : t₁.idleTimeout = t.idleTimeout
  nextAddr : t₁.nextAddr = t.nextAddr
  wellLinked : t₁.WellLinked

theorem Evicts.refl (W : t.WellLinked) : Evicts t t [] :=
  ⟨by simp, by simp, rfl, rfl, rfl, W⟩

theorem Evicts.trans {t₂ : LeafTable σ ρ} {gone gone' : List (Nat × Entry σ ρ)}
    (E : Evicts t t₁ gone) (E' : Evicts t₁ t₂ gone') : Evicts t t₂ (gone' ++ gone) where
  recency := by rw [E.recency, E'.recency, List.append_assoc]
  evicted := by
    rw [E'.evicted, E.evicted, List.length_append, UInt64.ofNat_add, UInt64.add_assoc,
      UInt64.add_comm (UInt64.ofNat gone.length)]
  maxLeaves := E'.maxLeaves.trans E.maxLeaves
  idleTimeout := E'.idleTimeout.trans E.idleTimeout
  nextAddr := E'.nextAddr.trans E.nextAddr
  wellLinked := E'.wellLinked

theorem evictOldest_spec (W : t.WellLinked) {l : List (Nat × Entry σ ρ)} {n : Nat × Entry σ ρ}
    (hrecency : t.recency = l ++ [n]) : Evicts t t.evictOldest [n] ∧ t.evictOldest.recency = l := by
  obtain ⟨a, e⟩ := n
  have hlast : t.recency.getLast? = some (a, e) := by rw [hrecency, List.getLast?_concat]
  have hdrop : t.recency.dropLast = l := by rw [hrecency, List.dropLast_concat]
  have heq : t.evictOldest =
      { t with index := indexErase t.index e.id, recency := l, evicted := t.evicted + 1 } := by
    unfold evictOldest
    rw [hlast]
    dsimp only
    rw [hdrop]
  have hlinked := W.linked
  rw [hrecency] at hlinked
  have herase := hlinked.erase
  rw [List.append_nil] at herase
  rw [heq]
  refine ⟨⟨hrecency, rfl, rfl, rfl, rfl, herase, ?_⟩, rfl⟩
  intro m hm
  apply W.fresh
  rw [hrecency]
  exact List.mem_append_left _ hm

/-- Whether an entry has not been seen for longer than the timeout. -/
def Idle (t : LeafTable σ ρ) (now : TimePoint) (e : Entry σ ρ) : Prop :=
  t.idleTimeout < now - e.lastSeen

theorem evictIdleLoop_spec (now : TimePoint) (fuel : Nat) (W : t.WellLinked)
    (hfuel : t.recency.length ≤ fuel) :
    ∃ gone, Evicts t (evictIdleLoop now fuel t) gone ∧
      ∀ n, (evictIdleLoop now fuel t).recency.getLast? = some n → ¬ t.Idle now n.2 := by
  induction fuel generalizing t with
  | zero =>
      have hnil : t.recency = [] := List.length_eq_zero_iff.mp (Nat.le_zero.mp hfuel)
      refine ⟨[], Evicts.refl W, ?_⟩
      intro n hn
      rw [evictIdleLoop, hnil] at hn
      simp at hn
  | succ fuel ih =>
      cases hlast : t.recency.getLast? with
      | none =>
          have heq : evictIdleLoop now (fuel + 1) t = t := by
            unfold evictIdleLoop
            rw [hlast]
          rw [heq]
          refine ⟨[], Evicts.refl W, ?_⟩
          intro n hn
          rw [hlast] at hn
          simp at hn
      | some n =>
          obtain ⟨l, hrecency⟩ := List.getLast?_eq_some_iff.mp hlast
          by_cases hidle : t.idleTimeout < now - n.2.lastSeen
          · have heq : evictIdleLoop now (fuel + 1) t = evictIdleLoop now fuel t.evictOldest := by
              rw [evictIdleLoop, hlast]
              exact if_pos hidle
            obtain ⟨E, hl⟩ := evictOldest_spec W hrecency
            have hlen : t.evictOldest.recency.length ≤ fuel := by
              rw [hl]
              rw [hrecency, List.length_append, List.length_singleton] at hfuel
              omega
            obtain ⟨gone, E', hstop⟩ := ih E.wellLinked hlen
            rw [heq]
            refine ⟨_, E.trans E', ?_⟩
            intro m hm
            have hnot := hstop m hm
            unfold Idle at hnot ⊢
            rw [E.idleTimeout] at hnot
            exact hnot
          · have heq : evictIdleLoop now (fuel + 1) t = t := by
              rw [evictIdleLoop, hlast]
              exact if_neg hidle
            rw [heq]
            refine ⟨[], Evicts.refl W, ?_⟩
            intro m hm
            rw [hlast] at hm
            obtain rfl := Option.some.inj hm
            exact hidle

theorem evictIdle_spec (W : t.WellLinked) (now : TimePoint) :
    ∃ gone, Evicts t (t.evictIdle now) gone ∧
      (0 < t.idleTimeout → ∀ n, (t.evictIdle now).recency.getLast? = some n →
        ¬ t.Idle now n.2) := by
  unfold evictIdle
  split
  · next hoff =>
    exact ⟨[], Evicts.refl W, fun hon => absurd hon (by omega)⟩
  · obtain ⟨gone, E, hstop⟩ := evictIdleLoop_spec now t.recency.length W (Nat.le_refl _)
    exact ⟨gone, E, fun _ => hstop⟩

/-- A full table loses its last node, and no other. -/
theorem evictFull_spec (W : t.WellLinked) (hmax : 0 < t.maxLeaves) :
    ∃ gone, Evicts t t.evictFull gone ∧
      (if t.maxLeaves ≤ t.recency.length then
        ∃ n, gone = [n] ∧ t.recency.getLast? = some n else gone = []) := by
  unfold evictFull
  rw [W.linked.length]
  split
  · next hfull =>
    cases hlast : t.recency.getLast? with
    | none =>
        have hnil := List.getLast?_eq_none_iff.mp hlast
        rw [hnil, List.length_nil] at hfull
        omega
    | some n =>
        obtain ⟨l, hrecency⟩ := List.getLast?_eq_some_iff.mp hlast
        exact ⟨[n], (evictOldest_spec W hrecency).1, n, rfl, rfl⟩
  · exact ⟨[], Evicts.refl W, rfl⟩

/-! ### One call -/

/-- What one call can do: nothing, move the entry of its id to the front, or put
a new entry there after evicting. -/
inductive Steps (t : LeafTable σ ρ) (c : Call σ ρ) : LeafTable σ ρ → Prop
  | missed : c.inserts = false → t.Absent c.id → Steps t c t
  | touched {l₁ l₂ : List (Nat × Entry σ ρ)} {a : Nat} {e : Entry σ ρ} :
      t.recency = l₁ ++ (a, e) :: l₂ → e.id = c.id →
      Steps t c { t with recency := (a, c.effect e) :: (l₁ ++ l₂) }
  | created {t₁ : LeafTable σ ρ} : c.inserts = true → t.Absent c.id →
      t₁ = (t.evictIdle c.now).evictFull →
      Steps t c { t₁.pushFresh c.id c.now with
        recency := (t.nextAddr, c.effect (freshEntry c.id c.now)) :: t₁.recency }

/-- The entry a call is about is at the front afterwards, and the call answers
from it. -/
def Answers (c : Call σ ρ) (t' : LeafTable σ ρ) : Result σ ρ → Prop
  | .settings s => ∀ x, s = some x → ∃ a e rest, t'.recency = (a, e) :: rest ∧ e.id = c.id ∧
      e.settings = some x
  | .resource r => ∀ x, r = some x → ∃ a e rest, t'.recency = (a, e) :: rest ∧ e.id = c.id ∧
      e.resource = some x ∧
      (∀ id hash now, c = .find id hash now → e.declaredHash = hash) ∧
      ∀ id hash new now, c = .insert id hash new now → e.declaredHash = hash
  | .anchor _ => True

theorem evictions_spec (W : t.WellLinked) (hmax : 0 < t.maxLeaves) (now : TimePoint) :
    ∃ gone, Evicts t (t.evictIdle now).evictFull gone := by
  obtain ⟨gone, E, -⟩ := evictIdle_spec W now
  have hmax' : 0 < (t.evictIdle now).maxLeaves := by rw [E.maxLeaves]; exact hmax
  obtain ⟨gone', E', -⟩ := evictFull_spec E.wellLinked hmax'
  exact ⟨_, E.trans E'⟩

theorem touchOrInsert_present (W : t.WellLinked) {l₁ l₂ : List (Nat × Entry σ ρ)} {a : Nat}
    {e : Entry σ ρ} (hsplit : t.recency = l₁ ++ (a, e) :: l₂) (hid : e.id = id) :
    t.touchOrInsert id now =
      ({ t with recency := (a, { e with lastSeen := now }) :: (l₁ ++ l₂) }, a) := by
  unfold touchOrInsert
  rw [touch_present W hsplit hid]

theorem touchOrInsert_absent (W : t.WellLinked) (h : t.Absent id) :
    t.touchOrInsert id now = (((t.evictIdle now).evictFull).pushFresh id now,
      ((t.evictIdle now).evictFull).nextAddr) := by
  unfold touchOrInsert
  rw [touch_absent W h]

/-- The node an inserting call works on: it is first, and its address is nowhere else. -/
structure Fronts (t : LeafTable σ ρ) (c : Call σ ρ) (p : LeafTable σ ρ × Nat) (e : Entry σ ρ)
    (rest : List (Nat × Entry σ ρ)) : Prop where
  recency : p.1.recency = (p.2, { e with lastSeen := c.now }) :: rest
  addr : p.2 ∉ rest.map Prod.fst
  step : Steps t c { p.1 with recency := (p.2, c.effect e) :: rest }
  id : e.id = c.id

theorem touchOrInsert_fronts (W : t.WellLinked) (hmax : 0 < t.maxLeaves) (c : Call σ ρ)
    (hc : c.inserts = true) : ∃ e rest, Fronts t c (t.touchOrInsert c.id c.now) e rest := by
  rcases absent_or_present t c.id with habsent | ⟨l₁, a, e, l₂, hsplit, hid⟩
  · obtain ⟨gone, E⟩ := evictions_spec W hmax c.now
    refine ⟨freshEntry c.id c.now, ((t.evictIdle c.now).evictFull).recency, ?_⟩
    rw [touchOrInsert_absent W habsent]
    refine ⟨rfl, ?_, ?_, rfl⟩
    · intro hmem
      obtain ⟨n, hn, heq⟩ := List.mem_map.mp hmem
      exact Nat.lt_irrefl _ (heq ▸ E.wellLinked.fresh n hn)
    · have hstep := Steps.created hc habsent rfl
      rw [← E.nextAddr] at hstep
      exact hstep
  · refine ⟨e, l₁ ++ l₂, ?_⟩
    rw [touchOrInsert_present W hsplit hid]
    exact ⟨rfl, not_mem_rest W hsplit, Steps.touched hsplit hid, hid⟩

theorem step_spec (W : t.WellLinked) (hmax : 0 < t.maxLeaves) (c : Call σ ρ) :
    Steps t c (t.step c).1 ∧ Answers c (t.step c).1 (t.step c).2 := by
  cases c with
  | settings id now =>
      simp only [step, settings]
      rcases absent_or_present t id with habsent | ⟨l₁, a, e, l₂, hsplit, hid⟩
      · rw [touch_absent W habsent]
        exact ⟨Steps.missed rfl habsent, fun x hx => by simp at hx⟩
      · rw [touch_present W hsplit hid]
        refine ⟨Steps.touched (c := .settings id now) hsplit hid, ?_⟩
        intro x hx
        dsimp only at hx
        rw [deref_cons] at hx
        exact ⟨a, _, _, rfl, hid, hx⟩
  | find id hash now =>
      simp only [step, find]
      rcases absent_or_present t id with habsent | ⟨l₁, a, e, l₂, hsplit, hid⟩
      · rw [touch_absent W habsent]
        exact ⟨Steps.missed rfl habsent, fun x hx => by simp at hx⟩
      · rw [touch_present W hsplit hid]
        refine ⟨Steps.touched (c := .find id hash now) hsplit hid, ?_⟩
        intro x hx
        dsimp only at hx
        rw [deref_cons, Option.bind_some] at hx
        split at hx
        · next hhash =>
          refine ⟨a, _, _, rfl, hid, hx, ?_, ?_⟩
          · intro id' hash' now' heq
            cases heq
            exact hhash
          · intro id' hash' new' now' heq
            cases heq
        · simp at hx
  | adoptSettings id new now =>
      obtain ⟨e, rest, F⟩ := touchOrInsert_fronts W hmax (.adoptSettings id new now) rfl
      obtain ⟨hrecency, haddr, hstep, hid⟩ := F
      have hmodify := modifyAt_cons (v := { e with lastSeen := now }) (Entry.adopt new) haddr
      simp only [step, adoptSettings]
      dsimp only [Call.id, Call.now] at hrecency hstep hmodify hid ⊢
      generalize t.touchOrInsert id now = p at hrecency haddr hstep hmodify ⊢
      rw [hrecency, hmodify]
      refine ⟨hstep, ?_⟩
      intro x hx
      rw [deref_cons] at hx
      exact ⟨p.2, _, rest, rfl, (Call.effect_id (.adoptSettings id new now) e).trans hid, hx⟩
  | insert id hash new now =>
      obtain ⟨e, rest, F⟩ := touchOrInsert_fronts W hmax (.insert id hash new now) rfl
      obtain ⟨hrecency, haddr, hstep, hid⟩ := F
      have hmodify := modifyAt_cons (v := { e with lastSeen := now }) (Entry.keep hash new) haddr
      simp only [step, insert]
      dsimp only [Call.id, Call.now] at hrecency hstep hmodify hid ⊢
      generalize t.touchOrInsert id now = p at hrecency haddr hstep hmodify ⊢
      rw [hrecency, hmodify]
      refine ⟨hstep, ?_⟩
      intro x hx
      rw [deref_cons] at hx
      have hhash : (Entry.keep hash new { e with lastSeen := now }).declaredHash = hash := by
        unfold Entry.keep
        split
        · rfl
        · next hsame =>
          push Not at hsame
          exact hsame.2
      refine ⟨p.2, _, rest, rfl, (Call.effect_id (.insert id hash new now) e).trans hid, hx, ?_, ?_⟩
      · intro id' hash' now' heq
        cases heq
      · intro id' hash' new' now' heq
        cases heq
        exact hhash
  | updateBootAnchor id sample window now =>
      obtain ⟨e, rest, F⟩ :=
        touchOrInsert_fronts W hmax (.updateBootAnchor id sample window now) rfl
      obtain ⟨hrecency, haddr, hstep, hid⟩ := F
      simp only [step, updateBootAnchor]
      dsimp only [Call.id, Call.now] at hrecency haddr hstep ⊢
      generalize t.touchOrInsert id now = p at hrecency haddr hstep ⊢
      rw [hrecency, deref_cons]
      have hmodify := modifyAt_cons (v := { e with lastSeen := now })
        (fun x : Entry σ ρ => { x with anchor := (e.anchor.update sample window).1 }) haddr
      simp only [Option.map_some, Option.getD_some]
      rw [hmodify]
      exact ⟨hstep, trivial⟩

/-! ### What every call keeps -/

structure Inv (t : LeafTable σ ρ) : Prop extends t.WellLinked where
  maxLeaves_pos : 0 < t.maxLeaves
  bounded : t.recency.length ≤ t.maxLeaves

variable {t' : LeafTable σ ρ} {c : Call σ ρ}

theorem Inv.new (maxLeaves : UInt32) (idleTimeout : Int) :
    (LeafTable.new maxLeaves idleTimeout : LeafTable σ ρ).Inv where
  linked := Linked.nil Entry.id
  fresh := by simp [LeafTable.new]
  maxLeaves_pos := by
    simp only [LeafTable.new]
    omega
  bounded := by simp [LeafTable.new]

/-- The table after the evictions of an insertion, and the nodes that went. -/
theorem Inv.evictions (I : t.Inv) (now : TimePoint) :
    ∃ gone, Evicts t (t.evictIdle now).evictFull gone ∧
      ((t.evictIdle now).evictFull).recency.length < t.maxLeaves := by
  obtain ⟨gone, E, -⟩ := evictIdle_spec I.toWellLinked now
  have hmax : 0 < (t.evictIdle now).maxLeaves := by
    rw [E.maxLeaves]
    exact I.maxLeaves_pos
  obtain ⟨gone', E', hgone'⟩ := evictFull_spec E.wellLinked hmax
  refine ⟨_, E.trans E', ?_⟩
  have hlen := congrArg List.length E.recency
  have hlen' := congrArg List.length E'.recency
  rw [List.length_append] at hlen hlen'
  have hbound := I.bounded
  have hmaxEq := E.maxLeaves
  split at hgone'
  · obtain ⟨n, rfl, -⟩ := hgone'
    rw [List.length_singleton] at hlen'
    omega
  · next hroom => omega

/-- Step lemma: every call keeps the invariant. -/
theorem Inv.steps (I : t.Inv) (S : Steps t c t') : t'.Inv := by
  cases S with
  | missed hkind habsent => exact I
  | @touched l₁ l₂ a e hsplit hid =>
      have hperm : ((a, c.effect e) :: (l₁ ++ l₂)).Perm (l₁ ++ (a, c.effect e) :: l₂) :=
        List.perm_middle.symm
      have hlinked := I.linked
      rw [hsplit] at hlinked
      refine ⟨⟨(hlinked.replace (c.effect_id e)).perm hperm, ?_⟩, I.maxLeaves_pos, ?_⟩
      · intro n hn
        rcases List.mem_cons.mp hn with rfl | hrest
        · exact I.fresh (a, e) (by rw [hsplit]; simp)
        · apply I.fresh n
          rw [hsplit]
          rcases List.mem_append.mp hrest with h | h
          · exact List.mem_append_left _ h
          · exact List.mem_append_right _ (List.mem_cons_of_mem _ h)
      · have hbound := I.bounded
        rw [hsplit, List.length_append, List.length_cons] at hbound
        change (l₁ ++ l₂).length + 1 ≤ t.maxLeaves
        rw [List.length_append]
        omega
  | @created t₁ hkind habsent ht₁ =>
      obtain ⟨gone, E, hroom⟩ := I.evictions c.now
      rw [← ht₁] at E hroom
      have hkeys : ∀ n ∈ t₁.recency, n.2.id ≠ (c.effect (freshEntry c.id c.now)).id := by
        intro n hn
        rw [c.effect_id]
        apply habsent n
        rw [E.recency]
        exact List.mem_append_left _ hn
      have haddrs : ∀ n ∈ t₁.recency, n.1 ≠ t.nextAddr := by
        intro n hn heq
        have hlt := E.wellLinked.fresh n hn
        rw [E.nextAddr, heq] at hlt
        exact Nat.lt_irrefl _ hlt
      have hlinked := E.wellLinked.linked.cons hkeys haddrs
      rw [c.effect_id] at hlinked
      refine ⟨⟨?_, ?_⟩, ?_, ?_⟩
      · rw [← E.nextAddr] at hlinked ⊢
        exact hlinked
      · intro n hn
        have hnext : t₁.nextAddr + 1 = t.nextAddr + 1 := by rw [E.nextAddr]
        change n.1 < t₁.nextAddr + 1
        rcases List.mem_cons.mp hn with rfl | hrest
        · rw [hnext]
          exact Nat.lt_succ_self _
        · exact Nat.lt_succ_of_lt (E.wellLinked.fresh n hrest)
      · change 0 < t₁.maxLeaves
        rw [E.maxLeaves]
        exact I.maxLeaves_pos
      · change t₁.recency.length + 1 ≤ t₁.maxLeaves
        rw [E.maxLeaves]
        exact hroom

theorem Inv.step (I : t.Inv) (c : Call σ ρ) : (t.step c).1.Inv :=
  I.steps (step_spec I.toWellLinked I.maxLeaves_pos c).1

/-- Run lemma. -/
theorem Inv.run (I : t.Inv) (calls : List (Call σ ρ)) : (t.run calls).Inv := by
  induction calls generalizing t with
  | nil => exact I
  | cons c calls ih => exact ih (I.step c)

theorem run_snoc (t : LeafTable σ ρ) (calls : List (Call σ ρ)) (c : Call σ ρ) :
    t.run (calls ++ [c]) = ((t.run calls).step c).1 := by
  simp [LeafTable.run]

theorem steps_maxLeaves (I : t.Inv) (S : Steps t c t') :
    t'.maxLeaves = t.maxLeaves ∧ t'.idleTimeout = t.idleTimeout ∧ t.nextAddr ≤ t'.nextAddr := by
  cases S with
  | missed hkind habsent => exact ⟨rfl, rfl, Nat.le_refl _⟩
  | touched hsplit hid => exact ⟨rfl, rfl, Nat.le_refl _⟩
  | @created t₁ hkind habsent ht₁ =>
      obtain ⟨gone, E, -⟩ := I.evictions c.now
      rw [← ht₁] at E
      refine ⟨E.maxLeaves, E.idleTimeout, ?_⟩
      change t.nextAddr ≤ t₁.nextAddr + 1
      rw [E.nextAddr]
      exact Nat.le_succ _

/-! ### Evictions are counted -/

/-- How many entries a history inserts. -/
def created (t : LeafTable σ ρ) : List (Call σ ρ) → Nat
  | [] => 0
  | c :: calls =>
      (if c.inserts && (indexFind t.index c.id).isNone then 1 else 0) + created (t.step c).1 calls

theorem steps_count (I : t.Inv) (S : Steps t c t') :
    ∃ gone : Nat,
      t.recency.length + (if c.inserts && (indexFind t.index c.id).isNone then 1 else 0) =
      gone + t'.recency.length ∧ t'.evicted = t.evicted + UInt64.ofNat gone := by
  cases S with
  | missed hkind habsent => exact ⟨0, by simp [hkind], by simp⟩
  | @touched l₁ l₂ a e hsplit hid =>
      have hfound : indexFind t.index c.id = some a :=
        I.linked.find_some.mpr ⟨e, by rw [hsplit]; simp, hid⟩
      refine ⟨0, ?_, by simp⟩
      rw [hfound, hsplit]
      simp only [Option.isNone_some, Bool.and_false, Bool.false_eq_true, if_false,
        List.length_append, List.length_cons]
      omega
  | @created t₁ hkind habsent ht₁ =>
      obtain ⟨gone, E, -⟩ := I.evictions c.now
      rw [← ht₁] at E
      have hlen := congrArg List.length E.recency
      rw [List.length_append] at hlen
      refine ⟨gone.length, ?_, E.evicted⟩
      rw [hkind, I.linked.find_none.mpr habsent, hlen]
      simp
      omega

/-- Run lemma: the entries inserted are the ones present and the ones evicted. -/
theorem run_count (I : t.Inv) (calls : List (Call σ ρ)) :
    ∃ gone : Nat, t.recency.length + t.created calls = gone + (t.run calls).recency.length ∧
      (t.run calls).evicted = t.evicted + UInt64.ofNat gone := by
  induction calls generalizing t with
  | nil => exact ⟨0, by simp [created, LeafTable.run], by simp [LeafTable.run]⟩
  | cons c calls ih =>
      obtain ⟨gone, hlen, hevicted⟩ := steps_count I (step_spec I.toWellLinked I.maxLeaves_pos c).1
      obtain ⟨gone', hlen', hevicted'⟩ := ih (I.step c)
      refine ⟨gone + gone', ?_, ?_⟩
      · have hrun : t.run (c :: calls) = (t.step c).1.run calls := rfl
        rw [hrun, created]
        omega
      · have hrun : t.run (c :: calls) = (t.step c).1.run calls := rfl
        rw [hrun, hevicted', hevicted, UInt64.ofNat_add, UInt64.add_assoc]

/-! ### The life of an entry -/

theorem Call.effect_settings (c : Call σ ρ) {e : Entry σ ρ} {s : σ} (h : e.settings = some s) :
    (c.effect e).settings = some s := by
  cases c with
  | settings id now => exact h
  | adoptSettings id new now => simp [Call.effect, Entry.adopt, h]
  | find id hash now => exact h
  | insert id hash new now =>
      simp only [Call.effect, Entry.keep]
      split <;> exact h
  | updateBootAnchor id sample window now => exact h

/-- The Resource of an entry is the one it had or the one just supplied. -/
theorem Call.effect_resource (c : Call σ ρ) {e : Entry σ ρ} {r : ρ}
    (h : (c.effect e).resource = some r) :
    (e.resource = some r ∧ (c.effect e).declaredHash = e.declaredHash) ∨
      ∃ now, c = .insert c.id (c.effect e).declaredHash (some r) now := by
  cases c with
  | settings id now => exact Or.inl ⟨h, rfl⟩
  | adoptSettings id new now =>
      left
      simp only [Call.effect, Entry.adopt] at h ⊢
      split at h
      · next hnone => exact ⟨h, by rw [if_pos hnone]⟩
      · next hsome => exact ⟨h, by rw [if_neg hsome]⟩
  | find id hash now => exact Or.inl ⟨h, rfl⟩
  | insert id hash new now =>
      simp only [Call.effect, Entry.keep] at h ⊢
      split at h
      · next hnew =>
        right
        rw [if_pos hnew]
        exact ⟨now, by rw [← h]; rfl⟩
      · next hold =>
        left
        rw [if_neg hold]
        exact ⟨h, rfl⟩
  | updateBootAnchor id sample window now => exact Or.inl ⟨h, rfl⟩

/-- `AdoptSettings` returns settings when it is given some. -/
theorem adoptSettings_some (I : t.Inv) (id : Bytes) (new : σ) (now : TimePoint) :
    ∃ s, (t.adoptSettings id (some new) now).2 = some s := by
  obtain ⟨e, rest, hrecency, haddr, -, -⟩ :=
    touchOrInsert_fronts I.toWellLinked I.maxLeaves_pos (.adoptSettings id (some new) now) rfl
  have hmodify := modifyAt_cons (v := { e with lastSeen := now }) (Entry.adopt (some new)) haddr
  dsimp only [Call.id, Call.now] at hrecency
  unfold adoptSettings
  dsimp only
  rw [hrecency]
  dsimp only [Call.id, Call.now] at hmodify
  rw [hmodify, deref_cons]
  cases hold : e.settings with
  | none => exact ⟨new, by simp [Entry.adopt]⟩
  | some s => exact ⟨s, by simp [Entry.adopt]⟩

/-- `Insert` returns a Resource when it is given one. -/
theorem insert_some (I : t.Inv) (id : Bytes) (hash : UInt64) (new : ρ) (now : TimePoint) :
    ∃ r, (t.insert id hash (some new) now).2 = some r := by
  obtain ⟨e, rest, hrecency, haddr, -, -⟩ :=
    touchOrInsert_fronts I.toWellLinked I.maxLeaves_pos (.insert id hash (some new) now) rfl
  have hmodify := modifyAt_cons (v := { e with lastSeen := now }) (Entry.keep hash (some new)) haddr
  dsimp only [Call.id, Call.now] at hrecency
  unfold insert
  dsimp only
  rw [hrecency]
  dsimp only [Call.id, Call.now] at hmodify
  rw [hmodify, deref_cons]
  cases hold : e.resource with
  | none => exact ⟨new, by simp [Entry.keep]⟩
  | some r =>
      by_cases hhash : e.declaredHash = hash
      · exact ⟨r, by simp [Entry.keep, hhash]⟩
      · exact ⟨new, by simp [Entry.keep, hhash]⟩

/-- Where the node of an address comes from: it was there with the same id, and
the call acted on it or left it alone, or the call made it. -/
theorem steps_node (I : t.Inv) (S : Steps t c t') {a : Nat} {e' : Entry σ ρ}
    (hmem : (a, e') ∈ t'.recency) :
    (∃ e, (a, e) ∈ t.recency ∧ (e' = e ∨ e.id = c.id ∧ e' = c.effect e)) ∨
      (t.Absent c.id ∧ a = t.nextAddr ∧ e' = c.effect (freshEntry c.id c.now)) := by
  cases S with
  | missed hkind habsent => exact Or.inl ⟨e', hmem, Or.inl rfl⟩
  | @touched l₁ l₂ b e hsplit hid =>
      left
      rcases List.mem_cons.mp hmem with heq | hrest
      · obtain ⟨rfl, rfl⟩ := Prod.mk.inj heq
        exact ⟨e, by rw [hsplit]; simp, Or.inr ⟨hid, rfl⟩⟩
      · refine ⟨e', ?_, Or.inl rfl⟩
        rw [hsplit]
        rcases List.mem_append.mp hrest with h | h
        · exact List.mem_append_left _ h
        · exact List.mem_append_right _ (List.mem_cons_of_mem _ h)
  | @created t₁ hkind habsent ht₁ =>
      obtain ⟨gone, E, -⟩ := I.evictions c.now
      rw [← ht₁] at E
      rcases List.mem_cons.mp hmem with heq | hrest
      · obtain ⟨rfl, rfl⟩ := Prod.mk.inj heq
        exact Or.inr ⟨habsent, rfl, rfl⟩
      · exact Or.inl ⟨e', by rw [E.recency]; exact List.mem_append_left _ hrest, Or.inl rfl⟩

/-- An entry that is still there keeps its id, and its settings once it has
them. -/
theorem run_settings (I : t.Inv) (calls : List (Call σ ρ)) {a : Nat} {e' : Entry σ ρ}
    (hmem : (a, e') ∈ (t.run calls).recency) (hold : a < t.nextAddr) :
    ∃ e, (a, e) ∈ t.recency ∧ e'.id = e.id ∧ ∀ s, e.settings = some s → e'.settings = some s := by
  induction calls generalizing t with
  | nil => exact ⟨e', hmem, rfl, fun _ h => h⟩
  | cons c calls ih =>
      have S := (step_spec I.toWellLinked I.maxLeaves_pos c).1
      have hold' : a < (t.step c).1.nextAddr :=
        Nat.lt_of_lt_of_le hold (steps_maxLeaves I S).2.2
      obtain ⟨e₁, hmem₁, hid₁, hset₁⟩ := ih (I.step c) hmem hold'
      rcases steps_node I S hmem₁ with ⟨e, he, rfl | ⟨hid, rfl⟩⟩ | ⟨-, rfl, -⟩
      · exact ⟨e₁, he, hid₁, hset₁⟩
      · refine ⟨e, he, ?_, ?_⟩
        · rw [hid₁, c.effect_id]
        · intro s hs
          exact hset₁ s (c.effect_settings hs)
      · exact absurd hold (Nat.lt_irrefl _)

/-- The entry at an address was created by some call of the history, has been
there since, and holds a Resource supplied since. -/
def Born (t : LeafTable σ ρ) (calls : List (Call σ ρ)) (a : Nat) (e : Entry σ ρ) : Prop :=
  ∃ before since, calls = before ++ since ∧ (t.run before).Absent e.id ∧
    (∀ q, q ≠ [] → q <+: since → ∃ e', (a, e') ∈ (t.run (before ++ q)).recency ∧ e'.id = e.id) ∧
    ∀ r, e.resource = some r → ∃ now, .insert e.id e.declaredHash (some r) now ∈ since

theorem Born.snoc {calls : List (Call σ ρ)} {a : Nat} {e e' : Entry σ ρ} (B : t.Born calls a e)
    (hid : e'.id = e.id) (hmem : (a, e') ∈ (t.run (calls ++ [c])).recency)
    (hres : ∀ r, e'.resource = some r →
      (e.resource = some r ∧ e'.declaredHash = e.declaredHash) ∨
        ∃ now, c = .insert e.id e'.declaredHash (some r) now) :
    t.Born (calls ++ [c]) a e' := by
  obtain ⟨before, since, rfl, habsent, hthere, hsupplied⟩ := B
  refine ⟨before, since ++ [c], by simp, by rw [hid]; exact habsent, ?_, ?_⟩
  · intro q hq hprefix
    rcases List.prefix_concat_iff.mp hprefix with rfl | hshort
    · exact ⟨e', by rw [← List.append_assoc]; exact hmem, rfl⟩
    · rw [hid]
      exact hthere q hq hshort
  · intro r hr
    rw [hid]
    rcases hres r hr with ⟨hold, hhash⟩ | ⟨now, rfl⟩
    · obtain ⟨now, hin⟩ := hsupplied r hold
      rw [hhash]
      exact ⟨now, List.mem_append_left _ hin⟩
    · exact ⟨now, by simp⟩

/-- Run lemma: every entry was born in the history. -/
theorem run_born (I : t.Inv) (hempty : t.recency = []) (calls : List (Call σ ρ)) :
    ∀ a e, (a, e) ∈ (t.run calls).recency → t.Born calls a e := by
  induction calls using List.reverseRecOn with
  | nil =>
      intro a e hmem
      simp [LeafTable.run, hempty] at hmem
  | append_singleton calls c ih =>
      intro a e' hmem
      have hmem' := hmem
      rw [run_snoc] at hmem'
      have J := I.run calls
      have S := (step_spec J.toWellLinked J.maxLeaves_pos c).1
      rcases steps_node J S hmem' with ⟨e, he, rfl | ⟨hid, rfl⟩⟩ | ⟨habsent, rfl, rfl⟩
      · exact (ih a e' he).snoc rfl hmem fun r hr => Or.inl ⟨hr, rfl⟩
      · apply (ih a e he).snoc (c.effect_id e) hmem
        intro r hr
        rw [hid]
        exact c.effect_resource hr
      · have hfresh : (c.effect (freshEntry c.id c.now : Entry σ ρ)).id = c.id := c.effect_id _
        refine ⟨calls, [c], rfl, by rw [hfresh]; exact habsent, ?_, ?_⟩
        · intro q hq hprefix
          have hq' : q = [c] := by
            rcases List.prefix_concat_iff.mp (show q <+: [] ++ [c] from hprefix) with rfl | hnil
            · rfl
            · exact absurd (List.prefix_nil.mp hnil) hq
          rw [hq']
          exact ⟨_, hmem, rfl⟩
        · intro r hr
          rw [hfresh]
          rcases c.effect_resource hr with ⟨hold, -⟩ | ⟨now, heq⟩
          · simp [freshEntry] at hold
          · exact ⟨now, by rw [← heq]; simp⟩

/-! ### Last sightings -/

/-- The entry at an address was last seen at the last call of the history that names its
id, and has been at that address since. -/
def Sighted (t : LeafTable σ ρ) (calls : List (Call σ ρ)) (a : Nat) (e : Entry σ ρ) : Prop :=
  ∃ before sighting after, calls = before ++ sighting :: after ∧ sighting.id = e.id ∧
    sighting.now = e.lastSeen ∧ (∀ c ∈ after, c.id ≠ e.id) ∧
    ∀ q, q <+: after →
      ∃ e', (a, e') ∈ (t.run (before ++ sighting :: q)).recency ∧ e'.id = e.id

/-- An entry of the id a call names has been seen by the call. -/
theorem steps_sighted (I : t.Inv) (S : Steps t c t') {a : Nat} {e : Entry σ ρ}
    (hmem : (a, e) ∈ t'.recency) (hid : e.id = c.id) : e.lastSeen = c.now := by
  cases S with
  | missed hkind habsent => exact absurd hid (habsent (a, e) hmem)
  | @touched l₁ l₂ b e' hsplit hid' =>
      rcases List.mem_cons.mp hmem with heq | hrest
      · obtain ⟨-, rfl⟩ := Prod.mk.inj heq
        exact c.effect_lastSeen e'
      · have hlinked := I.linked
        rw [hsplit] at hlinked
        exact absurd (hid.trans hid'.symm) (hlinked.key_ne_rest (a, e) hrest)
  | @created t₁ hkind habsent ht₁ =>
      obtain ⟨gone, E, -⟩ := I.evictions c.now
      rw [← ht₁] at E
      rcases List.mem_cons.mp hmem with heq | hrest
      · obtain ⟨-, rfl⟩ := Prod.mk.inj heq
        exact c.effect_lastSeen _
      · have hold : (a, e) ∈ t.recency := by
          rw [E.recency]
          exact List.mem_append_left _ hrest
        exact absurd hid (habsent (a, e) hold)

/-- A call that names another id leaves the last sighting what it was. -/
theorem Sighted.snoc {calls : List (Call σ ρ)} {a : Nat} {e : Entry σ ρ}
    (H : t.Sighted calls a e) (hid : c.id ≠ e.id)
    (hmem : (a, e) ∈ (t.run (calls ++ [c])).recency) : t.Sighted (calls ++ [c]) a e := by
  obtain ⟨before, sighting, after, rfl, hnamed, hnow, hothers, hthere⟩ := H
  refine ⟨before, sighting, after ++ [c], by simp, hnamed, hnow, ?_, ?_⟩
  · intro c' hc'
    rcases List.mem_append.mp hc' with hafter | hlast
    · exact hothers c' hafter
    · exact List.mem_singleton.mp hlast ▸ hid
  · intro q hprefix
    rcases List.prefix_concat_iff.mp hprefix with rfl | hshort
    · refine ⟨e, ?_, rfl⟩
      rw [← List.cons_append, ← List.append_assoc]
      exact hmem
    · exact hthere q hshort

/-- Run lemma: every entry carries the time of its last sighting. -/
theorem run_sighted (I : t.Inv) (hempty : t.recency = []) (calls : List (Call σ ρ)) :
    ∀ a e, (a, e) ∈ (t.run calls).recency → t.Sighted calls a e := by
  induction calls using List.reverseRecOn with
  | nil =>
      intro a e hmem
      simp [LeafTable.run, hempty] at hmem
  | append_singleton calls c ih =>
      intro a e hmem
      have hmem' := hmem
      rw [run_snoc] at hmem'
      have J := I.run calls
      have S := (step_spec J.toWellLinked J.maxLeaves_pos c).1
      by_cases hid : e.id = c.id
      · refine ⟨calls, c, [], rfl, hid.symm, (steps_sighted J S hmem' hid).symm, ?_, ?_⟩
        · intro c' hc'
          cases hc'
        · intro q hprefix
          rw [List.prefix_nil.mp hprefix]
          exact ⟨e, hmem, rfl⟩
      · have hold : (a, e) ∈ (t.run calls).recency := by
          rcases steps_node J S hmem' with ⟨e₀, he₀, rfl | ⟨hnamed, rfl⟩⟩ | ⟨-, -, rfl⟩
          · exact he₀
          · exact absurd ((c.effect_id e₀).trans hnamed) hid
          · exact absurd (c.effect_id _) hid
        exact (ih a e hold).snoc (Ne.symm hid) hmem

/-! ### Order of sighting -/

/-- The list is in order of last sighting. -/
def Ordered (t : LeafTable σ ρ) : Prop :=
  t.recency.Pairwise fun m n => n.2.lastSeen ≤ m.2.lastSeen

def SeenBy (t : LeafTable σ ρ) (now : TimePoint) : Prop := ∀ n ∈ t.recency, n.2.lastSeen ≤ now

theorem steps_ordered (I : t.Inv) (S : Steps t c t') (hord : t.Ordered) (hseen : t.SeenBy c.now) :
    t'.Ordered ∧ t'.SeenBy c.now := by
  cases S with
  | missed hkind habsent => exact ⟨hord, hseen⟩
  | @touched l₁ l₂ a e hsplit hid =>
      have hsub : (l₁ ++ l₂).Sublist t.recency := by
        rw [hsplit]
        exact List.Sublist.append_left (List.sublist_cons_self _ _) l₁
      have hrest : ∀ n ∈ l₁ ++ l₂, n.2.lastSeen ≤ c.now := fun n hn => hseen n (hsub.subset hn)
      refine ⟨?_, ?_⟩
      · apply List.pairwise_cons.mpr
        refine ⟨?_, List.Pairwise.sublist hsub hord⟩
        intro n hn
        rw [c.effect_lastSeen]
        exact hrest n hn
      · intro n hn
        rcases List.mem_cons.mp hn with rfl | hn
        · exact le_of_eq (c.effect_lastSeen e)
        · exact hrest n hn
  | @created t₁ hkind habsent ht₁ =>
      obtain ⟨gone, E, -⟩ := I.evictions c.now
      rw [← ht₁] at E
      have hsub : t₁.recency.Sublist t.recency := by
        rw [E.recency]
        exact List.sublist_append_left _ _
      have hrest : ∀ n ∈ t₁.recency, n.2.lastSeen ≤ c.now := fun n hn => hseen n (hsub.subset hn)
      refine ⟨?_, ?_⟩
      · apply List.pairwise_cons.mpr
        refine ⟨?_, List.Pairwise.sublist hsub hord⟩
        intro n hn
        rw [c.effect_lastSeen]
        exact hrest n hn
      · intro n hn
        rcases List.mem_cons.mp hn with rfl | hn
        · exact le_of_eq (c.effect_lastSeen _)
        · exact hrest n hn

/-- Run lemma: with non-decreasing times the list stays in order. -/
theorem run_ordered (I : t.Inv) (hempty : t.recency = []) (calls : List (Call σ ρ))
    (htimes : (calls.map Call.now).Pairwise (· ≤ ·)) :
    (t.run calls).Ordered ∧ ∀ now, (∀ c ∈ calls, c.now ≤ now) → (t.run calls).SeenBy now := by
  induction calls using List.reverseRecOn with
  | nil => exact ⟨by simp [LeafTable.run, Ordered, hempty], by simp [LeafTable.run, SeenBy, hempty]⟩
  | append_singleton calls c ih =>
      rw [List.map_append, List.pairwise_append] at htimes
      obtain ⟨hbefore, -, hlast⟩ := htimes
      have hle : ∀ c' ∈ calls, c'.now ≤ c.now := by
        intro c' hc'
        exact hlast _ (List.mem_map_of_mem hc') _ (by simp)
      obtain ⟨hord, hseen⟩ := ih hbefore
      have J := I.run calls
      have S := (step_spec J.toWellLinked J.maxLeaves_pos c).1
      obtain ⟨hord', hseen'⟩ := steps_ordered J S hord (hseen c.now hle)
      rw [run_snoc]
      refine ⟨hord', ?_⟩
      intro now hnow n hn
      exact le_trans (hseen' n hn) (hnow c (by simp))

theorem Ordered.last_le (hord : t.Ordered) {n : Nat × Entry σ ρ}
    (hlast : t.recency.getLast? = some n) : ∀ m ∈ t.recency, n.2.lastSeen ≤ m.2.lastSeen := by
  obtain ⟨l, hl⟩ := List.getLast?_eq_some_iff.mp hlast
  intro m hm
  unfold Ordered at hord
  rw [hl, List.pairwise_append] at hord
  rw [hl] at hm
  rcases List.mem_append.mp hm with hm | hm
  · exact hord.2.2 m hm n (by simp)
  · rw [List.mem_singleton.mp hm]

/-- What an insertion into a table in order leaves: no idle entry, and of a full
table every entry but the least recently seen. -/
theorem insertion_spec (I : t.Inv) (hord : t.Ordered) (hc : c.inserts = true)
    (habsent : t.Absent c.id) :
    (0 < t.idleTimeout → ∀ n ∈ (t.step c).1.recency, c.now - n.2.lastSeen ≤ t.idleTimeout) ∧
      ∃ n, n.2.id = c.id ∧
        (if t.maxLeaves ≤ (t.evictIdle c.now).recency.length then
          ∃ kept old, (t.evictIdle c.now).recency = kept ++ [old] ∧
            (t.step c).1.recency = n :: kept ∧ ∀ m ∈ kept, old.2.lastSeen ≤ m.2.lastSeen
        else (t.step c).1.recency = n :: (t.evictIdle c.now).recency) := by
  obtain ⟨gone, E, hstop⟩ := evictIdle_spec I.toWellLinked c.now
  have hmax : 0 < (t.evictIdle c.now).maxLeaves := by
    rw [E.maxLeaves]
    exact I.maxLeaves_pos
  obtain ⟨gone', E', hfull⟩ := evictFull_spec E.wellLinked hmax
  rw [E.maxLeaves] at hfull
  have hord₁ : (t.evictIdle c.now).Ordered := by
    apply List.Pairwise.sublist _ hord
    rw [E.recency]
    exact List.sublist_append_left _ _
  have hrecency : (t.step c).1.recency =
      (t.nextAddr, c.effect (freshEntry c.id c.now)) ::
        ((t.evictIdle c.now).evictFull).recency := by
    have S := (step_spec I.toWellLinked I.maxLeaves_pos c).1
    generalize (t.step c).1 = t' at S ⊢
    cases S with
    | missed hkind _ =>
        rw [hc] at hkind
        cases hkind
    | @touched l₁ l₂ a e hsplit hid => exact absurd hid (habsent (a, e) (by rw [hsplit]; simp))
    | @created t₁ _ _ ht₁ => rw [ht₁]
  rw [hrecency]
  refine ⟨?_, (t.nextAddr, c.effect (freshEntry c.id c.now)), c.effect_id _, ?_⟩
  · intro hon n hn
    rcases List.mem_cons.mp hn with rfl | hn
    · have hzero : c.now - c.now = (0 : Int) := sub_self (c.now : Int)
      rw [c.effect_lastSeen, hzero]
      exact le_of_lt hon
    · have hn₁ : n ∈ (t.evictIdle c.now).recency := by
        rw [E'.recency]
        exact List.mem_append_left _ hn
      cases hlast : (t.evictIdle c.now).recency.getLast? with
      | none =>
          rw [List.getLast?_eq_none_iff.mp hlast] at hn₁
          simp at hn₁
      | some old =>
          have hle := hord₁.last_le hlast n hn₁
          have hnot := hstop hon old hlast
          unfold Idle at hnot
          push Not at hnot
          have hless : c.now - n.2.lastSeen ≤ (c.now - old.2.lastSeen : Int) :=
            sub_le_sub_left hle c.now
          exact le_trans hless hnot
  · split
    · next hsize =>
      rw [if_pos hsize] at hfull
      obtain ⟨old, rfl, hlast⟩ := hfull
      refine ⟨((t.evictIdle c.now).evictFull).recency, old, E'.recency, rfl, ?_⟩
      intro m hm
      apply hord₁.last_le hlast
      rw [E'.recency]
      exact List.mem_append_left _ hm
    · next hsize =>
      rw [if_neg hsize] at hfull
      have hsame := E'.recency
      rw [hfull, List.append_nil] at hsame
      rw [hsame]

/-- Run lemma: the capacity and the timeout are those of construction. -/
theorem run_params (I : t.Inv) (calls : List (Call σ ρ)) :
    (t.run calls).maxLeaves = t.maxLeaves ∧ (t.run calls).idleTimeout = t.idleTimeout := by
  induction calls using List.reverseRecOn with
  | nil => exact ⟨rfl, rfl⟩
  | append_singleton calls c ih =>
      have J := I.run calls
      have S := (step_spec J.toWellLinked J.maxLeaves_pos c).1
      obtain ⟨hmax, hidle, -⟩ := steps_maxLeaves J S
      rw [run_snoc]
      exact ⟨hmax.trans ih.1, hidle.trans ih.2⟩

/-! ### Every history -/

/-- The Resource comes from an `Insert` under this id and hash, made since the
entry of the id was created. -/
def SuppliedSince (t : LeafTable σ ρ) (calls : List (Call σ ρ)) (id : Bytes) (hash : UInt64)
    (r : ρ) : Prop :=
  ∃ before since a, calls = before ++ since ∧ (t.run before).Absent id ∧
    (∀ q, q ≠ [] → q <+: since → ∃ e, (a, e) ∈ (t.run (before ++ q)).recency ∧ e.id = id) ∧
    ∃ now, .insert id hash (some r) now ∈ since

theorem step_supplied (I : t.Inv) (hempty : t.recency = []) (calls : List (Call σ ρ)) (r : ρ)
    (hr : ((t.run calls).step c).2 = .resource (some r)) :
    (∀ id hash now, c = .find id hash now → t.SuppliedSince (calls ++ [c]) id hash r) ∧
      ∀ id hash new now, c = .insert id hash new now →
        t.SuppliedSince (calls ++ [c]) id hash r := by
  have J := I.run calls
  have hans := (step_spec J.toWellLinked J.maxLeaves_pos c).2
  rw [hr] at hans
  obtain ⟨a, e, rest, hfront, hid, hres, hfind, hinsert⟩ := hans r rfl
  have hborn : t.Born (calls ++ [c]) a e := by
    apply run_born I hempty
    rw [run_snoc, hfront]
    simp
  obtain ⟨before, since, hsplit, habsent, hthere, hsupplied⟩ := hborn
  obtain ⟨now', hin⟩ := hsupplied r hres
  refine ⟨?_, ?_⟩
  · intro id hash now hc
    have heid : e.id = id := by rw [hid, hc]; rfl
    have hhash := hfind id hash now hc
    rw [heid] at habsent hthere hin
    rw [hhash] at hin
    exact ⟨before, since, a, hsplit, habsent, hthere, now', hin⟩
  · intro id hash new now hc
    have heid : e.id = id := by rw [hid, hc]; rfl
    have hhash := hinsert id hash new now hc
    rw [heid] at habsent hthere hin
    rw [hhash] at hin
    exact ⟨before, since, a, hsplit, habsent, hthere, now', hin⟩

/-- The leaf table, over every history of calls. -/
theorem table_history (maxLeaves : UInt32) (idleTimeout : Int) (calls : List (Call σ ρ)) :
    let init : LeafTable σ ρ := LeafTable.new maxLeaves idleTimeout
    let t := init.run calls
    Linked Entry.id t.recency t.index ∧
    t.size ≤ max maxLeaves.toNat 1 ∧
    (t.size ≤ init.created calls ∧ t.evicted = UInt64.ofNat (init.created calls - t.size)) ∧
    (∀ c r, (t.step c).2 = .resource (some r) →
      (∀ id hash now, c = .find id hash now → init.SuppliedSince (calls ++ [c]) id hash r) ∧
      ∀ id hash new now, c = .insert id hash new now →
        init.SuppliedSince (calls ++ [c]) id hash r) ∧
    (∀ more a e e' s, (a, e) ∈ t.recency → (a, e') ∈ (t.run more).recency →
      e.settings = some s → e'.settings = some s) ∧
    (∀ a e, (a, e) ∈ t.recency → init.Sighted calls a e) ∧
    ((calls.map Call.now).Pairwise (· ≤ ·) → t.Ordered ∧
      ∀ c, c.inserts = true → t.Absent c.id → (∀ c' ∈ calls, c'.now ≤ c.now) →
        (0 < idleTimeout → ∀ n ∈ (t.step c).1.recency, c.now - n.2.lastSeen ≤ idleTimeout) ∧
        ∃ n, n.2.id = c.id ∧
          (if max maxLeaves.toNat 1 ≤ (t.evictIdle c.now).size then
            ∃ kept old, (t.evictIdle c.now).recency = kept ++ [old] ∧
              (t.step c).1.recency = n :: kept ∧ ∀ m ∈ kept, old.2.lastSeen ≤ m.2.lastSeen
          else (t.step c).1.recency = n :: (t.evictIdle c.now).recency)) := by
  intro init t
  have I₀ : init.Inv := Inv.new maxLeaves idleTimeout
  have I : t.Inv := I₀.run calls
  have hparams : t.maxLeaves = max maxLeaves.toNat 1 ∧ t.idleTimeout = idleTimeout :=
    run_params I₀ calls
  have hsize : t.size = t.recency.length := I.linked.length
  obtain ⟨gone, hcount, hevicted⟩ := run_count I₀ calls
  have hstart : init.recency.length = 0 := rfl
  change init.recency.length + init.created calls = gone + t.recency.length at hcount
  refine ⟨I.linked, ?_, ⟨?_, ?_⟩, ?_, ?_, run_sighted I₀ rfl calls, ?_⟩
  · rw [hsize, ← hparams.1]
    exact I.bounded
  · rw [hsize]
    omega
  · have hgone : init.created calls - t.size = gone := by
      rw [hsize]
      omega
    rw [hgone, hevicted]
    exact UInt64.zero_add _
  · intro c r hr
    exact step_supplied I₀ rfl calls r hr
  · intro more a e e' s he he' hs
    obtain ⟨e₀, he₀, -, hkeep⟩ := run_settings I more he' (I.fresh (a, e) he)
    have hsame : (a, e₀) = (a, e) := List.inj_on_of_nodup_map I.linked.addrs he₀ he rfl
    rw [(Prod.mk.inj hsame).2] at hkeep
    exact hkeep s hs
  · intro htimes
    obtain ⟨hord, -⟩ := run_ordered I₀ rfl calls htimes
    refine ⟨hord, ?_⟩
    intro c hc habsent _
    have hspec := insertion_spec I hord hc habsent
    rw [hparams.1, hparams.2] at hspec
    obtain ⟨gone', E, -⟩ := evictIdle_spec I.toWellLinked c.now
    have hlen : (t.evictIdle c.now).size = (t.evictIdle c.now).recency.length :=
      E.wellLinked.linked.length
    rw [hlen]
    exact hspec

/-- Two leaves, the first of which is seen again. -/
def sightings : List (Call Nat Nat) :=
  [.insert [0x61] 1 (some 1) 10, .insert [0x62] 2 (some 2) 20, .find [0x61] 1 30]

/-- A third leaf at 40 takes the place of the second one, last seen at 20. -/
theorem table_history_touched :
    let t : LeafTable Nat Nat := (LeafTable.new 2 25).run sightings
    let third : Call Nat Nat := .insert [0x63] 3 (some 3) 40
    t.recency.map (fun n => (n.1, n.2.id, n.2.lastSeen)) =
        [(0, [0x61], 30), (1, [0x62], 20)] ∧
      (t.step third).1.recency.map (fun n => (n.1, n.2.id, n.2.lastSeen)) =
        [(2, [0x63], 40), (0, [0x61], 30)] ∧
      (∀ a e, (a, e) ∈ t.recency → (LeafTable.new 2 25).Sighted sightings a e) ∧
      t.Ordered ∧
      (∀ n ∈ (t.step third).1.recency, 40 - n.2.lastSeen ≤ 25) ∧
      ∃ n kept old, n.2.id = [0x63] ∧ (t.evictIdle 40).recency = kept ++ [old] ∧
        (t.step third).1.recency = n :: kept ∧ ∀ m ∈ kept, old.2.lastSeen ≤ m.2.lastSeen := by
  intro t third
  obtain ⟨-, -, -, -, -, hsighted, hordered⟩ := table_history 2 25 sightings
  have habsent : t.Absent third.id := by
    unfold Absent
    decide
  obtain ⟨hord, hinsertion⟩ := hordered (by decide)
  obtain ⟨hidle, n, hid, hfull⟩ := hinsertion third rfl habsent (by decide)
  rw [if_pos (by decide)] at hfull
  obtain ⟨kept, old, hkept, hstep, hleast⟩ := hfull
  exact ⟨by decide, by decide, hsighted, hord, hidle (by decide), n, kept, old, hid, hkept, hstep,
    hleast⟩

end Microtel.Concentrator.LeafTable
