import Microtel.Concentrator.Table

/-!
Histories of the unknown-leaf cache: the list and the index stay in step and
within the capacity, and an answer is as old as the call that cached it,
however often it is looked up or cached again.
-/

namespace Microtel.Concentrator.UnknownLeafCache

open LinkedIndex

/-- A public call on the cache. -/
inductive Call
  | contains (id : Bytes) (now : TimePoint)
  | insert (id : Bytes) (now : TimePoint)

def Call.id : Call → Bytes
  | .contains id _ | .insert id _ => id

def step (c : UnknownLeafCache) : Call → UnknownLeafCache × Bool
  | .contains id now => c.contains id now
  | .insert id now => (c.insert id now, false)

/-- The cache after a history of calls. -/
def run (c : UnknownLeafCache) (calls : List Call) : UnknownLeafCache :=
  calls.foldl (fun c call => (c.step call).1) c

theorem run_snoc (c : UnknownLeafCache) (calls : List Call) (call : Call) :
    c.run (calls ++ [call]) = ((c.run calls).step call).1 := by
  simp [run]

/-- The list and the index agree, the next address is new, and the cache is
within its capacity. -/
structure Inv (c : UnknownLeafCache) : Prop where
  linked : Linked Answer.id c.age c.index
  fresh : ∀ n ∈ c.age, n.1 < c.nextAddr
  capacity_pos : 0 < c.capacity
  bounded : c.index.length ≤ c.capacity

theorem Inv.new (capacity : UInt32) (ttl : Int) : (UnknownLeafCache.new capacity ttl).Inv where
  linked := Linked.nil _
  fresh := by simp [UnknownLeafCache.new]
  capacity_pos := by simp [UnknownLeafCache.new]
  bounded := by simp [UnknownLeafCache.new]

def Absent (c : UnknownLeafCache) (id : Bytes) : Prop := ∀ n ∈ c.age, n.2.id ≠ id

variable {c c' : UnknownLeafCache} {id : Bytes} {now : TimePoint} {call : Call}

/-! ### Dropping answers -/

/-- Some answers are gone; the rest of the cache is as it was. -/
structure Drops (c c' : UnknownLeafCache) : Prop where
  age : c'.age.Sublist c.age
  inv : c'.Inv
  capacity : c'.capacity = c.capacity
  ttl : c'.ttl = c.ttl
  nextAddr : c'.nextAddr = c.nextAddr

theorem Drops.refl (I : c.Inv) : Drops c c := ⟨List.Sublist.refl _, I, rfl, rfl, rfl⟩

theorem Drops.trans {c'' : UnknownLeafCache} (D : Drops c c') (D' : Drops c' c'') : Drops c c'' :=
  ⟨D'.age.trans D.age, D'.inv, D'.capacity.trans D.capacity, D'.ttl.trans D.ttl,
    D'.nextAddr.trans D.nextAddr⟩

theorem erase_drops (I : c.Inv) {l₁ l₂ : List (Nat × Answer)} {a : Nat} {answer : Answer}
    (hsplit : c.age = l₁ ++ (a, answer) :: l₂) :
    Drops c (c.erase a) ∧ (c.erase a).age = l₁ ++ l₂ ∧
      (c.erase a).index.length < c.index.length := by
  have hmem : (a, answer) ∈ c.age := by
    rw [hsplit]
    simp
  have hage : (c.age.eraseP fun n => n.1 = a) = l₁ ++ l₂ :=
    eraseP_addr (n := (a, answer)) hsplit I.linked.addrs
  have heq : c.erase a = { c with index := indexErase c.index answer.id, age := l₁ ++ l₂ } := by
    unfold erase
    rw [deref_eq I.linked.addrs hmem]
    dsimp only
    rw [hage]
  have hlinked := I.linked
  rw [hsplit] at hlinked
  have hless : (indexErase c.index answer.id).length < c.index.length := by
    rw [hlinked.erase.length, I.linked.length, hsplit]
    simp
  have hsub : (l₁ ++ l₂).Sublist c.age := by
    rw [hsplit]
    exact List.Sublist.append_left (List.sublist_cons_self _ _) l₁
  rw [heq]
  refine ⟨⟨hsub, ⟨hlinked.erase, fun n hn => I.fresh n (hsub.subset hn), I.capacity_pos, ?_⟩,
    rfl, rfl, rfl⟩, rfl, hless⟩
  exact le_trans (le_of_lt hless) I.bounded

theorem dropExpired_drops (now : TimePoint) (fuel : Nat) (I : c.Inv) :
    Drops c (dropExpired now fuel c) := by
  induction fuel generalizing c with
  | zero => exact Drops.refl I
  | succ fuel ih =>
      unfold dropExpired
      split
      · exact Drops.refl I
      · next n rest hage =>
        split
        · obtain ⟨a, answer⟩ := n
          have hsplit : c.age = [] ++ (a, answer) :: rest := hage
          have D := (erase_drops I hsplit).1
          exact D.trans (ih D.inv)
        · exact Drops.refl I

/-- Room for one more answer. -/
theorem dropOldest_drops (I : c.Inv) :
    Drops c c.dropOldest ∧ c.dropOldest.index.length < c.capacity := by
  unfold dropOldest
  split
  · next hage =>
    refine ⟨Drops.refl I, ?_⟩
    rw [I.linked.length, hage]
    exact I.capacity_pos
  · next n rest hage =>
    split
    · obtain ⟨a, answer⟩ := n
      have hsplit : c.age = [] ++ (a, answer) :: rest := hage
      obtain ⟨D, -, hless⟩ := erase_drops I hsplit
      exact ⟨D, lt_of_lt_of_le hless I.bounded⟩
    · next hroom => exact ⟨Drops.refl I, Nat.not_le.mp hroom⟩

/-! ### One call -/

theorem absent_or_present (c : UnknownLeafCache) (id : Bytes) :
    c.Absent id ∨ ∃ l₁ a answer l₂, c.age = l₁ ++ (a, answer) :: l₂ ∧ answer.id = id := by
  by_cases h : c.Absent id
  · exact Or.inl h
  · right
    unfold Absent at h
    push Not at h
    obtain ⟨⟨a, answer⟩, hmem, hid⟩ := h
    obtain ⟨l₁, l₂, hsplit⟩ := List.append_of_mem hmem
    exact ⟨l₁, a, answer, l₂, hsplit, hid⟩

/-- A lookup answers from a cached answer within its time, and drops at most an
expired one. -/
theorem contains_spec (I : c.Inv) (id : Bytes) (now : TimePoint) :
    Drops c (c.contains id now).1 ∧
      ((c.contains id now).2 = true →
        (c.contains id now).1 = c ∧ ∃ n ∈ c.age, n.2.id = id ∧ now - n.2.cachedAt ≤ c.ttl) := by
  rcases absent_or_present c id with habsent | ⟨l₁, a, answer, l₂, hsplit, hid⟩
  · unfold contains
    rw [I.linked.find_none.mpr habsent]
    exact ⟨Drops.refl I, fun h => by cases h⟩
  · have hmem : (a, answer) ∈ c.age := by
      rw [hsplit]
      simp
    unfold contains
    rw [I.linked.find_some.mpr ⟨answer, hmem, hid⟩]
    dsimp only
    rw [deref_eq I.linked.addrs hmem]
    dsimp only
    split
    · exact ⟨(erase_drops I hsplit).1, fun h => by cases h⟩
    · next hfresh => exact ⟨Drops.refl I, fun _ => ⟨rfl, (a, answer), hmem, hid, not_lt.mp hfresh⟩⟩

/-- Caching an id that is cached changes nothing; else the answer is last, with
this time. -/
theorem insert_spec (I : c.Inv) (id : Bytes) (now : TimePoint) :
    (c.insert id now).Inv ∧ (c.insert id now).capacity = c.capacity ∧
      (c.insert id now).ttl = c.ttl ∧
      (c.insert id now = c ∨
        c.Absent id ∧ ∃ kept, kept.Sublist c.age ∧
          (c.insert id now).age = kept ++ [(c.nextAddr, ⟨id, now⟩)]) := by
  rcases absent_or_present c id with habsent | ⟨l₁, a, answer, l₂, hsplit, hid⟩
  · have D := dropExpired_drops now c.age.length I
    obtain ⟨D', hroom⟩ := dropOldest_drops D.inv
    have E := D.trans D'
    rw [D.capacity] at hroom
    unfold insert
    rw [I.linked.find_none.mpr habsent]
    simp only [Option.isSome_none, Bool.false_eq_true, if_false]
    generalize (dropExpired now c.age.length c).dropOldest = c₁ at E hroom ⊢
    have hkeys : ∀ n ∈ c₁.age, n.2.id ≠ id := fun n hn => habsent n (E.age.subset hn)
    have haddrs : ∀ n ∈ c₁.age, n.1 ≠ c₁.nextAddr := fun n hn => ne_of_lt (E.inv.fresh n hn)
    have hlinked := (E.inv.linked.cons (v := (⟨id, now⟩ : Answer)) hkeys haddrs).perm
      (List.perm_append_singleton (c₁.nextAddr, (⟨id, now⟩ : Answer)) c₁.age)
    refine ⟨⟨hlinked, ?_, ?_, ?_⟩, E.capacity, E.ttl, Or.inr ⟨habsent, c₁.age, E.age, ?_⟩⟩
    · intro n hn
      rcases List.mem_append.mp hn with hn | hn
      · exact Nat.lt_succ_of_lt (E.inv.fresh n hn)
      · rw [List.mem_singleton.mp hn]
        exact Nat.lt_succ_self _
    · dsimp only
      rw [E.capacity]
      exact I.capacity_pos
    · dsimp only
      rw [hlinked.length, List.length_append, List.length_singleton,
        ← E.inv.linked.length, E.capacity]
      exact hroom
    · rw [E.nextAddr]
  · have hmem : (a, answer) ∈ c.age := by
      rw [hsplit]
      simp
    have hsame : c.insert id now = c := by
      unfold insert
      rw [I.linked.find_some.mpr ⟨answer, hmem, hid⟩]
      rfl
    rw [hsame]
    exact ⟨I, rfl, rfl, Or.inl rfl⟩

/-- Step lemma: every answer was there before, or the call has just cached it
for an id that had none. -/
theorem step_answers (I : c.Inv) (call : Call) :
    (c.step call).1.Inv ∧ (c.step call).1.capacity = c.capacity ∧ (c.step call).1.ttl = c.ttl ∧
      ∀ n ∈ (c.step call).1.age, n ∈ c.age ∨ c.Absent n.2.id ∧
        call = .insert n.2.id n.2.cachedAt := by
  cases call with
  | contains id now =>
      have D := (contains_spec I id now).1
      exact ⟨D.inv, D.capacity, D.ttl, fun n hn => Or.inl (D.age.subset hn)⟩
  | insert id now =>
      obtain ⟨inv, capacity, ttl, hage⟩ := insert_spec I id now
      refine ⟨inv, capacity, ttl, ?_⟩
      intro n hn
      change n ∈ (c.insert id now).age at hn
      rcases hage with heq | ⟨habsent, kept, hsub, heq⟩
      · rw [heq] at hn
        exact Or.inl hn
      · rw [heq] at hn
        rcases List.mem_append.mp hn with hn | hn
        · exact Or.inl (hsub.subset hn)
        · rw [List.mem_singleton.mp hn]
          exact Or.inr ⟨habsent, rfl⟩

/-! ### Every history -/

theorem run_inv (I : c.Inv) (calls : List Call) :
    (c.run calls).Inv ∧ (c.run calls).capacity = c.capacity ∧ (c.run calls).ttl = c.ttl := by
  induction calls using List.reverseRecOn with
  | nil => exact ⟨I, rfl, rfl⟩
  | append_singleton calls call ih =>
      obtain ⟨inv, capacity, ttl⟩ := ih
      obtain ⟨inv', capacity', ttl', -⟩ := step_answers inv call
      rw [run_snoc]
      exact ⟨inv', capacity'.trans capacity, ttl'.trans ttl⟩

/-- The answer for the id was cached by an `Insert` at this time that found
none, and has been there since. -/
def CachedSince (c : UnknownLeafCache) (calls : List Call) (id : Bytes) (t : TimePoint) : Prop :=
  ∃ before since, calls = before ++ .insert id t :: since ∧ (c.run before).Absent id ∧
    ∀ q, q <+: since → ∃ n ∈ (c.run (before ++ .insert id t :: q)).age, n.2 = ⟨id, t⟩

/-- Run lemma: every answer is as old as the call that cached it. -/
theorem run_cachedSince (I : c.Inv) (hempty : c.age = []) (calls : List Call) :
    ∀ n ∈ (c.run calls).age, c.CachedSince calls n.2.id n.2.cachedAt := by
  induction calls using List.reverseRecOn with
  | nil =>
      intro n hn
      change n ∈ c.age at hn
      rw [hempty] at hn
      cases hn
  | append_singleton calls call ih =>
      intro n hn
      have hnow := hn
      rw [run_snoc] at hn
      rcases (step_answers (run_inv I calls).1 call).2.2.2 n hn with hold | ⟨habsent, rfl⟩
      · obtain ⟨before, since, rfl, habsent, hthere⟩ := ih n hold
        refine ⟨before, since ++ [call], by simp, habsent, ?_⟩
        intro q hprefix
        rcases List.prefix_concat_iff.mp hprefix with rfl | hshort
        · exact ⟨n, by simpa using hnow, rfl⟩
        · exact hthere q hshort
      · refine ⟨calls, [], rfl, habsent, ?_⟩
        intro q hprefix
        rw [List.prefix_nil.mp hprefix]
        exact ⟨n, hnow, rfl⟩

end Microtel.Concentrator.UnknownLeafCache
