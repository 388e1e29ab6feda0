import Mathlib.Tactic

/-!
A doubly linked list with a hash index over it, as `std::list` and
`std::unordered_map` of iterators are used for caches. A list node is a pair of
its address and its value; the index maps keys to addresses. `Linked` says that
the two structures describe the same entries, one per key.
-/

namespace LinkedIndex

variable {κ α : Type}

section

variable [DecidableEq κ]

/-- `unordered_map::find`. -/
def indexFind (index : List (κ × Nat)) (key : κ) : Option Nat :=
  (index.find? fun p => p.1 = key).map Prod.snd

/-- `unordered_map::erase`. -/
def indexErase (index : List (κ × Nat)) (key : κ) : List (κ × Nat) :=
  index.filter fun p => p.1 ≠ key

/-- `unordered_map::emplace`, which keeps a value the key already has. -/
def indexEmplace (index : List (κ × Nat)) (key : κ) (addr : Nat) : List (κ × Nat) :=
  if (indexFind index key).isSome then index else (key, addr) :: index

end

/-- `list::splice` of one node to the front. -/
def spliceFront (addr : Nat) (nodes : List (Nat × α)) : List (Nat × α) :=
  match nodes.find? fun n => n.1 = addr with
  | some n => n :: nodes.eraseP fun n => n.1 = addr
  | none => nodes

/-- The value a list node holds. -/
def deref (nodes : List (Nat × α)) (addr : Nat) : Option α :=
  (nodes.find? fun n => n.1 = addr).map Prod.snd

/-- An assignment through a pointer to a list node. -/
def modifyAt (nodes : List (Nat × α)) (addr : Nat) (f : α → α) : List (Nat × α) :=
  nodes.map fun n => if n.1 = addr then (n.1, f n.2) else n

/-! ### Lists and pointers -/

theorem find_addr {nodes l₁ l₂ : List (Nat × α)} {n : Nat × α} (hnodes : nodes = l₁ ++ n :: l₂)
    (hnodup : (nodes.map Prod.fst).Nodup) : (nodes.find? fun m => m.1 = n.1) = some n := by
  subst hnodes
  rw [List.find?_append]
  have hnot : (l₁.find? fun m => m.1 = n.1) = none := by
    apply List.find?_eq_none.mpr
    intro m hm hmn
    rw [List.map_append, List.map_cons] at hnodup
    have hdisj := (List.nodup_append.mp hnodup).2.2
    exact hdisj m.1 (List.mem_map_of_mem hm) n.1 (by simp) (by simpa using hmn)
  rw [hnot]
  simp

theorem eraseP_addr {nodes l₁ l₂ : List (Nat × α)} {n : Nat × α} (hnodes : nodes = l₁ ++ n :: l₂)
    (hnodup : (nodes.map Prod.fst).Nodup) : (nodes.eraseP fun m => m.1 = n.1) = l₁ ++ l₂ := by
  subst hnodes
  have hnot : ∀ m ∈ l₁, ¬ (decide (m.1 = n.1)) = true := by
    intro m hm hmn
    rw [List.map_append, List.map_cons] at hnodup
    have hdisj := (List.nodup_append.mp hnodup).2.2
    exact hdisj m.1 (List.mem_map_of_mem hm) n.1 (by simp) (by simpa using hmn)
  rw [List.eraseP_append_right _ hnot]
  simp

theorem spliceFront_eq {nodes l₁ l₂ : List (Nat × α)} {n : Nat × α} (hnodes : nodes = l₁ ++ n :: l₂)
    (hnodup : (nodes.map Prod.fst).Nodup) : spliceFront n.1 nodes = n :: (l₁ ++ l₂) := by
  unfold spliceFront
  rw [find_addr hnodes hnodup, eraseP_addr hnodes hnodup]

theorem deref_eq {nodes : List (Nat × α)} {a : Nat} {v : α} (hnodup : (nodes.map Prod.fst).Nodup)
    (hmem : (a, v) ∈ nodes) : deref nodes a = some v := by
  obtain ⟨l₁, l₂, hsplit⟩ := List.append_of_mem hmem
  unfold deref
  rw [find_addr hsplit hnodup]
  rfl

theorem deref_cons (a : Nat) (v : α) (nodes : List (Nat × α)) :
    deref ((a, v) :: nodes) a = some v := by
  simp [deref]

/-- Assigning through the pointer to the first node leaves the others alone. -/
theorem modifyAt_cons {a : Nat} {v : α} {nodes : List (Nat × α)} (f : α → α)
    (hnot : a ∉ nodes.map Prod.fst) :
    modifyAt ((a, v) :: nodes) a f = (a, f v) :: nodes := by
  have hrest : modifyAt nodes a f = nodes := by
    unfold modifyAt
    conv_rhs => rw [← List.map_id nodes]
    apply List.map_congr_left
    intro n hn
    have hne : n.1 ≠ a := fun h => hnot (h ▸ List.mem_map_of_mem hn)
    rw [if_neg hne, id]
  have hcons : modifyAt ((a, v) :: nodes) a f = (a, f v) :: modifyAt nodes a f := by
    simp [modifyAt]
  rw [hcons, hrest]

/-! ### The two structures in step -/

/-- The index maps the key of every node to the node, and nothing else. -/
structure Linked (key : α → κ) (nodes : List (Nat × α)) (index : List (κ × Nat)) : Prop where
  addrs : (nodes.map Prod.fst).Nodup
  keys : (nodes.map fun n => key n.2).Nodup
  index : index.Perm (nodes.map fun n => (key n.2, n.1))

namespace Linked

variable {key : α → κ} {nodes nodes' : List (Nat × α)} {index : List (κ × Nat)} {k : κ} {a : Nat}
  {v : α}

theorem nil (key : α → κ) : Linked key [] [] := ⟨by simp, by simp, by simp⟩

theorem length (L : Linked key nodes index) : index.length = nodes.length := by
  rw [L.index.length_eq, List.length_map]

theorem mem_index (L : Linked key nodes index) :
    (k, a) ∈ index ↔ ∃ v, (a, v) ∈ nodes ∧ key v = k := by
  rw [L.index.mem_iff, List.mem_map]
  constructor
  · rintro ⟨⟨b, v⟩, hmem, heq⟩
    obtain ⟨hk, hb⟩ := Prod.mk.inj heq
    exact ⟨v, hb ▸ hmem, hk⟩
  · rintro ⟨v, hmem, rfl⟩
    exact ⟨(a, v), hmem, rfl⟩

theorem index_keys (L : Linked key nodes index) : (index.map Prod.fst).Nodup := by
  have hperm := L.index.map Prod.fst
  rw [List.map_map] at hperm
  exact hperm.nodup_iff.mpr L.keys

/-- A lookup finds the one node with the key. -/
theorem find_some [DecidableEq κ] (L : Linked key nodes index) :
    indexFind index k = some a ↔ ∃ v, (a, v) ∈ nodes ∧ key v = k := by
  rw [← L.mem_index]
  unfold indexFind
  rw [Option.map_eq_some_iff]
  constructor
  · rintro ⟨⟨k', a'⟩, hfind, rfl⟩
    have hk : k' = k := by simpa using List.find?_some hfind
    exact hk ▸ List.mem_of_find?_eq_some hfind
  · intro hmem
    cases hfind : index.find? fun p => decide (p.1 = k) with
    | none =>
        have hnot := List.find?_eq_none.mp hfind (k, a) hmem
        simp at hnot
    | some p =>
        have hp : p.1 = k := by simpa using List.find?_some hfind
        have heq := List.inj_on_of_nodup_map L.index_keys (List.mem_of_find?_eq_some hfind) hmem hp
        exact ⟨p, rfl, by rw [heq]⟩

theorem find_none [DecidableEq κ] (L : Linked key nodes index) :
    indexFind index k = none ↔ ∀ n ∈ nodes, key n.2 ≠ k := by
  constructor
  · rintro hnone ⟨a, v⟩ hmem hk
    rw [L.find_some.mpr ⟨v, hmem, hk⟩] at hnone
    simp at hnone
  · intro hnot
    cases hfind : indexFind index k with
    | none => rfl
    | some a =>
        obtain ⟨v, hmem, hk⟩ := L.find_some.mp hfind
        exact absurd hk (hnot (a, v) hmem)

theorem perm (L : Linked key nodes index) (h : nodes'.Perm nodes) : Linked key nodes' index where
  addrs := (h.map Prod.fst).nodup_iff.mpr L.addrs
  keys := (h.map fun n => key n.2).nodup_iff.mpr L.keys
  index := L.index.trans (h.map fun n => (key n.2, n.1)).symm

/-- The value of one node has changed, and not its key. -/
theorem replace {l₁ l₂ : List (Nat × α)} {v' : α} (L : Linked key (l₁ ++ (a, v) :: l₂) index)
    (hkey : key v' = key v) : Linked key (l₁ ++ (a, v') :: l₂) index where
  addrs := by simpa using L.addrs
  keys := by simpa [hkey] using L.keys
  index := by simpa [hkey] using L.index

theorem cons [DecidableEq κ] (L : Linked key nodes index) (hk : ∀ n ∈ nodes, key n.2 ≠ key v)
    (ha : ∀ n ∈ nodes, n.1 ≠ a) : Linked key ((a, v) :: nodes) (indexEmplace index (key v) a) := by
  have hnone := L.find_none.mpr hk
  unfold indexEmplace
  rw [hnone]
  refine ⟨?_, ?_, ?_⟩
  · rw [List.map_cons, List.nodup_cons]
    refine ⟨?_, L.addrs⟩
    intro hmem
    obtain ⟨n, hn, heq⟩ := List.mem_map.mp hmem
    exact ha n hn heq
  · rw [List.map_cons, List.nodup_cons]
    refine ⟨?_, L.keys⟩
    intro hmem
    obtain ⟨n, hn, heq⟩ := List.mem_map.mp hmem
    exact hk n hn heq
  · exact L.index.cons _

/-- No other node has the key of a node. -/
theorem key_ne_rest {l₁ l₂ : List (Nat × α)} (L : Linked key (l₁ ++ (a, v) :: l₂) index) :
    ∀ n ∈ l₁ ++ l₂, key n.2 ≠ key v := by
  intro n hn heq
  have hperm : (l₁ ++ (a, v) :: l₂).Perm ((a, v) :: (l₁ ++ l₂)) := List.perm_middle
  have hmid : ((l₁ ++ (a, v) :: l₂).map fun n => key n.2).Perm
      (key v :: (l₁ ++ l₂).map fun n => key n.2) := by
    exact hperm.map fun n => key n.2
  have hcons := hmid.nodup_iff.mp L.keys
  exact (List.nodup_cons.mp hcons).1 (List.mem_map.mpr ⟨n, hn, heq⟩)

/-- One node and its key are gone. -/
theorem erase [DecidableEq κ] {l₁ l₂ : List (Nat × α)} (L : Linked key (l₁ ++ (a, v) :: l₂) index) :
    Linked key (l₁ ++ l₂) (indexErase index (key v)) := by
  have hkeys := L.keys
  have haddrs := L.addrs
  have hperm : (l₁ ++ (a, v) :: l₂).Perm ((a, v) :: (l₁ ++ l₂)) := List.perm_middle
  have hnot := L.key_ne_rest
  refine ⟨?_, ?_, ?_⟩
  · have hmid := hperm.map Prod.fst
    exact (List.nodup_cons.mp (hmid.nodup_iff.mp haddrs)).2
  · have hmid := hperm.map fun n => key n.2
    exact (List.nodup_cons.mp (hmid.nodup_iff.mp hkeys)).2
  · have hmid := hperm.map fun n => (key n.2, n.1)
    have hfilter := (L.index.trans hmid).filter fun p => decide (p.1 ≠ key v)
    have hself : ((l₁ ++ l₂).map fun n => (key n.2, n.1)).filter (fun p => decide (p.1 ≠ key v)) =
        (l₁ ++ l₂).map fun n => (key n.2, n.1) := by
      apply List.filter_eq_self.mpr
      intro p hp
      obtain ⟨n, hn, rfl⟩ := List.mem_map.mp hp
      simpa using hnot n hn
    have hhead : ((key v, a) :: (l₁ ++ l₂).map fun n => (key n.2, n.1)).filter
        (fun p => decide (p.1 ≠ key v)) = (l₁ ++ l₂).map fun n => (key n.2, n.1) := by
      rw [List.filter_cons_of_neg (by simp), hself]
    rw [List.map_cons, hhead] at hfilter
    exact hfilter

end Linked

end LinkedIndex
