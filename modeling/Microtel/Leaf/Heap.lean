import Microtel.Leaf.Slide

/-!
The chunk lists of the span table. `Heap st cs ch loose` says that the chunks
`cs` tile the buffer and that the list of every used slot `s` is `ch s`: the
chunks the slot owns, less those in `loose`, which are allocated and not linked
yet. The list operations of the source (`link_chunk`, `splice_chunk`,
`unlink_chunk`, `find_chunk`) and the allocation are specified over it.
-/

namespace Microtel.Leaf

open ByteMemory Loop LinkedList

def nextOf (st : LeafState) (o : UInt32) : UInt32 := (getChunk st o).next

/-- The slot is in the table and holds a span. -/
def Used (st : LeafState) (s : UInt16) : Prop :=
  s < st.slotCount ∧ (getSlot st s).state ≠ .free

instance (st : LeafState) (s : UInt16) : Decidable (Used st s) :=
  inferInstanceAs (Decidable (_ ∧ _))

/-- Everything in a span record but the ends of its chunk list. -/
def SpanRec.body (r : SpanRec) : SpanRec := { r with head := none32, tail := none32 }

/-- `o` is a chunk in use that slot `s` owns. -/
def Owns (st : LeafState) (cs : List UInt32) (s : UInt16) (o : UInt32) : Prop :=
  o ∈ cs ∧ (getChunk st o).kind ≠ .dead ∧ (getChunk st o).owner = s

structure Heap (st : LeafState) (cs : List UInt32) (ch : UInt16 → List UInt32)
    (loose : List UInt32) : Prop where
  arena : Arena st cs
  list : ∀ s, Used st s → IsList (nextOf st) none32 (getSlot st s).head (ch s)
  tail : ∀ s, Used st s → (getSlot st s).tail = last none32 (ch s)
  mem : ∀ s o, o ∈ ch s ↔ Owns st cs s o ∧ o ∉ loose

/-- No chunk in use is left behind by a slot that holds no span. -/
def Clean (st : LeafState) (ch : UInt16 → List UInt32) : Prop := ∀ s, ¬ Used st s → ch s = []

/-- Nothing outside the chunks has changed, up to the ends of chunk lists. -/
structure Keeps (st st' : LeafState) : Prop where
  scalars : st' = { st with mem := st'.mem, high := st'.high, dataLow := st'.dataLow }
  body : ∀ t < st.slotCount, (getSlot st' t).body = (getSlot st t).body
  persist : ∀ b, Mem.AgreeOn st'.mem st.mem st.persistOff.toNat b

namespace Keeps

variable {st st' st'' : LeafState}

theorem refl (st : LeafState) : Keeps st st :=
  ⟨rfl, fun _ _ => rfl, fun _ => Mem.AgreeOn.refl _ _ _⟩

theorem slotCount (h : Keeps st st') : st'.slotCount = st.slotCount := by rw [h.scalars]
theorem persistOff (h : Keeps st st') : st'.persistOff = st.persistOff := by rw [h.scalars]

theorem trans (h : Keeps st st') (h' : Keeps st' st'') : Keeps st st'' where
  scalars := by rw [h'.scalars, h.scalars]
  body t ht := by
    have ht' : t < st'.slotCount := by rw [h.slotCount]; exact ht
    rw [h'.body t ht', h.body t ht]
  persist b := by
    have h2 := h'.persist b
    rw [h.persistOff] at h2
    exact h2.trans (h.persist b)

theorem state (h : Keeps st st') {t : UInt16} (ht : t < st.slotCount) :
    (getSlot st' t).state = (getSlot st t).state := by
  have hbody := congrArg SpanRec.state (h.body t ht)
  exact hbody

theorem used_iff (h : Keeps st st') (t : UInt16) : Used st' t ↔ Used st t := by
  unfold Used
  rw [h.slotCount]
  constructor
  · rintro ⟨ht, hs⟩
    exact ⟨ht, by rwa [h.state ht] at hs⟩
  · rintro ⟨ht, hs⟩
    exact ⟨ht, by rwa [h.state ht]⟩

theorem clean {ch : UInt16 → List UInt32} (h : Keeps st st') (C : Clean st ch) : Clean st' ch :=
  fun s hs => C s fun hused => hs ((h.used_iff s).mpr hused)

end Keeps

/-- A rewrite of links, list ends and, for the chunks in `dead`, kinds. -/
structure Edit (st st' : LeafState) (cs dead : List UInt32) : Prop extends Keeps st st' where
  arena : Arena st' cs
  core : ∀ o ∈ cs, o ∉ dead → coreAt st' o = coreAt st o
  killed : ∀ o ∈ dead, (getChunk st' o).kind = .dead

namespace Edit

variable {st st' st'' : LeafState} {cs dead dead' : List UInt32}

theorem trans (h : Edit st st' cs dead) (h' : Edit st' st'' cs dead')
    (hdead : ∀ o ∈ dead, o ∈ cs) : Edit st st'' cs (dead ++ dead') where
  toKeeps := h.toKeeps.trans h'.toKeeps
  arena := h'.arena
  core o ho hnot := by
    simp only [List.mem_append, not_or] at hnot
    rw [h'.core o ho hnot.2, h.core o ho hnot.1]
  killed o ho := by
    by_cases hmem : o ∈ dead'
    · exact h'.killed o hmem
    · have hfirst : o ∈ dead := by
        rcases List.mem_append.mp ho with ho | ho
        · exact ho
        · exact absurd ho hmem
      have hkind := congrArg ChunkCore.kind (h'.core o (hdead o hfirst) hmem)
      exact hkind.trans (h.killed o hfirst)

theorem owns_iff (h : Edit st st' cs dead) (s : UInt16) (o : UInt32) :
    Owns st' cs s o ↔ Owns st cs s o ∧ o ∉ dead := by
  unfold Owns
  by_cases hd : o ∈ dead
  · have := h.killed o hd
    simp [hd, this]
  · constructor
    · rintro ⟨ho, hkind, howner⟩
      have hk := congrArg ChunkCore.kind (h.core o ho hd)
      have hw := congrArg ChunkCore.owner (h.core o ho hd)
      simp only [coreAt] at hk hw
      exact ⟨⟨ho, by rwa [← hk], by rw [← hw]; exact howner⟩, hd⟩
    · rintro ⟨⟨ho, hkind, howner⟩, -⟩
      have hk := congrArg ChunkCore.kind (h.core o ho hd)
      have hw := congrArg ChunkCore.owner (h.core o ho hd)
      simp only [coreAt] at hk hw
      exact ⟨ho, by rwa [hk], by rw [hw]; exact howner⟩

end Edit

/-! ### Single edits -/

section Single

variable {st : LeafState} {cs : List UInt32} {o : UInt32} {s : UInt16}

theorem HeapFrame.keeps_of_body {st' : LeafState} (F : HeapFrame st st' cs)
    (hbody : ∀ t < st.slotCount, (getSlot st' t).body = (getSlot st t).body) : Keeps st st' where
  scalars := by rw [F.scalars]
  body := hbody
  persist := F.persist

/-- `hdr.next = n; put_chunk(...)`. -/
def setNext (st : LeafState) (o n : UInt32) : LeafState :=
  putChunk st o { getChunk st o with next := n }

theorem Arena.setNext_edit (A : Arena st cs) (ho : o ∈ cs) (n : UInt32) :
    Edit st (setNext st o n) cs [] := by
  have F : HeapFrame st (setNext st o n) cs := A.heapFrame_putChunk ho rfl rfl rfl rfl
  refine ⟨F.keeps_of_body ?_, A.putChunk ho rfl, fun x hx _ => F.core x hx, by simp⟩
  intro t ht
  rw [setNext, A.getSlot_putChunk ho ht]

theorem Arena.setNext_next (A : Arena st cs) (ho : o ∈ cs) (n : UInt32) {x : UInt32} (hx : x ∈ cs) :
    nextOf (setNext st o n) x = if x = o then n else nextOf st x := by
  unfold nextOf setNext
  rw [A.getChunk_putChunk ho hx]
  split <;> rfl

theorem Arena.setNext_slot (A : Arena st cs) (ho : o ∈ cs) (n : UInt32) (hs : s < st.slotCount) :
    getSlot (setNext st o n) s = getSlot st s :=
  A.getSlot_putChunk ho hs _

theorem Arena.putSlot_edit (A : Arena st cs) (hs : s < st.slotCount) {r : SpanRec}
    (hr : r.body = (getSlot st s).body) : Edit st (Leaf.putSlot st s r) cs [] := by
  have F := A.heapFrame_putSlot hs r
  refine ⟨F.keeps_of_body ?_, A.putSlot hs r, fun x hx _ => F.core x hx, by simp⟩
  intro t ht
  rw [getSlot_putSlot]
  split
  · next h => rw [hr, h]
  · rfl

theorem Arena.putSlot_next (A : Arena st cs) (hs : s < st.slotCount) (r : SpanRec) {x : UInt32}
    (hx : x ∈ cs) : nextOf (Leaf.putSlot st s r) x = nextOf st x := by
  unfold nextOf
  rw [A.getChunk_putSlot hs hx]

theorem Arena.killChunk_edit (A : Arena st cs) (ho : o ∈ cs) :
    Edit st (killChunk st o) cs [o] := by
  have hget : ∀ x ∈ cs, getChunk (killChunk st o) x =
      if x = o then { getChunk st o with kind := .dead } else getChunk st x := fun x hx =>
    A.getChunk_putChunk ho hx _
  refine ⟨⟨rfl, ?_, ?_⟩, A.putChunk ho rfl, ?_, ?_⟩
  · intro t ht
    rw [killChunk, A.getSlot_putChunk ho ht]
  · intro b
    have h1 := A.mem_bounds ho
    apply Mem.write_agreeOn
    right
    rw [ChunkHdr.layout.enc_length]
    simp only [ChunkHdr.layout_size]
    omega
  · intro x hx hne
    have hxo : x ≠ o := by simpa using hne
    have hread := A.read_putChunk ho hx { getChunk st o with kind := .dead }
      (n := chunkSize st x - sizeofChunkHdr) (by have := (A.mem_bounds hx).2.1; omega)
    have hhdr := hget x hx
    rw [if_neg hxo] at hhdr
    exact coreAt_congr hhdr hread
  · intro x hx
    obtain rfl : x = o := by simpa using hx
    rw [hget x ho, if_pos rfl]

theorem Arena.killChunk_next (A : Arena st cs) (ho : o ∈ cs) {x : UInt32} (hx : x ∈ cs) :
    nextOf (killChunk st o) x = nextOf st x := by
  unfold nextOf killChunk
  rw [A.getChunk_putChunk ho hx]
  split
  · next h => rw [h]
  · rfl

theorem Arena.killChunk_slot (A : Arena st cs) (ho : o ∈ cs) (hs : s < st.slotCount) :
    getSlot (killChunk st o) s = getSlot st s :=
  A.getSlot_putChunk ho hs _

end Single

/-! ### Lists after an edit -/

namespace Heap

variable {st st' : LeafState} {cs dead loose loose' : List UInt32} {ch ch' : UInt16 → List UInt32}
  {s : UInt16} {o old prev repl : UInt32}

theorem mem_cs (H : Heap st cs ch loose) (ho : o ∈ ch s) : o ∈ cs := ((H.mem s o).mp ho).1.1

theorem owner (H : Heap st cs ch loose) (ho : o ∈ ch s) : (getChunk st o).owner = s :=
  ((H.mem s o).mp ho).1.2.2

theorem kind_ne_dead (H : Heap st cs ch loose) (ho : o ∈ ch s) : (getChunk st o).kind ≠ .dead :=
  ((H.mem s o).mp ho).1.2.1

theorem not_mem_other (H : Heap st cs ch loose) {t : UInt16} (ho : o ∈ ch s) (hne : t ≠ s) :
    o ∉ ch t := fun h => hne ((H.owner h).symm.trans (H.owner ho))

/-- After an edit that rearranged the list of slot `s` only. -/
theorem relist (H : Heap st cs ch loose) (E : Edit st st' cs dead)
    (hother : ∀ t, t ≠ s → ch' t = ch t)
    (hslots : ∀ t, t ≠ s → t < st.slotCount → getSlot st' t = getSlot st t)
    (hnext : ∀ t, t ≠ s → ∀ x ∈ ch t, nextOf st' x = nextOf st x)
    (hmem : ∀ t x, x ∈ ch' t ↔ (Owns st cs t x ∧ x ∉ dead) ∧ x ∉ loose')
    (hlist : IsList (nextOf st') none32 (getSlot st' s).head (ch' s))
    (htail : (getSlot st' s).tail = last none32 (ch' s)) : Heap st' cs ch' loose' where
  arena := E.arena
  list t ht := by
    by_cases hts : t = s
    · subst hts
      exact hlist
    · have hused := (E.used_iff t).mp ht
      rw [hslots t hts hused.1, hother t hts]
      exact (H.list t hused).congr (hnext t hts)
  tail t ht := by
    by_cases hts : t = s
    · subst hts
      exact htail
    · have hused := (E.used_iff t).mp ht
      rw [hslots t hts hused.1, hother t hts]
      exact H.tail t hused
  mem t x := by rw [hmem, E.owns_iff]

/-- An edit of nothing: headers and slots read as before. -/
theorem congr (H : Heap st cs ch loose) (A : Arena st' cs) (hcount : st'.slotCount = st.slotCount)
    (hslots : ∀ t < st.slotCount,
      ((getSlot st' t).state = .free ↔ (getSlot st t).state = .free) ∧
      (getSlot st' t).head = (getSlot st t).head ∧ (getSlot st' t).tail = (getSlot st t).tail)
    (hhdr : ∀ x ∈ cs, (getChunk st' x).kind = (getChunk st x).kind ∧
      (getChunk st' x).owner = (getChunk st x).owner ∧
        (getChunk st' x).next = (getChunk st x).next) :
    Heap st' cs ch loose := by
  have hused : ∀ t, Used st' t → Used st t := by
    rintro t ⟨ht, hs⟩
    rw [hcount] at ht
    exact ⟨ht, fun h => hs ((hslots t ht).1.mpr h)⟩
  have howns : ∀ t x, Owns st' cs t x ↔ Owns st cs t x := by
    intro t x
    unfold Owns
    constructor
    · rintro ⟨hx, hk, hw⟩
      exact ⟨hx, by rwa [(hhdr x hx).1] at hk, by rwa [(hhdr x hx).2.1] at hw⟩
    · rintro ⟨hx, hk, hw⟩
      exact ⟨hx, by rwa [(hhdr x hx).1], by rwa [(hhdr x hx).2.1]⟩
  refine ⟨A, ?_, ?_, ?_⟩
  · intro t ht
    rw [(hslots t (hused t ht).1).2.1]
    refine (H.list t (hused t ht)).congr fun x hx => ?_
    exact (hhdr x (H.mem_cs hx)).2.2
  · intro t ht
    rw [(hslots t (hused t ht).1).2.2]
    exact H.tail t (hused t ht)
  · intro t x
    rw [howns, H.mem]

/-- `link_chunk`: a loose chunk becomes the last of its owner's list. -/
theorem linkChunk (H : Heap st cs ch [o]) (hs : Used st s) (ho : Owns st cs s o)
    (hnext : nextOf st o = none32) :
    Heap (Leaf.linkChunk st s o) cs (Function.update ch s (ch s ++ [o])) [] ∧
      Edit st (Leaf.linkChunk st s o) cs [] := by
  have hlist := H.list s hs
  have htail := H.tail s hs
  have hocs : o ∈ cs := ho.1
  have hone : o ≠ none32 := H.arena.mem_ne_none hocs
  have hout : ∀ t, o ∉ ch t := fun t h => by
    have := ((H.mem t o).mp h).2
    simp at this
  have hmem : ∀ t x, x ∈ Function.update ch s (ch s ++ [o]) t ↔
      (Owns st cs t x ∧ x ∉ ([] : List UInt32)) ∧ x ∉ ([] : List UInt32) := by
    intro t x
    by_cases hts : t = s
    · subst hts
      rw [Function.update_self, List.mem_append, H.mem]
      constructor
      · rintro (h | h)
        · simp [h.1]
        · obtain rfl : x = o := by simpa using h
          simp [ho]
      · rintro ⟨⟨h, -⟩, -⟩
        by_cases hxo : x = o
        · exact Or.inr (by simp [hxo])
        · exact Or.inl ⟨h, by simp [hxo]⟩
    · rw [Function.update_of_ne hts, H.mem]
      constructor
      · rintro ⟨h, -⟩
        simp [h]
      · rintro ⟨⟨h, -⟩, -⟩
        refine ⟨h, ?_⟩
        rintro hxo
        obtain rfl : x = o := by simpa using hxo
        exact hts (h.2.2.symm.trans ho.2.2)
  have hother : ∀ t, t ≠ s → Function.update ch s (ch s ++ [o]) t = ch t := fun t ht =>
    Function.update_of_ne ht _ _
  by_cases hempty : ch s = []
  · have hhead : (getSlot st s).head = none32 := hlist.nil_iff.mpr hempty
    have hlink : Leaf.linkChunk st s o =
        putSlot st s { getSlot st s with head := o, tail := o } := by
      simp [Leaf.linkChunk, hhead]
    have E : Edit st (Leaf.linkChunk st s o) cs [] := by
      rw [hlink]
      exact H.arena.putSlot_edit hs.1 rfl
    refine ⟨H.relist (s := s) E hother ?_ ?_ hmem ?_ ?_, E⟩
    · intro t ht _
      rw [hlink, getSlot_putSlot_of_ne st _ ht]
    · intro t _ x hx
      rw [hlink, H.arena.putSlot_next hs.1 _ (H.mem_cs hx)]
    · rw [Function.update_self, hlink, getSlot_putSlot_self, hempty]
      refine ⟨rfl, hone, ?_⟩
      rw [H.arena.putSlot_next hs.1 _ hocs]
      exact hnext
    · rw [Function.update_self, hlink, getSlot_putSlot_self, last_concat]
  · have hhead : (getSlot st s).head ≠ none32 := fun h => hempty (hlist.nil_iff.mp h)
    have hlastmem : last none32 (ch s) ∈ ch s := by
      rcases last_mem none32 (ch s) with h | h
      · exact absurd ((last_eq_nil_iff hlist.ne_nil).mp h) hempty
      · exact h
    have htcs : (getSlot st s).tail ∈ cs := by rw [htail]; exact H.mem_cs hlastmem
    have hlink : Leaf.linkChunk st s o = putSlot (setNext st (getSlot st s).tail o) s
        { getSlot st s with tail := o } := by
      simp [Leaf.linkChunk, hhead, setNext]
    have E₁ := H.arena.setNext_edit htcs o
    have hs₁ : s < (setNext st (getSlot st s).tail o).slotCount := hs.1
    have E : Edit st (Leaf.linkChunk st s o) cs [] := by
      rw [hlink]
      refine E₁.trans (E₁.arena.putSlot_edit hs₁ ?_) (by simp)
      rw [H.arena.setNext_slot htcs o hs.1]
      rfl
    have hnext' : ∀ x ∈ cs, nextOf (Leaf.linkChunk st s o) x =
        if x = last none32 (ch s) then o else nextOf st x := by
      intro x hx
      rw [hlink, E₁.arena.putSlot_next hs₁ _ hx, H.arena.setNext_next htcs o hx, htail]
    refine ⟨H.relist (s := s) E hother ?_ ?_ hmem ?_ ?_, E⟩
    · intro t ht hlt
      rw [hlink, getSlot_putSlot_of_ne _ _ ht, H.arena.setNext_slot htcs o hlt]
    · intro t ht x hx
      rw [hnext' x (H.mem_cs hx), if_neg]
      rintro rfl
      exact H.not_mem_other hlastmem ht hx
    · rw [Function.update_self]
      refine hlist.append hone ?_ ?_ ?_ ?_
      · intro c hc hne
        rw [hnext' c (H.mem_cs hc), if_neg hne]
      · intro _
        rw [hnext' _ (H.mem_cs hlastmem), if_pos rfl]
      · rw [hnext' o hocs, if_neg, hnext]
        rintro rfl
        exact hout s hlastmem
      · rw [if_neg hempty, hlink, getSlot_putSlot_self]
    · rw [Function.update_self, hlink, getSlot_putSlot_self, last_concat]

/-- The common part of `splice_chunk` and `unlink_chunk`: what stood before
`old` now leads to `succ`, the record is written back and `old` dies. -/
def cutOut (st : LeafState) (s : UInt16) (prev old succ tail : UInt32) : LeafState :=
  let (st', r) := setSuccessor st (getSlot st s) prev succ
  killChunk (Leaf.putSlot st' s (if r.tail = old then { r with tail := tail } else r)) old

theorem cutOut_eq (st : LeafState) (s : UInt16) (prev old succ tail : UInt32) :
    cutOut st s prev old succ tail =
      killChunk (Leaf.putSlot (if prev = none32 then st else setNext st prev succ) s
        { getSlot st s with
          head := if prev = none32 then succ else (getSlot st s).head
          tail := if (getSlot st s).tail = old then tail else (getSlot st s).tail }) old := by
  unfold cutOut setSuccessor
  by_cases hprev : prev = none32
  · simp only [hprev, if_true]
    by_cases htail : (getSlot st s).tail = old
    · simp only [htail, if_true]
    · simp only [htail, if_false]
  · simp only [hprev, if_false]
    by_cases htail : (getSlot st s).tail = old
    · simp only [htail, if_true]
      rfl
    · simp only [htail, if_false]
      rfl

/-- `mid` takes the place of `old` in the list of slot `s`. -/
theorem cutOut_spec {l₁ l₂ : List UInt32} (loose' mid : List UInt32) (succ : UInt32)
    (H : Heap st cs ch loose) (hs : Used st s) (hsplit : ch s = l₁ ++ old :: l₂)
    (hmid : ∀ x ∈ mid, Owns st cs s x ∧ x ∈ loose)
    (hsucc : IsList (nextOf st) none32 succ (mid ++ l₂))
    (hloose : ∀ t x, Owns st cs t x → (x ∉ loose' ↔ x ∉ loose ∨ (t = s ∧ x ∈ mid))) :
    Heap (cutOut st s (last none32 l₁) old succ (last none32 (l₁ ++ mid))) cs
        (Function.update ch s (l₁ ++ (mid ++ l₂))) loose' ∧
      Edit st (cutOut st s (last none32 l₁) old succ (last none32 (l₁ ++ mid))) cs [old] ∧
      ∀ x ∈ cs, x ∉ ch s →
        nextOf (cutOut st s (last none32 l₁) old succ (last none32 (l₁ ++ mid))) x =
          nextOf st x := by
  have hlist := H.list s hs
  have htail := H.tail s hs
  rw [hsplit] at hlist htail
  have hin : ∀ x, x ∈ l₁ ∨ x = old ∨ x ∈ l₂ → x ∈ ch s := by
    intro x hx
    rw [hsplit]
    simpa using hx
  have hnodup := hlist.nodup
  have hold : old ∈ cs := H.mem_cs (hin old (by simp))
  have hl₁old : old ∉ l₁ := by
    intro h
    exact (List.disjoint_of_nodup_append hnodup) h (by simp)
  have hl₂old : old ∉ l₂ := by
    have h := hnodup.sublist (List.sublist_append_right l₁ (old :: l₂))
    exact (List.nodup_cons.mp h).1
  have hl₁₂ : ∀ x ∈ l₁, x ∉ l₂ := fun x hx h =>
    (List.disjoint_of_nodup_append hnodup) hx (by simp [h])
  have hmidout : ∀ x ∈ mid, x ∉ ch s := fun x hx h => ((H.mem s x).mp h).2 (hmid x hx).2
  have hl₁ne : ∀ x ∈ l₁, x ≠ none32 := fun x hx => hlist.ne_nil x (by simp [hx])
  have hprev : last none32 l₁ = none32 ↔ l₁ = [] := last_eq_nil_iff hl₁ne
  have hprevmem : l₁ ≠ [] → last none32 l₁ ∈ l₁ := by
    intro h
    rcases last_mem none32 l₁ with h' | h'
    · exact absurd (hprev.mp h') h
    · exact h'
  set r' : SpanRec :=
    { getSlot st s with
      head := if l₁ = [] then succ else (getSlot st s).head
      tail := if (getSlot st s).tail = old then last none32 (l₁ ++ mid) else (getSlot st s).tail }
    with hr'
  -- The state before the record is written back, and its links.
  obtain ⟨st₁, hcut, E₁, hslot₁, hnext₁⟩ : ∃ st₁,
      cutOut st s (last none32 l₁) old succ (last none32 (l₁ ++ mid)) =
        killChunk (Leaf.putSlot st₁ s r') old ∧
      Edit st st₁ cs [] ∧ (∀ t < st.slotCount, getSlot st₁ t = getSlot st t) ∧
      ∀ x ∈ cs, nextOf st₁ x = if l₁ ≠ [] ∧ x = last none32 l₁ then succ else nextOf st x := by
    have heq := cutOut_eq st s (last none32 l₁) old succ (last none32 (l₁ ++ mid))
    simp only [hprev, ← hr'] at heq
    refine ⟨_, heq, ?_⟩
    by_cases hnil : l₁ = []
    · rw [if_pos hnil]
      refine ⟨⟨Keeps.refl st, H.arena, fun _ _ _ => rfl, by simp⟩, fun _ _ => rfl, ?_⟩
      intro x _
      simp [hnil]
    · have hpcs : last none32 l₁ ∈ cs := H.mem_cs (hin _ (Or.inl (hprevmem hnil)))
      rw [if_neg hnil]
      refine ⟨H.arena.setNext_edit hpcs succ, fun t ht => H.arena.setNext_slot hpcs succ ht, ?_⟩
      intro x hx
      rw [H.arena.setNext_next hpcs succ hx]
      simp [hnil]
  have hs₁ : s < st₁.slotCount := by rw [E₁.slotCount]; exact hs.1
  have E₂ : Edit st₁ (Leaf.putSlot st₁ s r') cs [] := by
    apply E₁.arena.putSlot_edit hs₁
    rw [hslot₁ s hs.1]
    rfl
  have E₃ := E₂.arena.killChunk_edit hold
  have E : Edit st (killChunk (Leaf.putSlot st₁ s r') old) cs [old] :=
    (E₁.trans E₂ (by simp)).trans E₃ (by simp)
  have hnext : ∀ x ∈ cs, nextOf (killChunk (Leaf.putSlot st₁ s r') old) x =
      if l₁ ≠ [] ∧ x = last none32 l₁ then succ else nextOf st x := by
    intro x hx
    rw [E₂.arena.killChunk_next hold hx, E₁.arena.putSlot_next hs₁ r' hx, hnext₁ x hx]
  have hslot : ∀ t < st.slotCount, getSlot (killChunk (Leaf.putSlot st₁ s r') old) t =
      if t = s then r' else getSlot st t := by
    intro t ht
    have ht₂ : t < (Leaf.putSlot st₁ s r').slotCount := by
      change t < st₁.slotCount
      rw [E₁.slotCount]
      exact ht
    rw [E₂.arena.killChunk_slot hold ht₂, getSlot_putSlot]
    split
    · rfl
    · exact hslot₁ t ht
  rw [hcut]
  have hnextOut : ∀ x ∈ cs, x ∉ ch s →
      nextOf (killChunk (Leaf.putSlot st₁ s r') old) x = nextOf st x := by
    intro x hx hout
    rw [hnext x hx, if_neg]
    rintro ⟨hne, rfl⟩
    exact hout (hin _ (Or.inl (hprevmem hne)))
  refine ⟨H.relist (s := s) E (fun t ht => Function.update_of_ne ht _ _) ?_ ?_ ?_ ?_ ?_, E,
    hnextOut⟩
  · intro t ht hlt
    rw [hslot t hlt, if_neg ht]
  · intro t ht x hx
    rw [hnext x (H.mem_cs hx), if_neg]
    rintro ⟨hne, rfl⟩
    exact H.not_mem_other (hin _ (Or.inl (hprevmem hne))) ht hx
  · intro t x
    by_cases hts : t = s
    · subst hts
      rw [Function.update_self]
      constructor
      · intro hx
        rcases List.mem_append.mp hx with hx | hx
        · have h := (H.mem t x).mp (hin x (Or.inl hx))
          have hne : x ≠ old := by
            rintro rfl
            exact hl₁old hx
          exact ⟨⟨h.1, by simpa using hne⟩, (hloose t x h.1).mpr (Or.inl h.2)⟩
        · rcases List.mem_append.mp hx with hx | hx
          · have h := hmid x hx
            have hne : x ≠ old := by
              rintro rfl
              exact hmidout x hx (hin x (by simp))
            exact ⟨⟨h.1, by simpa using hne⟩, (hloose t x h.1).mpr (Or.inr ⟨rfl, hx⟩)⟩
          · have h := (H.mem t x).mp (hin x (Or.inr (Or.inr hx)))
            have hne : x ≠ old := by
              rintro rfl
              exact hl₂old hx
            exact ⟨⟨h.1, by simpa using hne⟩, (hloose t x h.1).mpr (Or.inl h.2)⟩
      · rintro ⟨⟨hown, hne⟩, hnot⟩
        rcases (hloose t x hown).mp hnot with h | h
        · have hx := (H.mem t x).mpr ⟨hown, h⟩
          rw [hsplit] at hx
          have hne' : x ≠ old := by simpa using hne
          simp only [List.mem_append, List.mem_cons, hne', false_or] at hx ⊢
          tauto
        · simp [h.2]
    · rw [Function.update_of_ne hts, H.mem]
      constructor
      · rintro ⟨hown, hnot⟩
        refine ⟨⟨hown, ?_⟩, (hloose t x hown).mpr (Or.inl hnot)⟩
        simp only [List.mem_singleton]
        rintro rfl
        exact hts (hown.2.2.symm.trans (H.owner (hin x (by simp))))
      · rintro ⟨⟨hown, -⟩, hnot⟩
        rcases (hloose t x hown).mp hnot with h | h
        · exact ⟨hown, h⟩
        · exact absurd h.1 hts
  · rw [Function.update_self, hslot s hs.1, if_pos rfl]
    have hmidl₂cs : ∀ x ∈ mid ++ l₂, x ∈ cs ∧ ¬ (l₁ ≠ [] ∧ x = last none32 l₁) := by
      intro x hx
      rcases List.mem_append.mp hx with hx | hx
      · refine ⟨(hmid x hx).1.1, ?_⟩
        rintro ⟨hne, rfl⟩
        exact hmidout _ hx (hin _ (Or.inl (hprevmem hne)))
      · refine ⟨H.mem_cs (hin x (Or.inr (Or.inr hx))), ?_⟩
        rintro ⟨hne, rfl⟩
        exact hl₁₂ _ (hprevmem hne) hx
    refine hlist.relink (b := succ) ?_ ?_ ?_ rfl
    · refine hsucc.congr fun x hx => ?_
      rw [hnext x (hmidl₂cs x hx).1, if_neg (hmidl₂cs x hx).2]
    · intro c hc hne
      rw [hnext c (H.mem_cs (hin c (Or.inl hc))), if_neg]
      exact fun h => hne h.2
    · intro hne
      rw [hnext _ (H.mem_cs (hin _ (Or.inl (hprevmem hne)))), if_pos ⟨hne, rfl⟩]
  · rw [Function.update_self, hslot s hs.1, if_pos rfl]
    change (if (getSlot st s).tail = old then last none32 (l₁ ++ mid) else (getSlot st s).tail) = _
    rw [htail]
    rcases List.eq_nil_or_concat' l₂ with rfl | ⟨l₂, a, rfl⟩
    · simp
    · have hne : a ≠ old := by
        rintro rfl
        simp at hl₂old
      have hlast : last none32 (l₁ ++ old :: (l₂ ++ [a])) = a := by
        have h : l₁ ++ old :: (l₂ ++ [a]) = (l₁ ++ old :: l₂) ++ [a] := by simp
        rw [h, last_concat]
      have hlast' : last none32 (l₁ ++ (mid ++ (l₂ ++ [a]))) = a := by
        have h : l₁ ++ (mid ++ (l₂ ++ [a])) = (l₁ ++ (mid ++ l₂)) ++ [a] := by simp
        rw [h, last_concat]
      rw [hlast, hlast', if_neg hne]

/-- `splice_chunk`: a loose chunk takes the place of `old`. -/
theorem spliceChunk {l₁ l₂ : List UInt32} (H : Heap st cs ch [repl]) (hs : Used st s)
    (hsplit : ch s = l₁ ++ old :: l₂) (hrepl : Owns st cs s repl) :
    Heap (Leaf.spliceChunk st s (last none32 l₁) old repl) cs
        (Function.update ch s (l₁ ++ repl :: l₂)) [] ∧
      Edit st (Leaf.spliceChunk st s (last none32 l₁) old repl) cs [old] := by
  have hold : old ∈ ch s := by rw [hsplit]; simp
  have hrepl_out : ∀ t, repl ∉ ch t := fun t h => by
    have := ((H.mem t repl).mp h).2
    simp at this
  have hrest : IsList (nextOf st) none32 (nextOf st old) l₂ := by
    have hlist := H.list s hs
    rw [hsplit] at hlist
    exact (IsList.suffix hlist).2.2
  have E₁ := H.arena.setNext_edit hrepl.1 (nextOf st old)
  set st₁ := setNext st repl (nextOf st old) with hst₁
  have hnext₁ : ∀ x ∈ cs, nextOf st₁ x = if x = repl then nextOf st old else nextOf st x :=
    fun x hx => H.arena.setNext_next hrepl.1 _ hx
  have hkeep : ∀ t, ∀ x ∈ ch t, nextOf st₁ x = nextOf st x := by
    intro t x hx
    rw [hnext₁ x (H.mem_cs hx), if_neg]
    rintro rfl
    exact hrepl_out t hx
  have hslot₁ : ∀ t < st.slotCount, getSlot st₁ t = getSlot st t := fun t ht =>
    H.arena.setNext_slot hrepl.1 _ ht
  have H₁ : Heap st₁ cs ch [repl] := by
    refine H.relist (s := s) E₁ (fun _ _ => rfl) (fun t _ ht => hslot₁ t ht)
      (fun t _ => hkeep t) ?_ ?_ ?_
    · intro t x
      rw [H.mem]
      simp
    · rw [hslot₁ s hs.1]
      exact (H.list s hs).congr (hkeep s)
    · rw [hslot₁ s hs.1]
      exact H.tail s hs
  have hcut : Leaf.spliceChunk st s (last none32 l₁) old repl =
      cutOut st₁ s (last none32 l₁) old repl (last none32 (l₁ ++ [repl])) := by
    unfold cutOut
    rw [hslot₁ s hs.1, last_concat]
    rfl
  have hown₁ : Owns st₁ cs s repl := (E₁.owns_iff s repl).mpr ⟨hrepl, by simp⟩
  have hspec := H₁.cutOut_spec [] [repl] repl
    ((E₁.used_iff s).mpr hs) hsplit (by simpa using hown₁)
    ⟨rfl, H.arena.mem_ne_none hrepl.1, by
      rw [hnext₁ repl hrepl.1, if_pos rfl]
      refine hrest.congr fun x hx => hkeep s x ?_
      rw [hsplit]
      simp [hx]⟩
    (by
      intro t x hown
      by_cases hx : x = repl
      · subst hx
        simp [hown.2.2.symm.trans hown₁.2.2]
      · simp [hx])
  rw [hcut]
  refine ⟨hspec.1, ?_⟩
  have E := E₁.trans hspec.2.1 (by simp)
  simpa using E

/-- `unlink_chunk`: `old` leaves the list. -/
theorem unlinkChunk {l₁ l₂ : List UInt32} (H : Heap st cs ch loose) (hs : Used st s)
    (hsplit : ch s = l₁ ++ old :: l₂) :
    Heap (Leaf.unlinkChunk st s (last none32 l₁) old) cs
        (Function.update ch s (l₁ ++ l₂)) loose ∧
      Edit st (Leaf.unlinkChunk st s (last none32 l₁) old) cs [old] ∧
      ∀ x ∈ cs, x ∉ ch s →
        nextOf (Leaf.unlinkChunk st s (last none32 l₁) old) x = nextOf st x := by
  have hrest : IsList (nextOf st) none32 (nextOf st old) l₂ := by
    have hlist := H.list s hs
    rw [hsplit] at hlist
    exact (IsList.suffix hlist).2.2
  have hspec := H.cutOut_spec loose [] (nextOf st old) hs hsplit
    (by simp) hrest (by simp)
  rw [List.append_nil] at hspec
  exact hspec

theorem length_le (H : Heap st cs ch loose) (hs : Used st s) :
    (ch s).length ≤ st.bufSize.toNat := by
  have hsub : (ch s) ⊆ cs := fun x hx => H.mem_cs hx
  have hle := (List.subperm_of_subset (H.list s hs).nodup hsub).length_le
  have := H.arena.fuel_le
  omega

/-- `find_chunk`: the first match and the chunk before it, or the null offset. -/
theorem findChunk_spec {w : Word32} (H : Heap st cs ch loose) (hs : Used st s) (kind : ChunkKind)
    (key : Option Bytes) :
    (∃ l₁ o l₂, ch s = l₁ ++ o :: l₂ ∧ (∀ x ∈ l₁, chunkMatches w st x kind key = false) ∧
      chunkMatches w st o kind key = true ∧
      findChunk w st s kind key = (o, last none32 l₁)) ∨
    ((∀ x ∈ ch s, chunkMatches w st x kind key = false) ∧
      (findChunk w st s kind key).1 = none32) := by
  set m := fun x => chunkMatches w st x kind key with hm
  set l₁ := (ch s).takeWhile (fun x => !m x) with hl₁
  set post := (ch s).dropWhile (fun x => !m x) with hpost
  have hsplit : ch s = l₁ ++ post := (List.takeWhile_append_dropWhile).symm
  have hnot : ∀ x ∈ l₁, m x = false := by
    intro x hx
    have hall := List.all_eq_true.mp (List.all_takeWhile (p := fun x => !m x) (l := ch s)) x hx
    simpa using hall
  have hlist := H.list s hs
  have hfuel : l₁.length ≤ st.bufSize.toNat := by
    have h1 := H.length_le hs
    rw [hsplit, List.length_append] at h1
    omega
  have hrun := whileLoop_visits
    (fun p : UInt32 × UInt32 => decide (p.1 ≠ none32) && !chunkMatches w st p.1 kind key)
    (fun p : UInt32 × UInt32 => ((getChunk st p.1).next, p.1))
    (fun rest p => ∃ done, l₁ = done ++ rest ∧ p.2 = last none32 done ∧
      IsList (nextOf st) none32 p.1 (rest ++ post))
    (by
      rintro ⟨off, prev⟩ ⟨done, -, -, hoff⟩
      dsimp only at hoff ⊢
      cases hp : post with
      | nil =>
          rw [hp] at hoff
          have : off = none32 := hoff
          simp [this]
      | cons o l₂ =>
          rw [hp] at hoff
          obtain ⟨rfl, hne, -⟩ := hoff
          have hhead := List.head?_dropWhile_not (fun x => !m x) (ch s)
          rw [← hpost, hp] at hhead
          have hmatch : m off = true := by simpa using hhead
          simp only [hm] at hmatch
          simp [hmatch])
    (by
      rintro o rest ⟨off, prev⟩ ⟨done, hdone, -, hoff⟩
      dsimp only at hoff ⊢
      obtain ⟨rfl, hne, hrest⟩ := hoff
      have hmatch : m off = false := hnot off (by rw [hdone]; simp)
      simp only [hm] at hmatch
      refine ⟨by simp [hmatch, hne], done ++ [off], by simp [hdone], by simp, hrest⟩)
    l₁ ((getSlot st s).head, none32) st.bufSize.toNat hfuel
    ⟨[], by simp, rfl, by rw [← hsplit]; exact hlist⟩
  obtain ⟨done, hdone, hprev, hoff⟩ := hrun
  obtain rfl : l₁ = done := by simpa using hdone
  change (findChunk w st s kind key).2 = last none32 l₁ at hprev
  change IsList (nextOf st) none32 (findChunk w st s kind key).1 ([] ++ post) at hoff
  rw [List.nil_append] at hoff
  cases hp : post with
  | nil =>
      right
      rw [hp] at hoff hsplit
      refine ⟨?_, hoff⟩
      intro x hx
      rw [hsplit, List.append_nil] at hx
      exact hnot x hx
  | cons o l₂ =>
      left
      rw [hp] at hoff hsplit
      have hhead := List.head?_dropWhile_not (fun x => !m x) (ch s)
      rw [← hpost, hp] at hhead
      refine ⟨l₁, o, l₂, hsplit, hnot, by simpa using hhead, ?_⟩
      exact Prod.ext hoff.1 hprev

end Heap

end Microtel.Leaf
