import Microtel.Leaf.Arena

/-!
The three passes of the sliding compaction (`compact_plan`, `compact_fix`,
`compact_move`). Each pass is a loop over the chunks in address order, or in
the reverse order for the move; the chunks still to visit drive the loop rule.
The result is `compact_spec`: every live chunk moves, with its content, to the
offset the plan gave it, and every stored reference follows.
-/

namespace Microtel.Leaf

open ByteMemory Loop LinkedList

def isLive (st : LeafState) (o : UInt32) : Bool := chunkLive st (getChunk st o)

/-- The bytes in the live chunks of a list. -/
def liveBytes (st : LeafState) : List UInt32 → Nat
  | [] => 0
  | o :: cs => (if isLive st o then chunkSize st o else 0) + liveBytes st cs

/-- The forwarding offset of the first chunk of a suffix of the chunk list. -/
def target (st : LeafState) : List UInt32 → UInt32
  | [] => none32
  | o :: cs =>
      if isLive st o then UInt32.ofNat (st.persistOff.toNat - liveBytes st (o :: cs)) else none32

theorem liveBytes_append (st : LeafState) (cs cs' : List UInt32) :
    liveBytes st (cs ++ cs') = liveBytes st cs + liveBytes st cs' := by
  induction cs with
  | nil => simp [liveBytes]
  | cons o cs ih =>
      simp only [List.cons_append, liveBytes, ih]
      omega

theorem Tiles.liveBytes_le {st : LeafState} {lo hi : Nat} {cs : List UInt32}
    (h : Tiles st lo cs hi) : lo + liveBytes st cs ≤ hi := by
  induction cs generalizing lo with
  | nil =>
      have := h.le
      simpa [liveBytes] using this
  | cons o cs ih =>
      have := ih h.2.2
      unfold liveBytes
      split <;> omega

theorem chunkLive_congr {st st' : LeafState} {hdr hdr' : ChunkHdr}
    (hkind : hdr'.kind = hdr.kind) (howner : hdr'.owner = hdr.owner)
    (hcount : st'.slotCount = st.slotCount)
    (hslots : ∀ s < st.slotCount, (getSlot st' s).state = (getSlot st s).state) :
    chunkLive st' hdr' = chunkLive st hdr := by
  unfold chunkLive
  rw [hkind, howner, hcount]
  by_cases h : hdr.kind = .dead ∨ st.slotCount ≤ hdr.owner
  · simp [h]
  · simp only [h, if_false]
    rw [hslots]
    exact UInt16.not_le.mp fun hle => h (Or.inr hle)

/-- `st'` differs from `st` in list links and compaction fields only. -/
structure HeapFrame (st st' : LeafState) (cs : List UInt32) : Prop where
  scalars : st' = { st with mem := st'.mem, high := st'.high }
  core : ∀ o ∈ cs, coreAt st' o = coreAt st o
  persist : ∀ b, Mem.AgreeOn st'.mem st.mem st.persistOff.toNat b

namespace HeapFrame

variable {st st' st'' : LeafState} {cs : List UInt32}

theorem refl (st : LeafState) (cs : List UInt32) : HeapFrame st st cs :=
  ⟨rfl, fun _ _ => rfl, fun _ => Mem.AgreeOn.refl _ _ _⟩

theorem trans (h : HeapFrame st st' cs) (h' : HeapFrame st' st'' cs) : HeapFrame st st'' cs where
  scalars := by
    rw [h'.scalars, h.scalars]
  core o ho := (h'.core o ho).trans (h.core o ho)
  persist b := by
    have hp : st'.persistOff = st.persistOff := by rw [h.scalars]
    have h2 := h'.persist b
    rw [hp] at h2
    exact h2.trans (h.persist b)

theorem slotCount (h : HeapFrame st st' cs) : st'.slotCount = st.slotCount := by rw [h.scalars]
theorem persistOff (h : HeapFrame st st' cs) : st'.persistOff = st.persistOff := by rw [h.scalars]
theorem dataLow (h : HeapFrame st st' cs) : st'.dataLow = st.dataLow := by rw [h.scalars]
theorem bufSize (h : HeapFrame st st' cs) : st'.bufSize = st.bufSize := by rw [h.scalars]

theorem size (h : HeapFrame st st' cs) {o : UInt32} (ho : o ∈ cs) :
    (getChunk st' o).size = (getChunk st o).size :=
  congrArg ChunkCore.size (h.core o ho)

theorem chunkSize (h : HeapFrame st st' cs) {o : UInt32} (ho : o ∈ cs) :
    Leaf.chunkSize st' o = Leaf.chunkSize st o := by
  unfold Leaf.chunkSize
  rw [h.size ho]

end HeapFrame

variable {st : LeafState} {cs : List UInt32}

/-- A header rewrite that keeps kind, owner, size and use. -/
theorem Arena.heapFrame_putChunk (A : Arena st cs) {o : UInt32} (ho : o ∈ cs) {hdr : ChunkHdr}
    (hkind : hdr.kind = (getChunk st o).kind) (howner : hdr.owner = (getChunk st o).owner)
    (hsize : hdr.size = (getChunk st o).size) (hused : hdr.used = (getChunk st o).used) :
    HeapFrame st (Leaf.putChunk st o hdr) cs where
  scalars := rfl
  core o' ho' := by
    have hsize' : Leaf.chunkSize (Leaf.putChunk st o hdr) o' = Leaf.chunkSize st o' := by
      unfold Leaf.chunkSize
      rw [A.getChunk_putChunk ho ho']
      split
      · next h => rw [hsize, h]
      · rfl
    have hread := A.read_putChunk ho ho' hdr (n := Leaf.chunkSize st o' - sizeofChunkHdr)
      (by have := (A.mem_bounds ho').2.1; omega)
    unfold coreAt
    rw [hsize', hread, A.getChunk_putChunk ho ho']
    split
    · next h => rw [hkind, howner, hsize, hused, h]
    · rfl
  persist b := by
    have h1 := A.mem_bounds ho
    apply Mem.write_agreeOn
    right
    rw [ChunkHdr.layout.enc_length]
    simp only [ChunkHdr.layout_size]
    omega

theorem Arena.heapFrame_putSlot (A : Arena st cs) {s : UInt16} (hs : s < st.slotCount)
    (r : SpanRec) : HeapFrame st (Leaf.putSlot st s r) cs where
  scalars := rfl
  core o ho := by
    have hlow := (A.tiles.mem_bounds ho).1
    have hread := A.read_putSlot hs r (a := chunkPayload o)
      (n := Leaf.chunkSize st o - sizeofChunkHdr) (by unfold chunkPayload; omega)
    unfold coreAt Leaf.chunkSize at *
    rw [A.getChunk_putSlot hs ho, hread]
  persist b := by
    have h1 := slotOff_lt_tableEnd hs
    have h2 := A.table_le
    have h3 := A.tiles.le
    apply Mem.write_agreeOn
    right
    rw [SpanRec.layout.enc_length]
    simp only [SpanRec.layout_size]
    omega

theorem UInt32.eq_ofNat_of_toNat {x : UInt32} {n : Nat} (h : x.toNat = n) : x = UInt32.ofNat n := by
  rw [← h, UInt32.ofNat_toNat]

theorem Arena.fuel_le (A : Arena st cs) : cs.length ≤ st.bufSize.toNat := by
  have h1 := A.tiles.length_le
  have h2 := A.persist_le
  rw [show sizeofChunkHdr = 24 from rfl] at h1
  omega

/-! ### Pass 1 -/

section Plan

variable {w ω : Word32}

/-- The first loop of the plan, with `rest` still to visit. -/
def PlanLiveInv (st : LeafState) (cs rest : List UInt32) (s : UInt32 × UInt32) : Prop :=
  Tiles st s.1.toNat rest st.persistOff.toNat ∧ s.2.toNat + liveBytes st rest = liveBytes st cs

theorem planLive_eq (A : Arena st cs) : planLive w st = UInt32.ofNat (liveBytes st cs) := by
  have hbound := A.tiles.liveBytes_le
  have hpersist := A.persist_lt
  have hrun := whileLoop_visits
    (fun s : UInt32 × UInt32 => decide (s.1 < st.persistOff))
    (fun s : UInt32 × UInt32 =>
      (w.add s.1 (getChunk st s.1).size,
        w.add s.2 (if chunkLive st (getChunk st s.1) then (getChunk st s.1).size else 0)))
    (PlanLiveInv st cs)
    (by
      rintro ⟨off, live⟩ ⟨htiles, -⟩
      have hoff : off.toNat = st.persistOff.toNat := htiles
      simp only [decide_eq_false_iff_not, UInt32.lt_iff_toNat_lt]
      omega)
    (by
      rintro o rest ⟨off, live⟩ ⟨⟨hoff, hmin, hrest⟩, hlive⟩
      obtain rfl : o = off := UInt32.toNat_inj.mp hoff
      have hle := hrest.liveBytes_le
      have hsize : chunkSize st o = (getChunk st o).size.toNat := rfl
      have hhdr : sizeofChunkHdr = 24 := rfl
      simp only [liveBytes, isLive] at hlive hle
      dsimp only
      refine ⟨?_, ?_, ?_⟩
      · simp only [decide_eq_true_eq, UInt32.lt_iff_toNat_lt]
        omega
      · rw [Word32.toNat_add (by omega)]
        exact hrest
      · by_cases h : chunkLive st (getChunk st o) = true
        · simp only [h, if_true] at hlive ⊢
          rw [Word32.toNat_add (by omega)]
          omega
        · simp only [h, Bool.false_eq_true, if_false] at hlive ⊢
          rw [Word32.toNat_add (by simp; omega)]
          simp
          omega)
    cs (st.dataLow, 0) st.bufSize.toNat A.fuel_le ⟨A.tiles, by simp⟩
  have hfinal := hrun.2
  simp only [liveBytes, Nat.add_zero] at hfinal
  exact UInt32.eq_ofNat_of_toNat hfinal

theorem newLow_toNat (A : Arena st cs) :
    (w.sub st.persistOff (planLive w st)).toNat = st.persistOff.toNat - liveBytes st cs := by
  have hbound := A.tiles.liveBytes_le
  have hpersist := A.persist_lt
  rw [planLive_eq A]
  have hcast : (UInt32.ofNat (liveBytes st cs)).toNat = liveBytes st cs :=
    Word32.toNat_ofNat_of_lt (by omega)
  rw [Word32.toNat_sub (by omega), hcast]

/-- The second loop of the plan: `done` has been planned, `rest` has not. -/
structure PlanInv (st : LeafState) (cs done rest : List UInt32) (s : PlanState) : Prop where
  split : cs = done ++ rest
  tiles : Tiles st s.off.toNat rest st.persistOff.toNat
  below : s.below = last none32 done
  pos : s.pos.toNat + liveBytes st rest = st.persistOff.toNat
  arena : Arena s.st cs
  frame : HeapFrame st s.st cs
  slots : ∀ t < st.slotCount, getSlot s.st t = getSlot st t
  planned : ∀ pre o post, done = pre ++ o :: post →
    getChunk s.st o =
      { getChunk st o with below := last none32 pre, fwd := target st (o :: post ++ rest) }
  unplanned : ∀ o ∈ rest, getChunk s.st o = getChunk st o

theorem PlanInv.step {done rest : List UInt32} {o : UInt32} {s : PlanState}
    (I : PlanInv st cs done (o :: rest) s) (hlt : st.persistOff.toNat < 0xffffffff) :
    s.off = o ∧ (getChunk s.st o).size.toNat + o.toNat ≤ st.persistOff.toNat ∧
      (chunkLive s.st (getChunk st o) = true →
        s.pos.toNat + (getChunk st o).size.toNat ≤ st.persistOff.toNat) ∧
      PlanInv st cs (done ++ [o]) rest (planStep w s) := by
  obtain ⟨htoNat, hmin, hrest⟩ := I.tiles
  have hoff : s.off = o := UInt32.toNat_inj.mp htoNat.symm
  have ho : o ∈ cs := by rw [I.split]; simp
  have hhdr : getChunk s.st o = getChunk st o := I.unplanned o (by simp)
  have hsize : chunkSize st o = (getChunk st o).size.toNat := rfl
  have hle := hrest.le
  have hlive : chunkLive s.st (getChunk st o) = isLive st o :=
    chunkLive_congr rfl rfl I.frame.slotCount fun t ht => by rw [I.slots t ht]
  have hpos := I.pos
  simp only [liveBytes] at hpos
  have htarget : isLive st o = true → s.pos = target st (o :: rest) := by
    intro h
    simp only [target, liveBytes, h, if_true]
    apply UInt32.eq_ofNat_of_toNat
    rw [h] at hpos
    simp only [if_true] at hpos
    omega
  have hfwd : (if isLive st o = true then s.pos else none32) = target st (o :: rest) := by
    split
    · next h => exact htarget h
    · next h => simp [target, h]
  -- The header the round writes back.
  have hstep : planStep w s =
      { st := putChunk s.st o
          { getChunk st o with below := last none32 done, fwd := target st (o :: rest) }
        off := w.add o (getChunk st o).size
        below := o
        pos := if isLive st o then w.add s.pos (getChunk st o).size else s.pos } := by
    simp only [planStep, hoff, hhdr, I.below, hlive, hfwd]
  have hframe : HeapFrame s.st (planStep w s).st cs := by
    rw [hstep]
    exact I.arena.heapFrame_putChunk ho (by rw [hhdr]) (by rw [hhdr]) (by rw [hhdr]) (by rw [hhdr])
  have hnodup := I.arena.tiles.nodup
  rw [I.split] at hnodup
  have hdisj : ∀ x ∈ done, x ≠ o := by
    rintro x hx rfl
    exact (List.disjoint_of_nodup_append hnodup) hx (by simp)
  refine ⟨hoff, by rw [hhdr]; omega, ?_, ?_⟩
  · intro h
    rw [hlive] at h
    rw [h] at hpos
    simp only [if_true] at hpos
    omega
  · refine ⟨by rw [I.split]; simp, ?_, ?_, ?_, ?_, I.frame.trans hframe, ?_, ?_, ?_⟩
    · rw [hstep]
      simp only
      rw [Word32.toNat_add (by omega), htoNat]
      exact hrest
    · rw [hstep, last_concat]
    · rw [hstep]
      simp only
      split at hpos
      · next h =>
        rw [if_pos h, Word32.toNat_add (by omega)]
        omega
      · next h =>
        rw [if_neg h]
        omega
    · rw [hstep]
      exact I.arena.putChunk ho (by rw [hhdr])
    · intro t ht
      rw [hstep]
      simp only
      rw [I.arena.getSlot_putChunk ho (by rw [I.frame.slotCount]; exact ht), I.slots t ht]
    · intro pre x post hsplit
      rw [hstep]
      simp only
      rcases List.eq_nil_or_concat' post with rfl | ⟨post, y, rfl⟩
      · obtain ⟨rfl, heq⟩ := List.append_inj' hsplit rfl
        obtain rfl : o = x := by simpa using heq
        rw [getChunk_putChunk_self]
        rfl
      · have hsplit' : done ++ [o] = (pre ++ x :: post) ++ [y] := by simpa using hsplit
        obtain ⟨hdone, heq⟩ := List.append_inj' hsplit' rfl
        obtain rfl : o = y := by simpa using heq
        have hx : x ∈ done := by rw [hdone]; simp
        have hxcs : x ∈ cs := by rw [I.split]; simp [hx]
        rw [I.arena.getChunk_putChunk ho hxcs, if_neg (hdisj x hx), I.planned pre x post hdone]
        simp
    · intro x hx
      rw [hstep]
      simp only
      have hxcs : x ∈ cs := by rw [I.split]; simp [hx]
      have hne : x ≠ o := by
        rintro rfl
        have := hnodup.sublist (List.sublist_append_right done (x :: rest))
        simp [hx] at this
      rw [I.arena.getChunk_putChunk ho hxcs, if_neg hne]
      exact I.unplanned x (by simp [hx])

theorem PlanInv.init (A : Arena st cs) :
    PlanInv st cs [] cs ⟨st, st.dataLow, none32, w.sub st.persistOff (planLive w st)⟩ where
  split := rfl
  tiles := A.tiles
  below := rfl
  pos := by
    have hbound := A.tiles.liveBytes_le
    have hlow := newLow_toNat (w := w) A
    dsimp only
    omega
  arena := A
  frame := HeapFrame.refl st cs
  slots _ _ := rfl
  planned pre o post h := by simp at h
  unplanned _ _ := rfl

theorem PlanInv.at_end {done : List UInt32} {s : PlanState} (I : PlanInv st cs done [] s) :
    decide (s.off < st.persistOff) = false := by
  have hoff : s.off.toNat = st.persistOff.toNat := I.tiles
  simp only [decide_eq_false_iff_not, UInt32.lt_iff_toNat_lt]
  omega

/-- What the rounds of the plan keep holds of the planned state. -/
theorem compactPlan_rule (A : Arena st cs) (E : List UInt32 → LeafState → Prop) (hinit : E [] st)
    (hround : ∀ done o rest s, PlanInv st cs done (o :: rest) s → E done s.st →
      E (done ++ [o]) (planStep w s).st) :
    ∃ s, PlanInv st cs cs [] s ∧ E cs s.st ∧
      compactPlan w st = (s.st, w.sub st.persistOff (planLive w st), last none32 cs) := by
  have hrun := whileLoop_visits (fun s => decide (s.off < st.persistOff))
    (planStep w) (fun rest s => ∃ done, PlanInv st cs done rest s ∧ E done s.st)
    (by
      rintro s ⟨done, I, -⟩
      exact I.at_end)
    (by
      rintro o rest s ⟨done, I, hE⟩
      obtain ⟨hoff, -, -, hnext⟩ := I.step (w := w) A.persist_lt
      obtain ⟨-, hmin, hrest⟩ := I.tiles
      have hle := hrest.le
      have hhdr : sizeofChunkHdr = 24 := rfl
      refine ⟨?_, done ++ [o], hnext, hround done o rest s I hE⟩
      simp only [decide_eq_true_eq, UInt32.lt_iff_toNat_lt]
      omega)
    cs ⟨st, st.dataLow, none32, w.sub st.persistOff (planLive w st)⟩ st.bufSize.toNat A.fuel_le
    ⟨[], PlanInv.init A, hinit⟩
  obtain ⟨done, I, hE⟩ := hrun
  obtain rfl : cs = done := by simpa using I.split
  refine ⟨_, I, hE, ?_⟩
  unfold compactPlan
  rw [← I.below]

/-- The planned state: every header has its `below` link and its forwarding
offset, and nothing else has changed. -/
theorem compactPlan_spec (A : Arena st cs) :
    ∃ s, PlanInv st cs cs [] s ∧
      compactPlan w st = (s.st, w.sub st.persistOff (planLive w st), last none32 cs) := by
  obtain ⟨s, I, -, hplan⟩ := compactPlan_rule (w := w) A (fun _ _ => True) trivial
    fun _ _ _ _ _ _ => trivial
  exact ⟨s, I, hplan⟩

/-- No sum or difference of the plan leaves 32 bits. -/
theorem compactPlan_word (A : Arena st cs) : compactPlan w st = compactPlan ω st := by
  have hlow : w.sub st.persistOff (planLive w st) = ω.sub st.persistOff (planLive ω st) := by
    apply UInt32.toNat_inj.mp
    rw [newLow_toNat A, newLow_toNat A]
  have hloop := whileLoop_congr (fun s => decide (s.off < st.persistOff))
    (planStep ω) (planStep w) (fun rest s => ∃ done, PlanInv st cs done rest s)
    (by
      rintro s ⟨done, I⟩
      exact I.at_end)
    (by
      rintro o rest s ⟨done, I⟩
      obtain ⟨hoff, hsize, hpos, hnext⟩ := I.step (w := ω) A.persist_lt
      refine ⟨?_, done ++ [o], hnext⟩
      have hhdr : getChunk s.st o = getChunk st o := I.unplanned o (by simp)
      have hlt := A.persist_lt
      rw [hhdr] at hsize
      have hadd : w.add o (getChunk st o).size = ω.add o (getChunk st o).size :=
        Word32.add_any (by omega)
      by_cases hlive : chunkLive s.st (getChunk st o) = true
      · have hpos := hpos hlive
        have hadd' : w.add s.pos (getChunk st o).size = ω.add s.pos (getChunk st o).size :=
          Word32.add_any (by omega)
        simp only [planStep, hoff, hhdr, hadd, hlive, hadd']
      · simp only [planStep, hoff, hhdr, hadd, hlive, Bool.false_eq_true, if_false])
    cs ⟨st, st.dataLow, none32, ω.sub st.persistOff (planLive ω st)⟩ st.bufSize.toNat
    ⟨[], PlanInv.init A⟩
  simp only [compactPlan, hlow, hloop]

end Plan

/-! ### Pass 2 -/

/-- Every stored reference that pass 2 follows is the null offset or a chunk. -/
structure Refs (st : LeafState) (cs : List UInt32) : Prop where
  head : ∀ t < st.slotCount, (getSlot st t).state ≠ .free →
    (getSlot st t).head = none32 ∨ (getSlot st t).head ∈ cs
  tail : ∀ t < st.slotCount, (getSlot st t).state ≠ .free →
    (getSlot st t).tail = none32 ∨ (getSlot st t).tail ∈ cs
  next : ∀ o ∈ cs, isLive st o = true →
    (getChunk st o).next = none32 ∨ (getChunk st o).next ∈ cs

theorem forward_none (st : LeafState) : forward st none32 = none32 := by
  simp [forward]

theorem forward_congr {st st' : LeafState}
    (h : ∀ o ∈ cs, (getChunk st' o).fwd = (getChunk st o).fwd)
    {o : UInt32} (ho : o = none32 ∨ o ∈ cs) : forward st' o = forward st o := by
  rcases ho with rfl | ho
  · rw [forward_none, forward_none]
  · unfold forward
    rw [h o ho]

/-- A slot record after pass 2, with the references mapped by `φ`. -/
def fixedSlot (φ : UInt32 → UInt32) (r : SpanRec) : SpanRec :=
  if r.state ≠ .free then { r with head := φ r.head, tail := φ r.tail } else r

/-- The slot loop of pass 2, with `rest` still to visit. -/
structure FixSlotInv (st : LeafState) (cs : List UInt32) (done rest : List UInt16)
    (s : LeafState) : Prop where
  arena : Arena s cs
  frame : HeapFrame st s cs
  headers : ∀ o ∈ cs, getChunk s o = getChunk st o
  fixed : ∀ t ∈ done, getSlot s t = fixedSlot (forward st) (getSlot st t)
  unfixed : ∀ t < st.slotCount, t ∉ done → getSlot s t = getSlot st t

theorem FixSlotInv.step {done rest : List UInt16} {t : UInt16} {s : LeafState}
    (R : Refs st cs) (I : FixSlotInv st cs done (t :: rest) s) (ht : t < st.slotCount)
    (hnew : t ∉ done) : FixSlotInv st cs (done ++ [t]) rest (fixSlot s t) := by
  have hslot : getSlot s t = getSlot st t := I.unfixed t ht hnew
  have hts : t < s.slotCount := by rw [I.frame.slotCount]; exact ht
  have hfwd : ∀ o, o = none32 ∨ o ∈ cs → forward s o = forward st o := fun o ho =>
    forward_congr (fun o ho => by rw [I.headers o ho]) ho
  by_cases hfree : (getSlot st t).state = .free
  · have hstep : fixSlot s t = s := by simp [fixSlot, hslot, hfree]
    rw [hstep]
    refine ⟨I.arena, I.frame, I.headers, ?_, ?_⟩
    · intro u hu
      rcases List.mem_append.mp hu with hu | hu
      · exact I.fixed u hu
      · obtain rfl : u = t := by simpa using hu
        simp [fixedSlot, hslot, hfree]
    · intro u hu hnot
      exact I.unfixed u hu fun h => hnot (by simp [h])
  · have hstep : fixSlot s t = putSlot s t (fixedSlot (forward st) (getSlot st t)) := by
      have hhead := hfwd _ (R.head t ht hfree)
      have htail := hfwd _ (R.tail t ht hfree)
      simp [fixSlot, fixedSlot, hslot, hfree, hhead, htail]
    rw [hstep]
    refine ⟨I.arena.putSlot hts _, I.frame.trans (I.arena.heapFrame_putSlot hts _), ?_, ?_, ?_⟩
    · intro o ho
      rw [I.arena.getChunk_putSlot hts ho, I.headers o ho]
    · intro u hu
      rw [getSlot_putSlot]
      split
      · next h => rw [h]
      · next h =>
        have hu' : u ∈ done := by simpa [h] using hu
        exact I.fixed u hu'
    · intro u hu hnot
      have hne : u ≠ t := by
        rintro rfl
        simp at hnot
      rw [getSlot_putSlot_of_ne s _ hne]
      exact I.unfixed u hu fun h => hnot (by simp [h])

theorem FixSlotInv.run (R : Refs st cs) (rest done : List UInt16) (s : LeafState)
    (hrest : ∀ t ∈ rest, t < st.slotCount) (hnodup : (done ++ rest).Nodup)
    (I : FixSlotInv st cs done rest s) :
    FixSlotInv st cs (done ++ rest) [] (rest.foldl fixSlot s) := by
  induction rest generalizing done s with
  | nil => simpa using I
  | cons t rest ih =>
      have hnew : t ∉ done := by
        intro h
        exact (List.disjoint_of_nodup_append hnodup) h (by simp)
      have hstep := I.step R (hrest t (by simp)) hnew
      have hsplit : done ++ t :: rest = (done ++ [t]) ++ rest := by simp
      rw [hsplit] at hnodup ⊢
      exact ih (done ++ [t]) (fixSlot s t) (fun u hu => hrest u (by simp [hu])) hnodup hstep

theorem mem_slots {st : LeafState} {t : UInt16} : t ∈ slots st ↔ t < st.slotCount := by
  unfold slots
  rw [List.mem_map, UInt16.lt_iff_toNat_lt]
  constructor
  · rintro ⟨n, hn, rfl⟩
    have h1 := List.mem_range.mp hn
    have h2 := st.slotCount.toNat_lt
    rw [UInt16.toNat_ofNat', Nat.mod_eq_of_lt (by omega)]
    exact h1
  · intro h
    exact ⟨t.toNat, List.mem_range.mpr h, by simp⟩

theorem slots_nodup (st : LeafState) : (slots st).Nodup := by
  unfold slots
  refine List.Nodup.map_on ?_ List.nodup_range
  intro a ha b hb hab
  have h1 := List.mem_range.mp ha
  have h2 := List.mem_range.mp hb
  have h3 := st.slotCount.toNat_lt
  have h4 := congrArg UInt16.toNat hab
  rwa [UInt16.toNat_ofNat', UInt16.toNat_ofNat', Nat.mod_eq_of_lt (by omega),
    Nat.mod_eq_of_lt (by omega)] at h4

theorem fixSlots_spec (A : Arena st cs) (R : Refs st cs) :
    FixSlotInv st cs (slots st) [] ((slots st).foldl fixSlot st) := by
  have I : FixSlotInv st cs [] (slots st) st :=
    ⟨A, HeapFrame.refl st cs, fun _ _ => rfl, by simp, fun _ _ _ => rfl⟩
  have hrun :=
    I.run R (slots st) [] st (fun t ht => mem_slots.mp ht) (by simpa using slots_nodup st)
  simpa using hrun

/-- A chunk header after pass 2. -/
def fixedChunk (φ : UInt32 → UInt32) (hdr : ChunkHdr) : ChunkHdr :=
  if hdr.fwd ≠ none32 then { hdr with next := φ hdr.next } else hdr

theorem fixedChunk_fwd (φ : UInt32 → UInt32) (hdr : ChunkHdr) :
    (fixedChunk φ hdr).fwd = hdr.fwd := by
  unfold fixedChunk
  split <;> rfl

theorem fixedChunk_size (φ : UInt32 → UInt32) (hdr : ChunkHdr) :
    (fixedChunk φ hdr).size = hdr.size := by
  unfold fixedChunk
  split <;> rfl

theorem fixedChunk_below (φ : UInt32 → UInt32) (hdr : ChunkHdr) :
    (fixedChunk φ hdr).below = hdr.below := by
  unfold fixedChunk
  split <;> rfl

/-- The chunk loop of pass 2: `done` has been fixed, `rest` has not. -/
structure FixChunkInv (st : LeafState) (cs done rest : List UInt32) (s : LeafState × UInt32) :
    Prop where
  split : cs = done ++ rest
  tiles : Tiles st s.2.toNat rest st.persistOff.toNat
  arena : Arena s.1 cs
  frame : HeapFrame st s.1 cs
  slots : ∀ t < st.slotCount, getSlot s.1 t = getSlot st t
  fixed : ∀ o ∈ done, getChunk s.1 o = fixedChunk (forward st) (getChunk st o)
  unfixed : ∀ o ∈ rest, getChunk s.1 o = getChunk st o

section Fix

variable {w ω : Word32}

theorem FixChunkInv.step {done rest : List UInt32} {o : UInt32} {s : LeafState × UInt32}
    (hrefs : (getChunk st o).fwd ≠ none32 →
      (getChunk st o).next = none32 ∨ (getChunk st o).next ∈ cs)
    (I : FixChunkInv st cs done (o :: rest) s) (hlt : st.persistOff.toNat < 0xffffffff) :
    s.2 = o ∧ o.toNat + (getChunk s.1 o).size.toNat ≤ st.persistOff.toNat ∧
      FixChunkInv st cs (done ++ [o]) rest (fixStep w s) := by
  obtain ⟨htoNat, hmin, hrest⟩ := I.tiles
  have hoff : s.2 = o := UInt32.toNat_inj.mp htoNat.symm
  have ho : o ∈ cs := by rw [I.split]; simp
  have hhdr : getChunk s.1 o = getChunk st o := I.unfixed o (by simp)
  have hsize : chunkSize st o = (getChunk st o).size.toNat := rfl
  have hle := hrest.le
  have hnodup := I.arena.tiles.nodup
  rw [I.split] at hnodup
  have hdone : ∀ x ∈ done, x ≠ o := by
    rintro x hx rfl
    exact (List.disjoint_of_nodup_append hnodup) hx (by simp)
  have hrestne : ∀ x ∈ rest, x ≠ o := by
    rintro x hx rfl
    have := hnodup.sublist (List.sublist_append_right done (x :: rest))
    simp [hx] at this
  have hfwdAll : ∀ x ∈ cs, (getChunk s.1 x).fwd = (getChunk st x).fwd := by
    intro x hx
    rw [I.split] at hx
    rcases List.mem_append.mp hx with hx | hx
    · rw [I.fixed x hx, fixedChunk_fwd]
    · rw [I.unfixed x hx]
  have htiles : Tiles st (w.add o (getChunk st o).size).toNat rest st.persistOff.toNat := by
    rw [Word32.toNat_add (by omega), htoNat]
    exact hrest
  refine ⟨hoff, by rw [hhdr]; omega, ?_⟩
  by_cases hdead : (getChunk st o).fwd = none32
  · have hstep : fixStep w s = (s.1, w.add o (getChunk st o).size) := by
      simp [fixStep, hoff, hhdr, hdead]
    rw [hstep]
    refine ⟨by rw [I.split]; simp, htiles, I.arena, I.frame, I.slots, ?_, ?_⟩
    · intro x hx
      rcases List.mem_append.mp hx with hx | hx
      · exact I.fixed x hx
      · obtain rfl : x = o := by simpa using hx
        simp [fixedChunk, hhdr, hdead]
    · intro x hx
      exact I.unfixed x (by simp [hx])
  · have hstep : fixStep w s =
        (putChunk s.1 o (fixedChunk (forward st) (getChunk st o)),
          w.add o (getChunk st o).size) := by
      have hnext := forward_congr hfwdAll (hrefs hdead)
      simp [fixStep, fixedChunk, hoff, hhdr, hdead, hnext]
    rw [hstep]
    have hcore : HeapFrame s.1 (putChunk s.1 o (fixedChunk (forward st) (getChunk st o))) cs := by
      apply I.arena.heapFrame_putChunk ho <;> rw [hhdr] <;> simp [fixedChunk, hdead]
    refine ⟨by rw [I.split]; simp, htiles, ?_, I.frame.trans hcore, ?_, ?_, ?_⟩
    · exact I.arena.putChunk ho (by rw [hhdr, fixedChunk_size])
    · intro t ht
      dsimp only
      rw [I.arena.getSlot_putChunk ho (by rw [I.frame.slotCount]; exact ht), I.slots t ht]
    · intro x hx
      have hxcs : x ∈ cs := by
        rw [I.split]
        rcases List.mem_append.mp hx with hx | hx
        · simp [hx]
        · simp [List.mem_singleton.mp hx]
      dsimp only
      rw [I.arena.getChunk_putChunk ho hxcs]
      split
      · next h => rw [h]
      · next h => exact I.fixed x (by simpa [h] using hx)
    · intro x hx
      have hxcs : x ∈ cs := by rw [I.split]; simp [hx]
      dsimp only
      rw [I.arena.getChunk_putChunk ho hxcs, if_neg (hrestne x hx)]
      exact I.unfixed x (by simp [hx])

theorem FixChunkInv.at_end {done : List UInt32} {s : LeafState × UInt32}
    (I : FixChunkInv st cs done [] s) : decide (s.2 < st.persistOff) = false := by
  have hoff : s.2.toNat = st.persistOff.toNat := I.tiles
  simp only [decide_eq_false_iff_not, UInt32.lt_iff_toNat_lt]
  omega

theorem FixChunkInv.init (A : Arena st cs) : FixChunkInv st cs [] cs (st, st.dataLow) :=
  ⟨rfl, A.tiles, A, HeapFrame.refl st cs, fun _ _ => rfl, by simp, fun _ _ => rfl⟩

/-- What the rounds of the chunk loop keep holds at its end. -/
theorem fixChunks_rule (A : Arena st cs)
    (hrefs : ∀ o ∈ cs, (getChunk st o).fwd ≠ none32 →
      (getChunk st o).next = none32 ∨ (getChunk st o).next ∈ cs)
    (E : LeafState → Prop) (hinit : E st)
    (hround : ∀ done o rest s, FixChunkInv st cs done (o :: rest) s → E s.1 →
      E (fixStep w s).1) :
    FixChunkInv st cs cs [] (whileLoop (fun s => decide (s.2 < st.persistOff)) (fixStep w)
        st.bufSize.toNat (st, st.dataLow)) ∧
      E (whileLoop (fun s => decide (s.2 < st.persistOff)) (fixStep w)
        st.bufSize.toNat (st, st.dataLow)).1 := by
  have hrun := whileLoop_visits (fun s => decide (s.2 < st.persistOff))
    (fixStep w) (fun rest s => ∃ done, FixChunkInv st cs done rest s ∧ E s.1)
    (by
      rintro s ⟨done, I, -⟩
      exact I.at_end)
    (by
      rintro o rest s ⟨done, I, hE⟩
      have ho : o ∈ cs := by rw [I.split]; simp
      obtain ⟨hoff, -, hnext⟩ := I.step (w := w) (hrefs o ho) A.persist_lt
      obtain ⟨-, hmin, hrest⟩ := I.tiles
      have hle := hrest.le
      have hhdr : sizeofChunkHdr = 24 := rfl
      refine ⟨?_, done ++ [o], hnext, hround done o rest s I hE⟩
      simp only [decide_eq_true_eq, UInt32.lt_iff_toNat_lt]
      omega)
    cs (st, st.dataLow) st.bufSize.toNat A.fuel_le ⟨[], FixChunkInv.init A, hinit⟩
  obtain ⟨done, I, hE⟩ := hrun
  obtain rfl : cs = done := by simpa using I.split
  exact ⟨I, hE⟩

theorem fixChunks_spec (A : Arena st cs)
    (hrefs : ∀ o ∈ cs, (getChunk st o).fwd ≠ none32 →
      (getChunk st o).next = none32 ∨ (getChunk st o).next ∈ cs) :
    FixChunkInv st cs cs [] (whileLoop (fun s => decide (s.2 < st.persistOff)) (fixStep w)
      st.bufSize.toNat (st, st.dataLow)) :=
  (fixChunks_rule (w := w) A hrefs (fun _ => True) trivial fun _ _ _ _ _ _ => trivial).1

theorem fixChunks_word (A : Arena st cs)
    (hrefs : ∀ o ∈ cs, (getChunk st o).fwd ≠ none32 →
      (getChunk st o).next = none32 ∨ (getChunk st o).next ∈ cs) :
    whileLoop (fun s => decide (s.2 < st.persistOff)) (fixStep w) st.bufSize.toNat
        (st, st.dataLow) =
      whileLoop (fun s => decide (s.2 < st.persistOff)) (fixStep ω) st.bufSize.toNat
        (st, st.dataLow) := by
  refine whileLoop_congr _ _ _ (fun rest s => ∃ done, FixChunkInv st cs done rest s) ?_ ?_
    cs (st, st.dataLow) st.bufSize.toNat ⟨[], FixChunkInv.init A⟩
  · rintro s ⟨done, I⟩
    exact I.at_end
  · rintro o rest s ⟨done, I⟩
    have ho : o ∈ cs := by rw [I.split]; simp
    obtain ⟨hoff, hsize, hnext⟩ := I.step (w := ω) (hrefs o ho) A.persist_lt
    have hlt := A.persist_lt
    have hadd : w.add o (getChunk s.1 o).size = ω.add o (getChunk s.1 o).size :=
      Word32.add_any (by omega)
    refine ⟨?_, done ++ [o], hnext⟩
    simp only [fixStep, hoff, hadd]

end Fix

end Microtel.Leaf
