import Microtel.Leaf.Compaction

/-!
Pass 3 of the compaction (`compact_move`) and the compaction as a whole. The
move visits the chunks topmost first, so a chunk is only ever copied over bytes
of chunks that have already been copied or were dead.
-/

namespace Microtel.Leaf

open ByteMemory Loop LinkedList

variable {st st₀ : LeafState} {cs : List UInt32}

theorem target_toNat {o : UInt32} (post : List UInt32) (hlive : isLive st o = true)
    (hlt : st.persistOff.toNat < 0xffffffff) :
    (target st (o :: post)).toNat = st.persistOff.toNat - liveBytes st (o :: post) := by
  simp only [target, hlive, if_true]
  rw [Word32.toNat_ofNat_of_lt (by omega)]

theorem target_dead {o : UInt32} {post : List UInt32} (hdead : isLive st o = false) :
    target st (o :: post) = none32 := by
  simp [target, hdead]

theorem target_ne_none {o : UInt32} {post : List UInt32} (hlive : isLive st o = true)
    (hlt : st.persistOff.toNat < 0xffffffff) : target st (o :: post) ≠ none32 := by
  intro h
  have h1 := target_toNat post hlive hlt
  have h2 : none32.toNat = 0xffffffff := rfl
  rw [h] at h1
  omega

/-- What pass 3 relies on: the arena of the plan (`st₀`), with the links and
forwarding offsets of the plan in the headers of `st`. -/
structure MoveReady (st₀ st : LeafState) (cs : List UInt32) : Prop where
  arena₀ : Arena st₀ cs
  arena : Arena st cs
  frame : HeapFrame st₀ st cs
  planned : ∀ pre o post, cs = pre ++ o :: post →
    (getChunk st o).below = last none32 pre ∧ (getChunk st o).fwd = target st₀ (o :: post)

/-- The move loop: `post` has been moved, `pre` has not. -/
structure MoveInv (st₀ st : LeafState) (cs pre post : List UInt32) (s : LeafState × UInt32) :
    Prop where
  split : cs = pre ++ post
  top : s.2 = last none32 pre
  scalars : s.1 = { st with mem := s.1.mem, high := s.1.high }
  unmoved : ∀ mid, Tiles st₀ st₀.dataLow.toNat pre mid → Mem.AgreeOn s.1.mem st.mem 0 mid
  moved : ∀ a o b, post = a ++ o :: b → isLive st₀ o = true →
    s.1.mem.read (target st₀ (o :: b)).toNat (chunkSize st₀ o) =
      st.mem.read o.toNat (chunkSize st₀ o)
  persist : ∀ b, Mem.AgreeOn s.1.mem st.mem st₀.persistOff.toNat b
  high_le : s.1.high ≤ st₀.persistOff.toNat

theorem MoveInv.step {pre post : List UInt32} {o : UInt32} {s : LeafState × UInt32}
    (M : MoveReady st₀ st cs) (I : MoveInv st₀ st cs (pre ++ [o]) post s) :
    s.2 = o ∧ o ≠ none32 ∧ MoveInv st₀ st cs pre (o :: post) (moveStep s) := by
  have hsplit : cs = pre ++ o :: post := by rw [I.split]; simp
  have ho : o ∈ cs := by rw [hsplit]; simp
  have hoff : s.2 = o := by rw [I.top, last_concat]
  have hlt := M.arena₀.persist_lt
  obtain ⟨hbelow, hfwd⟩ := M.planned pre o post hsplit
  have htiles := M.arena₀.tiles
  rw [hsplit] at htiles
  obtain ⟨lo, hpre, htoNat, hmin, hpost⟩ := Tiles.append_iff.mp htiles
  have hpostLive := hpost.liveBytes_le
  have hsizeEq : (getChunk st o).size.toNat = chunkSize st₀ o := M.frame.chunkSize ho
  -- Everything up to the end of this chunk is still where it was.
  have hagree : Mem.AgreeOn s.1.mem st.mem 0 (lo + chunkSize st₀ o) :=
    I.unmoved _ (Tiles.append_iff.mpr ⟨lo, hpre, htoNat, hmin, rfl⟩)
  have hhdr : getChunk s.1 o = getChunk st o := by
    apply Mem.get_congr
    exact hagree.mono (by omega) (by simp only [ChunkHdr.layout_size]; omega)
  have hread : s.1.mem.read o.toNat (chunkSize st₀ o) = st.mem.read o.toNat (chunkSize st₀ o) := by
    apply Mem.AgreeOn.read
    exact hagree.mono (by omega) (by omega)
  have hlo : ∀ mid, Tiles st₀ st₀.dataLow.toNat pre mid → mid = lo :=
    fun mid hmid => hmid.end_unique hpre
  refine ⟨hoff, M.arena.mem_ne_none ho, ?_⟩
  have hnextTop : (moveStep s).2 = last none32 pre := by
    simp only [moveStep, hoff, hhdr, hbelow]
  by_cases hmove : (getChunk st o).fwd ≠ none32 ∧ (getChunk st o).fwd ≠ o
  · -- A live chunk that moves: its target lies at or above it, and ends where
    -- the targets of the chunks above it begin.
    have hlive : isLive st₀ o = true := by
      by_contra hdead
      exact hmove.1 (by rw [hfwd, target_dead (by simpa using hdead)])
    have htarget := target_toNat post hlive hlt
    have hbytes : liveBytes st₀ (o :: post) = chunkSize st₀ o + liveBytes st₀ post := by
      simp [liveBytes, hlive]
    have hstep : (moveStep s).1 =
        s.1.poke (target st₀ (o :: post)).toNat (st.mem.read o.toNat (chunkSize st₀ o)) := by
      simp only [moveStep, hoff, hhdr, if_pos hmove, hsizeEq, hread]
      rw [hfwd]
    refine ⟨hsplit, hnextTop, ?_, ?_, ?_, ?_, ?_⟩
    · rw [hstep, I.scalars]
      rfl
    · intro mid hmid
      rw [hlo mid hmid, hstep]
      refine Mem.AgreeOn.trans (Mem.write_agreeOn _ _ _ (Or.inl (by omega))) ?_
      exact hagree.mono (by omega) (by omega)
    · intro a x b hab hx
      rw [hstep]
      cases a with
      | nil =>
          obtain ⟨rfl, rfl⟩ : o = x ∧ post = b := by simpa using hab
          have hself := Mem.read_write s.1.mem (target st₀ (o :: post)).toNat
            (st.mem.read o.toNat (chunkSize st₀ o))
          rwa [Mem.read_length] at hself
      | cons y a =>
          obtain ⟨rfl, rfl⟩ : o = y ∧ post = a ++ x :: b := by simpa using hab
          have hx' := target_toNat b hx hlt
          have hsum := liveBytes_append st₀ a (x :: b)
          rw [read_poke, I.moved a x b rfl hx]
          right
          rw [Mem.read_length]
          omega
    · intro b
      rw [hstep]
      refine Mem.AgreeOn.trans (Mem.write_agreeOn _ _ _ (Or.inr ?_)) (I.persist b)
      rw [Mem.read_length]
      omega
    · rw [hstep]
      have := I.high_le
      change max s.1.high _ ≤ _
      rw [Mem.read_length]
      omega
  · -- Nothing is copied: the chunk is dead, or it is already in place.
    have hstep : (moveStep s).1 = s.1 := by
      simp only [moveStep, hoff, hhdr, if_neg hmove]
    refine ⟨hsplit, hnextTop, by rw [hstep]; exact I.scalars, ?_, ?_, ?_,
      by rw [hstep]; exact I.high_le⟩
    · intro mid hmid
      rw [hlo mid hmid, hstep]
      exact hagree.mono (by omega) (by omega)
    · intro a x b hab hx
      rw [hstep]
      cases a with
      | nil =>
          obtain ⟨rfl, rfl⟩ : o = x ∧ post = b := by simpa using hab
          have hstay : target st₀ (o :: post) = o := by
            by_contra hne
            rw [hfwd] at hmove
            exact hmove ⟨target_ne_none hx hlt, hne⟩
          rw [hstay, hread]
      | cons y a =>
          obtain ⟨rfl, rfl⟩ : o = y ∧ post = a ++ x :: b := by simpa using hab
          exact I.moved a x b rfl hx
    · intro b
      rw [hstep]
      exact I.persist b

/-- The move after any number of rounds: as many chunks from the top have been moved. -/
theorem MoveReady.rounds (M : MoveReady st₀ st cs) {k : Nat} (hk : k ≤ cs.length) :
    ∃ post, MoveInv st₀ st cs (cs.take (cs.length - k)) post
      (moveStep^[k] (st, last none32 cs)) := by
  induction k with
  | zero =>
      have hhigh := M.arena.high_le
      rw [M.frame.persistOff] at hhigh
      refine ⟨[], ?_⟩
      rw [Nat.sub_zero, List.take_length]
      exact ⟨by simp, rfl, rfl, fun _ _ => Mem.AgreeOn.refl _ _ _, by simp,
        fun _ => Mem.AgreeOn.refl _ _ _, hhigh⟩
  | succ k ih =>
      obtain ⟨post, I⟩ := ih (by omega)
      have hlt : cs.length - (k + 1) < cs.length := by omega
      have hsucc : cs.length - k = cs.length - (k + 1) + 1 := by omega
      rw [hsucc, List.take_add_one, List.getElem?_eq_getElem hlt] at I
      obtain ⟨-, -, hnext⟩ := I.step M
      refine ⟨cs[cs.length - (k + 1)] :: post, ?_⟩
      rw [Function.iterate_succ_apply']
      exact hnext

/-- The move runs one round a chunk. -/
theorem MoveReady.move_eq (M : MoveReady st₀ st cs) :
    compactMove st (last none32 cs) = (moveStep^[cs.length] (st, last none32 cs)).1 := by
  unfold compactMove
  rw [whileLoop_eq_iterate M.arena.fuel_le]
  · intro k hk
    obtain ⟨post, I⟩ := M.rounds hk.le
    have hmem : last none32 (cs.take (cs.length - k)) ∈ cs := by
      rcases last_mem none32 (cs.take (cs.length - k)) with hnil | hmem
      · rw [last_eq_nil_iff fun o ho => M.arena.mem_ne_none (List.mem_of_mem_take ho)] at hnil
        have hlen := congrArg List.length hnil
        rw [List.length_take, List.length_nil] at hlen
        omega
      · exact List.mem_of_mem_take hmem
    rw [I.top]
    exact decide_eq_true (M.arena.mem_ne_none hmem)
  · obtain ⟨post, I⟩ := M.rounds le_rfl
    rw [I.top, Nat.sub_self, List.take_zero]
    rfl

theorem compactMove_spec (M : MoveReady st₀ st cs) :
    ∃ x, MoveInv st₀ st cs [] cs (compactMove st (last none32 cs), x) := by
  obtain ⟨post, I⟩ := M.rounds le_rfl
  rw [Nat.sub_self, List.take_zero] at I
  obtain rfl : cs = post := I.split
  rw [M.move_eq]
  exact ⟨_, I⟩

/-! ### The whole compaction -/

/-- `st'` is `st` compacted: the live chunks, packed against the Resource in
their old order, each at the image under `φ` of its old offset. -/
structure Compacted (st st' : LeafState) (cs : List UInt32) (φ : UInt32 → UInt32) : Prop where
  scalars : st' = { st with mem := st'.mem, high := st'.high, dataLow := st'.dataLow }
  arena : Arena st' ((cs.filter (isLive st)).map φ)
  low : st'.dataLow.toNat = st.persistOff.toNat - liveBytes st cs
  none : φ none32 = none32
  core : ∀ o ∈ cs, isLive st o = true → coreAt st' (φ o) = coreAt st o
  next : ∀ o ∈ cs, isLive st o = true → (getChunk st' (φ o)).next = φ (getChunk st o).next
  slots : ∀ t < st.slotCount, getSlot st' t = fixedSlot φ (getSlot st t)
  persist : ∀ b, Mem.AgreeOn st'.mem st.mem st.persistOff.toNat b

/-- The moved live chunks of a suffix tile the top of the chunk region. -/
theorem tiles_moved {st' : LeafState} {φ : UInt32 → UInt32} {lo : Nat} {post : List UInt32}
    (htiles : Tiles st lo post st.persistOff.toNat)
    (hat : ∀ a o b, post = a ++ o :: b → isLive st o = true →
      (φ o).toNat = st.persistOff.toNat - liveBytes st (o :: b))
    (hsize : ∀ o ∈ post, isLive st o = true → chunkSize st' (φ o) = chunkSize st o) :
    Tiles st' (st.persistOff.toNat - liveBytes st post) ((post.filter (isLive st)).map φ)
      st.persistOff.toNat := by
  induction post generalizing lo with
  | nil => simp [Tiles, liveBytes]
  | cons o post ih =>
      obtain ⟨-, hmin, hrest⟩ := htiles
      have hle := hrest.liveBytes_le
      have hih := ih hrest
        (fun a x b hab hx => hat (o :: a) x b (by rw [hab]; rfl) hx)
        (fun x hx => hsize x (by simp [hx]))
      by_cases hlive : isLive st o = true
      · have ho := hat [] o post rfl hlive
        have hsz := hsize o (by simp) hlive
        have hbytes : liveBytes st (o :: post) = chunkSize st o + liveBytes st post := by
          simp [liveBytes, hlive]
        rw [List.filter_cons_of_pos hlive, List.map_cons]
        refine ⟨ho, by omega, ?_⟩
        have hstart : st.persistOff.toNat - liveBytes st (o :: post) + chunkSize st' (φ o) =
            st.persistOff.toNat - liveBytes st post := by omega
        rw [hstart]
        exact hih
      · have hbytes : liveBytes st (o :: post) = liveBytes st post := by
          simp [liveBytes, hlive]
        rw [List.filter_cons_of_neg hlive, hbytes]
        exact hih

section Compact

variable {w ω : Word32}

theorem Refs.congr {st' : LeafState} (R : Refs st cs) (hcount : st'.slotCount = st.slotCount)
    (hslots : ∀ t < st.slotCount, getSlot st' t = getSlot st t)
    (hlive : ∀ o ∈ cs, isLive st' o = isLive st o)
    (hnext : ∀ o ∈ cs, (getChunk st' o).next = (getChunk st o).next) : Refs st' cs where
  head t ht hfree := by
    rw [hcount] at ht
    rw [hslots t ht] at hfree ⊢
    exact R.head t ht hfree
  tail t ht hfree := by
    rw [hcount] at ht
    rw [hslots t ht] at hfree ⊢
    exact R.tail t ht hfree
  next o ho h := by
    rw [hlive o ho] at h
    rw [hnext o ho]
    exact R.next o ho h

namespace PlanInv

variable {s : PlanState}

theorem header (I : PlanInv st cs cs [] s) {pre post : List UInt32} {o : UInt32}
    (hsplit : cs = pre ++ o :: post) : getChunk s.st o =
      { getChunk st o with below := last none32 pre, fwd := target st (o :: post) } := by
  simpa using I.planned pre o post hsplit

theorem next (I : PlanInv st cs cs [] s) {o : UInt32} (ho : o ∈ cs) :
    (getChunk s.st o).next = (getChunk st o).next := by
  obtain ⟨pre, post, hsplit⟩ := List.append_of_mem ho
  rw [I.header hsplit]

theorem isLive (I : PlanInv st cs cs [] s) {o : UInt32} (ho : o ∈ cs) :
    Leaf.isLive s.st o = Leaf.isLive st o := by
  obtain ⟨pre, post, hsplit⟩ := List.append_of_mem ho
  refine chunkLive_congr ?_ ?_ I.frame.slotCount fun t ht => by rw [I.slots t ht]
  · rw [I.header hsplit]
  · rw [I.header hsplit]

theorem refs (I : PlanInv st cs cs [] s) (R : Refs st cs) : Refs s.st cs :=
  R.congr I.frame.slotCount I.slots (fun _ ho => I.isLive ho) fun _ ho => I.next ho

/-- The chunks whose links pass 2 follows are the live ones. -/
theorem links (I : PlanInv st cs cs [] s) (R : Refs st cs) {o : UInt32} (ho : o ∈ cs)
    (hfwd : (getChunk s.st o).fwd ≠ none32) :
    (getChunk s.st o).next = none32 ∨ (getChunk s.st o).next ∈ cs := by
  obtain ⟨pre, post, hsplit⟩ := List.append_of_mem ho
  rw [I.header hsplit] at hfwd
  have hlive : Leaf.isLive st o = true := by
    by_contra hdead
    exact hfwd (target_dead (by simpa using hdead))
  rw [I.next ho]
  exact R.next o ho hlive

end PlanInv

/-- The plan and the fix-up together: what pass 3 starts from. -/
theorem compactFix_spec (A : Arena st cs) (R : Refs st cs) :
    ∃ (s : PlanState) (φ : UInt32 → UInt32),
      compactPlan w st = (s.st, w.sub st.persistOff (planLive w st), last none32 cs) ∧
      φ none32 = none32 ∧
      (∀ pre o post, cs = pre ++ o :: post → φ o = target st (o :: post)) ∧
      MoveReady st (compactFix w s.st) cs ∧
      (∀ t < st.slotCount, getSlot (compactFix w s.st) t = fixedSlot φ (getSlot st t)) ∧
      (∀ o ∈ cs, isLive st o = true →
        (getChunk (compactFix w s.st) o).next = φ (getChunk st o).next) ∧
      compactFix w s.st = compactFix ω s.st := by
  obtain ⟨s, I₁, hplan⟩ := compactPlan_spec (w := w) A
  have I₂ := fixSlots_spec I₁.arena (I₁.refs R)
  set st₂ := (slots s.st).foldl fixSlot s.st with hst₂
  have hfwd₂ : ∀ o, o = none32 ∨ o ∈ cs → forward st₂ o = forward s.st o := fun o ho =>
    forward_congr (fun x hx => by rw [I₂.headers x hx]) ho
  have hrefs₂ : ∀ o ∈ cs, (getChunk st₂ o).fwd ≠ none32 →
      (getChunk st₂ o).next = none32 ∨ (getChunk st₂ o).next ∈ cs := by
    intro o ho hfwd
    rw [I₂.headers o ho] at hfwd ⊢
    exact I₁.links R ho hfwd
  have I₃ := fixChunks_spec (w := w) I₂.arena hrefs₂
  have hfix : compactFix w s.st = (whileLoop (fun s => decide (s.2 < st₂.persistOff)) (fixStep w)
      st₂.bufSize.toNat (st₂, st₂.dataLow)).1 := rfl
  have hword : compactFix w s.st = compactFix ω s.st := by
    change (whileLoop _ (fixStep w) _ _).1 = (whileLoop _ (fixStep ω) _ _).1
    rw [← hst₂, fixChunks_word (w := w) (ω := ω) I₂.arena hrefs₂]
  have hforward : ∀ pre o post, cs = pre ++ o :: post → forward s.st o = target st (o :: post) := by
    intro pre o post hsplit
    have ho : o ∈ cs := by rw [hsplit]; simp
    unfold forward
    rw [if_neg (A.mem_ne_none ho), I₁.header hsplit]
  refine ⟨s, forward s.st, hplan, forward_none s.st, hforward, ?_, ?_, ?_, hword⟩
  · rw [hfix]
    refine ⟨A, I₃.arena, (I₁.frame.trans I₂.frame).trans I₃.frame, ?_⟩
    intro pre o post hsplit
    have ho : o ∈ cs := by rw [hsplit]; simp
    rw [I₃.fixed o ho, fixedChunk_below, fixedChunk_fwd, I₂.headers o ho, I₁.header hsplit]
    exact ⟨rfl, rfl⟩
  · intro t ht
    have ht₁ : t < s.st.slotCount := by rw [I₁.frame.slotCount]; exact ht
    have ht₂ : t < st₂.slotCount := by rw [I₂.frame.slotCount]; exact ht₁
    rw [hfix, I₃.slots t ht₂, I₂.fixed t (mem_slots.mpr ht₁), I₁.slots t ht]
  · intro o ho hlive
    obtain ⟨pre, post, hsplit⟩ := List.append_of_mem ho
    have hfwd : (getChunk st₂ o).fwd ≠ none32 := by
      rw [I₂.headers o ho, I₁.header hsplit]
      exact target_ne_none hlive A.persist_lt
    rw [hfix, I₃.fixed o ho]
    unfold fixedChunk
    rw [if_pos hfwd]
    change forward st₂ (getChunk st₂ o).next = _
    rw [I₂.headers o ho, I₁.next ho, hfwd₂ _ (R.next o ho hlive)]

/-- A compaction beside the state `st₃` its move starts from: each live chunk is copied
whole to where the plan placed it, and the bytes below the chunks stay. -/
structure Placed (st st₃ st' : LeafState) (cs : List UInt32) (φ : UInt32 → UInt32) : Prop where
  compacted : Compacted st st' cs φ
  ready : MoveReady st st₃ cs
  place : ∀ pre o post, cs = pre ++ o :: post → φ o = target st (o :: post)
  copied : ∀ o ∈ cs, isLive st o = true →
    st'.mem.read (φ o).toNat (chunkSize st o) = st₃.mem.read o.toNat (chunkSize st o)
  under : Mem.AgreeOn st'.mem st₃.mem 0 st.dataLow.toNat

/-- Compaction moves every live chunk, with its content, to the offset the
plan gave it, and every stored reference follows. -/
theorem compact_placed (A : Arena st cs) (R : Refs st cs) :
    ∃ φ, Placed st (compactFix w (compactPlan w st).1) (compact w st) cs φ := by
  obtain ⟨s, φ, hplan, hnone, hφ, M, hslots, hnext, -⟩ := compactFix_spec (w := w) (ω := w) A R
  obtain ⟨x, I⟩ := compactMove_spec M
  set st₃ := compactFix w s.st with hst₃
  set m := compactMove st₃ (last none32 cs) with hm
  have hcompact : compact w st = { m with dataLow := w.sub st.persistOff (planLive w st) } := by
    unfold compact
    rw [hplan]
  have hlt := A.persist_lt
  have hscalars : m = { st with mem := m.mem, high := m.high } := by
    have h := I.scalars
    dsimp only at h
    rw [h, M.frame.scalars]
  have hat : ∀ a o b, cs = a ++ o :: b → isLive st o = true →
      (φ o).toNat = st.persistOff.toNat - liveBytes st (o :: b) := by
    intro a o b hsplit hlive
    rw [hφ a o b hsplit, target_toNat _ hlive hlt]
  have hread : ∀ o ∈ cs, isLive st o = true →
      m.mem.read (φ o).toNat (chunkSize st o) = st₃.mem.read o.toNat (chunkSize st o) := by
    intro o ho hlive
    obtain ⟨pre, post, hsplit⟩ := List.append_of_mem ho
    rw [hφ pre o post hsplit]
    exact I.moved pre o post hsplit hlive
  have hhdr : ∀ o ∈ cs, isLive st o = true → getChunk (compact w st) (φ o) = getChunk st₃ o := by
    intro o ho hlive
    rw [hcompact]
    have hmin := (A.mem_bounds ho).2.1
    apply Mem.get_congr_read
    change m.mem.read _ ChunkHdr.layout.size = _
    rw [ChunkHdr.layout_size, ← Mem.read_take _ _ _ _ hmin, hread o ho hlive,
      Mem.read_take _ _ _ _ hmin]
  have hsize : ∀ o ∈ cs, isLive st o = true → chunkSize (compact w st) (φ o) = chunkSize st o := by
    intro o ho hlive
    rw [chunkSize, hhdr o ho hlive]
    exact M.frame.chunkSize ho
  have hbound := A.tiles.liveBytes_le
  have hlow : (compact w st).dataLow.toNat = st.persistOff.toNat - liveBytes st cs := by
    rw [hcompact]
    exact newLow_toNat A
  have hagree : Mem.AgreeOn m.mem st₃.mem 0 st.dataLow.toNat := I.unmoved _ rfl
  have hmem : (compact w st).mem = m.mem := by rw [hcompact]
  have hready : compactFix w (compactPlan w st).1 = st₃ := by rw [hplan]
  rw [hready]
  refine ⟨φ, ⟨?_, ?_, hlow, hnone, ?_, ?_, ?_, ?_⟩, M, hφ, by rw [hmem]; exact hread,
    by rw [hmem]; exact hagree⟩
  · rw [hcompact, hscalars]
  · have htable := A.table_le
    have hcount : tableEnd (compact w st) = tableEnd st := by
      rw [hcompact, hscalars]
      rfl
    have hpersist : (compact w st).persistOff = st.persistOff := by
      rw [hcompact, hscalars]
    have hbuf : (compact w st).bufSize = st.bufSize := by
      rw [hcompact, hscalars]
    refine ⟨?_, ?_, ?_, ?_, ?_⟩
    · rw [hbuf]
      exact A.bufSize_le
    · rw [hbuf, hpersist]
      exact A.persist_le
    · omega
    · rw [hlow, hpersist]
      exact tiles_moved A.tiles hat hsize
    · rw [hpersist, hcompact]
      exact I.high_le
  · intro o ho hlive
    have hmin := (A.mem_bounds ho).2.1
    have hcore := M.frame.core o ho
    have hpayload : m.mem.read (chunkPayload (φ o)) (chunkSize st o - sizeofChunkHdr) =
        st₃.mem.read (chunkPayload o) (chunkSize st o - sizeofChunkHdr) := by
      have h := congrArg (List.drop sizeofChunkHdr) (hread o ho hlive)
      rwa [Mem.read_drop _ _ _ _ hmin, Mem.read_drop _ _ _ _ hmin] at h
    rw [← hcore]
    unfold coreAt
    rw [hhdr o ho hlive, hsize o ho hlive, M.frame.chunkSize ho, ← hpayload, hcompact]
  · intro o ho hlive
    rw [hhdr o ho hlive]
    exact hnext o ho hlive
  · intro t ht
    rw [← hslots t ht, hcompact]
    apply Mem.get_congr
    have h1 := slotOff_lt_tableEnd ht
    have h2 := A.table_le
    exact hagree.mono (by omega) (by simp only [SpanRec.layout_size]; omega)
  · intro b
    rw [hcompact]
    exact (I.persist b).trans (M.frame.persist b)

theorem compact_spec (A : Arena st cs) (R : Refs st cs) :
    ∃ φ, Compacted st (compact w st) cs φ := by
  obtain ⟨φ, P⟩ := compact_placed (w := w) A R
  exact ⟨φ, P.compacted⟩

/-- Compaction never computes an offset or a size outside 32 bits. -/
theorem compact_word (A : Arena st cs) (R : Refs st cs) : compact w st = compact ω st := by
  obtain ⟨s, φ, hplan, -, -, -, -, -, hword⟩ := compactFix_spec (w := w) (ω := ω) A R
  have hplan' := compactPlan_word (w := w) (ω := ω) A
  unfold compact
  rw [← hplan', hplan]
  simp only [hword]

end Compact

end Microtel.Leaf
