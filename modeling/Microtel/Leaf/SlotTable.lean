import Microtel.Leaf.Mutators

/-!
The span table: resizing it over free slots, trimming its trailing free slots,
and finding a slot for a new span.
-/

namespace Microtel.Leaf

open ByteMemory Loop LinkedList

section

variable {st : LeafState} {S : Store} {cs : List UInt32} {ch : UInt16 → List UInt32}
  {w ω : Word32} {s : UInt16}

/-! ### Resizing the table -/

/-- The relation after the table has been resized over free slots. -/
theorem Rep.resize {st' : LeafState} {n : UInt16} (R : Rep st S cs ch)
    (hended : ∀ t ∈ S.ended, t < st.slotCount ∧ t < n)
    (hscalars : st' = { st with mem := st'.mem, high := st'.high, slotCount := n })
    (hpersist : ∀ b, Mem.AgreeOn st'.mem st.mem st.persistOff.toNat b)
    (A : Arena st' cs)
    (hcommon : ∀ t < n, t < st.slotCount → getSlot st' t = getSlot st t)
    (hnew : ∀ t < n, st.slotCount ≤ t → S.entry t = none ∧ (getSlot st' t).state = .free)
    (hgone : ∀ t < st.slotCount, n ≤ t → S.entry t = none)
    (hchunk : ∀ o ∈ cs, getChunk st' o = getChunk st o)
    (hcore : ∀ o ∈ cs, coreAt st' o = coreAt st o) :
    Rep st' { S with count := n } cs ch := by
  have hcount : st'.slotCount = n := by rw [hscalars]
  have hused : ∀ t, Used st' t ↔ Used st t := by
    intro t
    unfold Used
    rw [hcount]
    constructor
    · rintro ⟨ht, hstate⟩
      by_cases hlt : t < st.slotCount
      · rw [hcommon t ht hlt] at hstate
        exact ⟨hlt, hstate⟩
      · exact absurd (hnew t ht (UInt16.not_lt.mp hlt)).2 hstate
    · rintro ⟨ht, hstate⟩
      by_cases hlt : t < n
      · rw [hcommon t hlt ht]
        exact ⟨hlt, hstate⟩
      · exact absurd (R.free t ht (hgone t ht (UInt16.not_lt.mp hlt))) hstate
  have hslot : ∀ t, Used st t → getSlot st' t = getSlot st t := by
    intro t ht
    have ht' := ((hused t).mpr ht).1
    rw [hcount] at ht'
    exact hcommon t ht' ht.1
  have howns : ∀ t o, Owns st' cs t o ↔ Owns st cs t o := by
    intro t o
    unfold Owns
    constructor
    · rintro ⟨ho, hk, hw⟩
      rw [hchunk o ho] at hk hw
      exact ⟨ho, hk, hw⟩
    · rintro ⟨ho, hk, hw⟩
      rw [hchunk o ho]
      exact ⟨ho, hk, hw⟩
  have H : Heap st' cs ch [] := by
    refine ⟨A, ?_, ?_, ?_⟩
    · intro t ht
      have ht' := (hused t).mp ht
      rw [hslot t ht']
      refine (R.heap.list t ht').congr fun o ho => ?_
      unfold nextOf
      rw [hchunk o (R.heap.mem_cs ho)]
    · intro t ht
      have ht' := (hused t).mp ht
      rw [hslot t ht']
      exact R.heap.tail t ht'
    · intro t o
      rw [R.heap.mem, howns]
  constructor
  · exact H
  · intro t ht
    exact R.clean t fun h => ht ((hused t).mpr h)
  · intro t ht e he
    have he' : S.entry t = some e := he
    rw [hcount] at ht
    have hlt : t < st.slotCount := by
      by_contra hge
      rw [(hnew t ht (UInt16.not_lt.mp hge)).1] at he'
      simp at he'
    have hheld := R.held t hlt e he'
    rw [← hcount] at ht
    refine ⟨?_, ?_⟩
    · rw [hslot t (R.used hlt he')]
      exact hheld.body
    · have hsame : (ch t).map (coreAt st') = (ch t).map (coreAt st) := by
        apply List.map_congr_left
        intro x hx
        exact hcore x (R.heap.mem_cs hx)
      rw [hsame]
      exact hheld.cells
  · intro t ht he
    have he' : S.entry t = none := he
    rw [hcount] at ht
    by_cases hlt : t < st.slotCount
    · rw [hcommon t ht hlt]
      exact R.free t hlt he'
    · exact (hnew t ht (UInt16.not_lt.mp hlt)).2
  · have hhead : st'.endedHead = st.endedHead := by rw [hscalars]
    rw [hhead]
    refine R.endedList.congr fun t ht => ?_
    rw [hcommon t (hended t ht).2 (hended t ht).1]
  · have h : st'.endedTail = st.endedTail := by rw [hscalars]
    rw [h]
    exact R.endedTail
  · have h : st'.endedCount = st.endedCount := by rw [hscalars]
    rw [h]
    exact R.endedCount
  · refine R.persistent.congr ?_ hpersist
    rw [hscalars]
    exact ⟨rfl, rfl, rfl, rfl, rfl, rfl, rfl, rfl⟩
  · rw [hscalars]
    exact R.magic
  · have h : st'.toLeafParams = st.toLeafParams := by rw [hscalars]
    rw [h]
    exact R.params
  · have h : st'.toLeafVars = st.toLeafVars := by rw [hscalars]
    rw [h]
    exact R.vars
  · rw [hscalars]
    exact R.nextGen
  · exact hcount
  · rw [hscalars]
    exact R.capacity

/-- Dropping free slots from the end of the table. -/
theorem Rep.shrink {n : UInt16} (R : Rep st S cs ch) (hle : n ≤ st.slotCount)
    (hended : ∀ t ∈ S.ended, t < n) (hgone : ∀ t < st.slotCount, n ≤ t → S.entry t = none) :
    Rep { st with slotCount := n } { S with count := n } cs ch := by
  have hle' := UInt16.le_iff_toNat_le.mp hle
  have hlt : ∀ t, t < n → t < st.slotCount := fun t ht => UInt16.lt_of_lt_of_le ht hle
  refine R.resize (fun t ht => ⟨hlt t (hended t ht), hended t ht⟩) rfl
    (fun _ => Mem.AgreeOn.refl _ _ _) ?_ (fun _ _ _ => rfl) ?_ hgone (fun _ _ => rfl)
    (fun _ _ => rfl)
  · refine ⟨R.heap.arena.bufSize_le, R.heap.arena.persist_le, ?_,
      R.heap.arena.tiles.congr fun _ _ => rfl, R.heap.arena.high_le⟩
    have htable := R.heap.arena.table_le
    have hsmall : tableEnd { st with slotCount := n } ≤ tableEnd st := by
      unfold tableEnd slotOff
      exact Nat.mul_le_mul_right _ hle'
    exact Nat.le_trans hsmall htable
  · intro t ht hge
    exact absurd (hlt t ht) (UInt16.not_lt.mpr hge)

/-- A free slot added at the end of the table, given the bytes for it. -/
theorem Rep.grow (R : Rep st S cs ch) (hended : ∀ t ∈ S.ended, t < st.slotCount)
    (hcount : st.slotCount ≠ none16) (hnone : S.entry st.slotCount = none)
    (hfits : tableEnd st + sizeofSpanRec ≤ st.dataLow.toNat) :
    Rep (putSlot { st with slotCount := st.slotCount + 1 } st.slotCount SpanRec.zero)
      { S with count := st.slotCount + 1 } cs ch := by
  have hsucc := Store.count_succ hcount
  have hlen : (SpanRec.layout.enc SpanRec.zero).length = sizeofSpanRec :=
    SpanRec.layout.enc_length SpanRec.zero
  have hlt : ∀ t, t < st.slotCount + 1 ↔ t.toNat < st.slotCount.toNat + 1 := by
    intro t
    rw [UInt16.lt_iff_toNat_lt, hsucc]
  have hslotOff : slotOff st.slotCount = tableEnd st := rfl
  have htile := R.heap.arena.tiles.le
  have hbelow : ∀ o ∈ cs, st.dataLow.toNat ≤ o.toNat := fun o ho =>
    (R.heap.arena.tiles.mem_bounds ho).1
  have hchunk : ∀ o ∈ cs, getChunk
      (putSlot { st with slotCount := st.slotCount + 1 } st.slotCount SpanRec.zero) o =
      getChunk st o := by
    intro o ho
    have := hbelow o ho
    refine (getChunk_poke (Or.inr ?_)).trans rfl
    omega
  refine R.resize (fun t ht => ⟨hended t ht, ?_⟩) rfl ?_ ?_ ?_ ?_ ?_ hchunk ?_
  · have h := UInt16.lt_iff_toNat_lt.mp (hended t ht)
    rw [hlt]
    omega
  · intro b
    apply Mem.write_agreeOn
    right
    omega
  · refine ⟨R.heap.arena.bufSize_le, R.heap.arena.persist_le, ?_, ?_, ?_⟩
    · change slotOff (st.slotCount + 1) ≤ st.dataLow.toNat
      unfold slotOff
      rw [hsucc]
      unfold tableEnd slotOff at hfits
      rw [Nat.add_mul, Nat.one_mul]
      exact hfits
    · refine R.heap.arena.tiles.congr fun o ho => ?_
      unfold chunkSize
      rw [hchunk o ho]
    · have := R.heap.arena.high_le
      change max st.high (slotOff st.slotCount + (SpanRec.layout.enc SpanRec.zero).length) ≤
        st.persistOff.toNat
      omega
  · intro t _ ht
    have hne : t ≠ st.slotCount := by
      rintro rfl
      exact UInt16.lt_irrefl _ ht
    exact getSlot_putSlot_of_ne _ _ hne
  · intro t ht hge
    have h1 := (hlt t).mp ht
    have h2 := UInt16.le_iff_toNat_le.mp hge
    obtain rfl : t = st.slotCount := UInt16.toNat_inj.mp (by omega)
    refine ⟨hnone, ?_⟩
    rw [getSlot_putSlot_self]
    rfl
  · intro t ht hge
    have h1 := UInt16.le_iff_toNat_le.mp hge
    have h2 := UInt16.lt_iff_toNat_lt.mp ht
    rw [hsucc] at h1
    omega
  · intro o ho
    have := hbelow o ho
    refine coreAt_congr (hchunk o ho) ((read_poke (Or.inr ?_)).trans rfl)
    unfold chunkPayload
    omega

/-! ### Trimming -/

/-- `trim_slots` counts down to the highest used slot. -/
theorem trimSlots_eq (entry : UInt16 → Option Entry) (n : Nat) (st : LeafState)
    (hn : st.slotCount.toNat = n)
    (hfree : ∀ t < st.slotCount, (getSlot st t).state = .free ↔ entry t = none) :
    whileLoop (fun st => decide (0 < st.slotCount ∧ (getSlot st (st.slotCount - 1)).state = .free))
      (fun st => { st with slotCount := st.slotCount - 1 }) n st =
      { st with slotCount := Store.trimCount entry n } := by
  induction n generalizing st with
  | zero =>
      have hzero : st.slotCount = 0 := UInt16.toNat_inj.mp hn
      rw [whileLoop, Store.trimCount, ← hzero]
  | succ n ih =>
      have hlt := st.slotCount.toNat_lt
      have hpos : (0 : UInt16) < st.slotCount := by
        rw [UInt16.lt_iff_toNat_lt, hn]
        change 0 < n + 1
        omega
      have hpred : st.slotCount - 1 = UInt16.ofNat n := by
        apply UInt16.toNat_inj.mp
        have hone : (1 : UInt16) ≤ st.slotCount := by
          rw [UInt16.le_iff_toNat_le, hn]
          change 1 ≤ n + 1
          omega
        rw [UInt16.toNat_sub_of_le _ _ hone, hn, UInt16.toNat_ofNat', Nat.mod_eq_of_lt (by omega)]
        rfl
      have hpredlt : UInt16.ofNat n < st.slotCount := by
        rw [UInt16.lt_iff_toNat_lt, UInt16.toNat_ofNat', Nat.mod_eq_of_lt (by omega)]
        omega
      have hiff := hfree _ hpredlt
      cases he : entry (UInt16.ofNat n) with
      | none =>
          have hstate := hiff.mpr he
          rw [whileLoop_step n (by simp [hpos, hpred, hstate]), ih]
          · simp [Store.trimCount, he]
          · change (st.slotCount - 1).toNat = n
            rw [hpred, UInt16.toNat_ofNat', Nat.mod_eq_of_lt (by omega)]
          · intro t ht
            have ht' : t < st.slotCount - 1 := ht
            rw [hpred] at ht'
            exact hfree t (UInt16.lt_trans ht' hpredlt)
      | some e =>
          have hstate : (getSlot st (UInt16.ofNat n)).state ≠ .free := fun h => by
            rw [hiff.mp h] at he
            simp at he
          rw [whileLoop_done _ (by simp [hpos, hpred, hstate])]
          have hcount : st.slotCount = UInt16.ofNat (n + 1) := by
            apply UInt16.toNat_inj.mp
            rw [hn, UInt16.toNat_ofNat', Nat.mod_eq_of_lt (by omega)]
          simp [Store.trimCount, he, ← hcount]

theorem Rep.free_iff (R : Rep st S cs ch) {t : UInt16} (ht : t < st.slotCount) :
    (getSlot st t).state = .free ↔ S.entry t = none := by
  have h := R.used_iff ht
  unfold Used at h
  cases he : S.entry t with
  | none => simp [R.free t ht he]
  | some e =>
      rw [he] at h
      simpa [ht] using h

/-- Trimming drops free slots only. -/
theorem Rep.trimSlots (R : Rep st S cs ch)
    (hended : ∀ t ∈ S.ended, t < st.slotCount ∧ (S.entry t).isSome) :
    trimSlots st = { st with slotCount := Store.trimCount S.entry S.count.toNat } ∧
      Rep (trimSlots st) { S with count := Store.trimCount S.entry S.count.toNat } cs ch := by
  have htrim : Leaf.trimSlots st =
      { st with slotCount := Store.trimCount S.entry S.count.toNat } := by
    rw [← R.count]
    exact trimSlots_eq S.entry st.slotCount.toNat st rfl fun t ht => R.free_iff ht
  have hlt := st.slotCount.toNat_lt
  obtain ⟨hle, hkeep, -⟩ := Store.trimCount_spec S.entry st.slotCount.toNat hlt
  rw [R.count] at hle hkeep
  have hin : ∀ t < st.slotCount, (S.entry t).isSome →
      t < Store.trimCount S.entry S.count.toNat := by
    intro t ht hsome
    rw [R.count] at ht
    have h := hkeep t.toNat (UInt16.lt_iff_toNat_lt.mp ht)
    rw [UInt16.ofNat_toNat] at h
    exact UInt16.lt_iff_toNat_lt.mpr (h hsome)
  refine ⟨htrim, ?_⟩
  rw [htrim]
  refine R.shrink ?_ ?_ ?_
  · rw [R.count, UInt16.le_iff_toNat_le]
    exact hle
  · intro t ht
    exact hin t (hended t ht).1 (hended t ht).2
  · intro t ht hge
    by_contra hsome
    have h := hin t ht (Option.isSome_iff_ne_none.mpr hsome)
    exact absurd h (UInt16.not_lt.mpr hge)

/-- A valid store's table has nothing to trim. -/
theorem Store.Valid.trimCount (V : S.Valid) : Store.trimCount S.entry S.count.toNat = S.count := by
  cases hn : S.count.toNat with
  | zero => exact (UInt16.toNat_inj.mp hn).symm
  | succ n =>
      have hlt := S.count.toNat_lt
      have hne : S.count ≠ 0 := by
        rintro h
        rw [h] at hn
        simp at hn
      have hcount : S.count = UInt16.ofNat (n + 1) := by
        apply UInt16.toNat_inj.mp
        rw [hn, UInt16.toNat_ofNat', Nat.mod_eq_of_lt (by omega)]
      have hpred : S.count - 1 = UInt16.ofNat n := by
        rw [hcount, UInt16.ofNat_add]
        simp
      have hlast := V.last hne
      rw [hpred] at hlast
      simp [Store.trimCount, hlast, ← hcount]

/-! ### Acquiring a slot -/

theorem Rep.freeSlot (R : Rep st S cs ch) :
    ((slots st).find? fun slot => decide ((getSlot st slot).state = .free)) = S.freeSlot? := by
  have hslots : slots st = slotsOf S.count := by
    rw [← R.count]
    rfl
  have hpred : ∀ t ∈ slotsOf S.count,
      decide ((getSlot st t).state = .free) = (S.entry t).isNone := by
    intro t ht
    have hlt : t < st.slotCount := by
      rw [R.count]
      exact Store.mem_slotsOf.mp ht
    have hiff := R.free_iff hlt
    cases he : S.entry t with
    | none => simp [hiff.mpr he]
    | some e =>
        rw [he] at hiff
        simpa using hiff
  unfold Store.freeSlot?
  rw [hslots]
  generalize slotsOf S.count = l at hpred
  induction l with
  | nil => rfl
  | cons t l ih =>
      rw [List.find?_cons, List.find?_cons, hpred t (by simp),
        ih fun u hu => hpred u (by simp [hu])]

theorem Rep.makeRoom (R : Rep st S cs ch) (hended : ∀ t ∈ S.ended, t < st.slotCount) (n : Nat) :
    ((makeRoom w st n).2 = true ↔ n ≤ S.room) ∧
      (∃ cs' ch', Rep (Leaf.makeRoom w st n).1 S cs' ch') ∧
      (n ≤ S.room → tableEnd st + n ≤ (Leaf.makeRoom w st n).1.dataLow.toNat) ∧
      (Leaf.makeRoom w st n).1.slotCount = st.slotCount := by
  obtain ⟨cs', ch', H, C, M, hiff, hlow⟩ := makeRoom_spec (w := w) R.heap R.clean n
  have hroom := R.fits_iff n
  refine ⟨hiff.trans hroom, ⟨cs', ch', R.moved M H C hended⟩, ?_, M.slotCount⟩
  intro hn
  exact hlow (hiff.mpr (hroom.mpr hn))

namespace Store

/-- The store with the table grown for `slot`, if it is the one after the last. -/
def grown (S : Store) (slot : UInt16) : Store :=
  { S with count := if slot = S.count then S.count + 1 else S.count }

/-- The slot `acquire_slot` finds. -/
def acquire (S : Store) : Option UInt16 :=
  match S.freeSlot? with
  | some s => some s
  | none =>
      if S.count = none16 then none else if sizeofSpanRec ≤ S.room then some S.count else none

theorem grown_of_lt (hs : s < S.count) : S.grown s = S := by
  have hne : s ≠ S.count := by
    rintro rfl
    exact UInt16.lt_irrefl _ hs
  simp [grown, hne]

theorem slotsOf_succ {count : UInt16} (h : count ≠ none16) :
    slotsOf (count + 1) = slotsOf count ++ [count] := by
  unfold slotsOf
  rw [count_succ h, List.range_succ, List.map_append]
  simp

theorem grown_usedBytes (hcount : S.count ≠ none16) (hnone : S.entry S.count = none) :
    (S.grown S.count).usedBytes = S.usedBytes + sizeofSpanRec := by
  have hbytes : (S.grown S.count).chunkBytes = S.chunkBytes := by
    simp only [chunkBytes, grown, if_pos, slotsOf_succ hcount, List.map_append, List.sum_append]
    simp [hnone, entryBytes]
  have hcnt : (S.grown S.count).count.toNat = S.count.toNat + 1 := by
    simp only [grown, if_pos]
    exact count_succ hcount
  unfold usedBytes
  rw [hbytes, hcnt, Nat.add_mul]
  omega

theorem freeSlot_spec (h : S.freeSlot? = some s) : S.entry s = none ∧ s < S.count := by
  have hmem := List.mem_of_find?_eq_some h
  have hnone := List.find?_some h
  exact ⟨by simpa using hnone, mem_slotsOf.mp hmem⟩

theorem entry_count (V : S.Valid) : S.entry S.count = none := by
  by_contra hsome
  obtain ⟨e, he⟩ := Option.ne_none_iff_exists'.mp hsome
  exact UInt16.lt_irrefl _ (V.bound _ e he)

/-- The two checks of a start, one after the other, are `place`. -/
theorem place_eq (V : S.Valid) (hle : S.usedBytes ≤ S.capacity) (len : Nat) :
    S.place len = match S.acquire with
      | some s => if nameBytes len ≤ (S.grown s).room then some s else none
      | none => none := by
  unfold place acquire
  cases hfree : S.freeSlot? with
  | some s => simp [grown_of_lt (freeSlot_spec hfree).2]
  | none =>
      by_cases hcount : S.count = none16
      · simp [hcount]
      · have hused := grown_usedBytes hcount (entry_count V)
        have hcap : (S.grown S.count).capacity = S.capacity := rfl
        simp only [hcount, if_false]
        by_cases hslot : sizeofSpanRec ≤ S.room
        · simp only [if_pos hslot]
          have hiff : sizeofSpanRec + nameBytes len ≤ S.room ↔
              nameBytes len ≤ (S.grown S.count).room := by
            unfold room at hslot ⊢
            rw [hused, hcap]
            omega
          simp only [hiff]
        · have hno : ¬ sizeofSpanRec + nameBytes len ≤ S.room := by omega
          simp only [if_neg hslot, if_neg hno]

end Store

theorem Rep.acquireSlot (R : Rep st S cs ch) (V : S.Valid) :
    (match S.acquire with
      | some slot => (acquireSlot w st).2 = slot ∧ slot ≠ none16 ∧
          slot < (acquireSlot w st).1.slotCount ∧ S.entry slot = none ∧
          ∃ cs' ch', Rep (acquireSlot w st).1 (S.grown slot) cs' ch'
      | none => (acquireSlot w st).2 = none16 ∧ ∃ cs' ch', Rep (acquireSlot w st).1 S cs' ch') ∧
      Leaf.acquireSlot w st = Leaf.acquireSlot ω st := by
  have hended := R.ended_lt V
  have hfind := R.freeSlot
  have hroomWord := makeRoom_word (w := w) (ω := ω) R.heap sizeofSpanRec
  obtain ⟨hiff, ⟨cs₁, ch₁, R₁⟩, hlow, hcount₁⟩ := R.makeRoom (w := w) hended sizeofSpanRec
  unfold Store.acquire
  cases hfree : S.freeSlot? with
  | some slot =>
      rw [hfree] at hfind
      obtain ⟨hnone, hlt⟩ := Store.freeSlot_spec hfree
      have hslt : slot < st.slotCount := by rw [R.count]; exact hlt
      have hacq : ∀ w, Leaf.acquireSlot w st = (st, slot) := by
        intro w
        simp only [Leaf.acquireSlot, hfind]
      dsimp only
      rw [hacq, hacq, Store.grown_of_lt hlt]
      exact ⟨⟨rfl, slot_ne_none hslt, hslt, hnone, cs, ch, R⟩, rfl⟩
  | none =>
      rw [hfree] at hfind
      dsimp only
      by_cases hcount : S.count = none16
      · have hacq : ∀ w, Leaf.acquireSlot w st = (st, none16) := by
          intro w
          simp only [Leaf.acquireSlot, hfind, R.count, hcount, if_true]
        rw [if_pos hcount]
        dsimp only
        rw [hacq, hacq]
        exact ⟨⟨rfl, cs, ch, R⟩, rfl⟩
      · have hcount' : st.slotCount ≠ none16 := by rw [R.count]; exact hcount
        rw [if_neg hcount]
        by_cases hroom : sizeofSpanRec ≤ S.room
        · have hyes := hiff.mpr hroom
          have hacq : Leaf.acquireSlot w st =
              (putSlot { (Leaf.makeRoom w st sizeofSpanRec).1 with
                  slotCount := (Leaf.makeRoom w st sizeofSpanRec).1.slotCount + 1 }
                (Leaf.makeRoom w st sizeofSpanRec).1.slotCount SpanRec.zero,
                (Leaf.makeRoom w st sizeofSpanRec).1.slotCount) := by
            simp only [Leaf.acquireSlot, hfind, if_neg hcount', hyes, if_true]
          have hword : Leaf.acquireSlot w st = Leaf.acquireSlot ω st := by
            simp only [Leaf.acquireSlot, hroomWord]
          rw [if_pos hroom]
          refine ⟨?_, hword⟩
          dsimp only
          rw [hacq]
          generalize (Leaf.makeRoom w st sizeofSpanRec).1 = st₁ at R₁ hlow hcount₁ ⊢
          have hnone : S.entry st₁.slotCount = none := by
            rw [hcount₁, R.count]
            exact Store.entry_count V
          have hslot : st₁.slotCount = S.count := by rw [hcount₁, R.count]
          have hfits := hlow hroom
          rw [← tableEnd_congr hcount₁] at hfits
          have R₂ := R₁.grow (fun t ht => by rw [hcount₁]; exact hended t ht)
            (by rw [hcount₁]; exact hcount') hnone hfits
          have hgrown : S.grown S.count = { S with count := st₁.slotCount + 1 } := by
            simp only [Store.grown, if_pos, hslot]
          refine ⟨hslot, hcount, ?_, Store.entry_count V, cs₁, ch₁, ?_⟩
          · change S.count < st₁.slotCount + 1
            rw [hslot, UInt16.lt_iff_toNat_lt, Store.count_succ hcount]
            omega
          · rw [hgrown]
            exact R₂
        · have hno : (Leaf.makeRoom w st sizeofSpanRec).2 = false := by
            by_contra h
            exact hroom (hiff.mp (by simpa using h))
          have hacq : Leaf.acquireSlot w st = ((Leaf.makeRoom w st sizeofSpanRec).1, none16) := by
            simp only [Leaf.acquireSlot, hfind, if_neg hcount', hno, Bool.false_eq_true, if_false]
          have hword : Leaf.acquireSlot w st = Leaf.acquireSlot ω st := by
            simp only [Leaf.acquireSlot, hroomWord]
          rw [if_neg hroom]
          refine ⟨?_, hword⟩
          dsimp only
          rw [hacq]
          exact ⟨rfl, cs₁, ch₁, R₁⟩

end

end Microtel.Leaf
