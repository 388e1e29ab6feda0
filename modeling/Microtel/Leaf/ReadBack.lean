import Microtel.Leaf.Release

/-!
Reading the batch back. The cursors of `leaf_internal.h` return the Resource,
the ended spans in the order they ended, and each span's name, status,
attributes and events as the store holds them.
-/

namespace Microtel.Leaf

open ByteMemory Loop LinkedList

/-! ### Cursors -/

/-- A cursor that hands out items one a call, in the order of a list computed from
them, hands out that list. -/
theorem collect_map_eq {α β : Type} {next : Cursor → Option (α × Cursor)} (g : α → β)
    (R : List β → Cursor → Prop) (hend : ∀ c, R [] c → next c = none)
    (hstep : ∀ y ys c, R (y :: ys) c → ∃ x c', next c = some (x, c') ∧ g x = y ∧ R ys c')
    {ys : List β} {c : Cursor} {fuel : Nat} (hfuel : ys.length ≤ fuel) (h : R ys c) :
    (collect next fuel c).map g = ys := by
  induction ys generalizing c fuel with
  | nil =>
      cases fuel with
      | zero => rfl
      | succ fuel => simp [collect, hend c h]
  | cons y ys ih =>
      cases fuel with
      | zero => simp at hfuel
      | succ fuel =>
          obtain ⟨x, c', hnext, hx, hrest⟩ := hstep y ys c h
          have hlen : ys.length ≤ fuel := by simpa using hfuel
          have htail := ih hlen hrest
          simp [collect, hnext, hx, htail]

/-- A cursor that hands out the head of the list it stands before, one item a
call, hands out the list. -/
theorem collect_eq {α : Type} {next : Cursor → Option (α × Cursor)}
    (R : List α → Cursor → Prop) (hend : ∀ c, R [] c → next c = none)
    (hstep : ∀ x xs c, R (x :: xs) c → ∃ c', next c = some (x, c') ∧ R xs c')
    {xs : List α} {c : Cursor} {fuel : Nat} (hfuel : xs.length ≤ fuel) (h : R xs c) :
    collect next fuel c = xs := by
  have hmap := collect_map_eq id R hend (fun x xs c hx => by
    obtain ⟨c', hnext, hrest⟩ := hstep x xs c hx
    exact ⟨x, c', hnext, rfl, hrest⟩) hfuel h
  simpa using hmap

theorem Cursor.index_succ {c : Cursor} {n : Nat} (h : c.index.toNat = n) (hn : n + 1 < 2 ^ 32) :
    (c.index + 1).toNat = n + 1 := by
  rw [UInt32.toNat_add, h]
  change (n + 1) % 4294967296 = n + 1
  exact Nat.mod_eq_of_lt hn

/-! ### Packed attributes -/

/-- An attribute inside a run of packed attributes. -/
theorem read_packed {m : Mem} {off : Nat} {done rest : List Attr} {a : Attr}
    (h : m.read off ((done ++ a :: rest).flatMap Attr.bytes).length =
      (done ++ a :: rest).flatMap Attr.bytes) :
    m.read (off + (done.flatMap Attr.bytes).length) a.bytes.length = a.bytes := by
  have hbytes : (done ++ a :: rest).flatMap Attr.bytes =
      done.flatMap Attr.bytes ++ (a.bytes ++ rest.flatMap Attr.bytes) := by
    simp [List.flatMap_append]
  have hlen : ((done ++ a :: rest).flatMap Attr.bytes).length =
      (done.flatMap Attr.bytes).length + (a.bytes.length + (rest.flatMap Attr.bytes).length) := by
    rw [hbytes, List.length_append, List.length_append]
  rw [hlen, hbytes, Mem.read_add] at h
  have htail := (List.append_inj h (by simp)).2
  rw [Mem.read_add] at htail
  exact (List.append_inj htail (by simp)).1

theorem packed_length_append (done : List Attr) (a : Attr) :
    ((done ++ [a]).flatMap Attr.bytes).length =
      (done.flatMap Attr.bytes).length + a.bytes.length := by
  simp [List.flatMap_append]

theorem packed_length_le (done rest : List Attr) (a : Attr) :
    (done.flatMap Attr.bytes).length + a.bytes.length ≤
      ((done ++ a :: rest).flatMap Attr.bytes).length := by
  simp only [List.flatMap_append, List.flatMap_cons, List.length_append]
  omega

/-- Every packed attribute has at least its header. -/
theorem length_le_packed (attrs : List Attr) :
    24 * attrs.length ≤ (attrs.flatMap Attr.bytes).length := by
  have h24 : sizeofKvHdr = 24 := rfl
  induction attrs with
  | nil => simp
  | cons a attrs ih =>
      have hlen := Attr.bytes_length a
      simp only [List.flatMap_cons, List.length_append, List.length_cons]
      omega

section

variable {st : LeafState} {S : Store} {cs loose : List UInt32} {ch : UInt16 → List UInt32}
  {w : Word32} {s : UInt16}

/-! ### The Resource -/

/-- The Resource cursor stands before `xs`. -/
structure AtResource (st : LeafState) (resource reserved : List Attr) (xs : List Attr)
    (c : Cursor) : Prop where
  split : ∃ done, resource ++ reserved = done ++ xs ∧ c.index.toNat = done.length
  pos : c.index.toNat ≤ resource.length →
    (if c.index = 0 then st.resourceOff else c.pos).toNat =
      st.persistOff.toNat + ((resource.take c.index.toNat).flatMap Attr.bytes).length

theorem Persistent.resource_lt {resource : List Attr} {name version : Bytes}
    (P : Persistent st resource name version) (hbuf : st.bufSize.toNat ≤ maxBuffer) :
    st.persistOff.toNat + (resource.flatMap Attr.bytes).length < 2 ^ 32 ∧
      resource.length + 8 < 2 ^ 32 := by
  have hfits := P.fits
  have hmany := length_le_packed resource
  have hmax : maxBuffer = 0xfffffff0 := rfl
  omega

theorem reservedAttrs_length (p : LeafParams) (v : LeafVars) (env : Callbacks) :
    (reservedAttrs p v env).length ≤ 7 := by
  unfold reservedAttrs
  simp only [List.length_append, List.length_cons, List.length_nil]
  have hone : ∀ (c : Prop) [Decidable c] (a : Attr), (if c then [a] else []).length ≤ 1 := by
    intro c _ a
    split <;> simp
  have h1 := hone (p.hasClock = true)
    (intAttr keyEncodeTime (readClock p env + timeOffset p v).toInt64)
  have h2 := hone (payloadMode p v = .syncRelative)
    (intAttr keySyncAge (readClock p env - v.syncLeaf).toInt64)
  have h3 := hone (payloadMode p v = .bootRelative) (intAttr keyBootId (p.bootId.toUInt64).toInt64)
  have h4 := hone (0 < v.counters.droppedSpans)
    (intAttr keyDroppedSpans (v.counters.droppedSpans.toUInt64).toInt64)
  have h5 := hone (0 < v.counters.droppedAttributes.toUInt64 + v.counters.droppedEvents.toUInt64)
    (intAttr keyDroppedItems
      (v.counters.droppedAttributes.toUInt64 + v.counters.droppedEvents.toUInt64).toInt64)
  omega

theorem resourceList_eq {b : Batch} {name version : Bytes} {resource : List Attr}
    (P : Persistent b.core resource name version) (hbuf : b.core.bufSize.toNat ≤ maxBuffer)
    (hreserved : b.reserved.length ≤ 7) : resourceList w b = resource ++ b.reserved := by
  obtain ⟨hroom, hcount⟩ := P.resource_lt hbuf
  have hfuel : (resource ++ b.reserved).length ≤ cursorFuel b.core := by
    have hmany := length_le_packed resource
    have hfits := P.fits
    unfold cursorFuel
    rw [List.length_append]
    omega
  have hcnt := P.resourceCount
  refine collect_eq (AtResource b.core resource b.reserved) ?_ ?_ hfuel ⟨⟨[], by simp, rfl⟩, ?_⟩
  · -- past the end
    rintro c ⟨⟨done, hsplit, hidx⟩, -⟩
    have hlen := congrArg List.length hsplit
    simp only [List.length_append, List.length_nil] at hlen
    have hge : ¬ c.index < b.core.resourceCount := by
      rw [UInt32.lt_iff_toNat_lt]
      omega
    have hsub : (c.index - b.core.resourceCount).toNat = b.reserved.length := by
      rw [UInt32.toNat_sub_of_le _ _ (UInt32.not_lt.mp hge)]
      omega
    unfold nextResourceAttr
    simp only [if_neg hge, hsub]
    simp
  · rintro x xs c ⟨⟨done, hsplit, hidx⟩, hpos⟩
    have hlen := congrArg List.length hsplit
    simp only [List.length_append, List.length_cons] at hlen
    have hnext : (c.index + 1).toNat = done.length + 1 := Cursor.index_succ hidx (by omega)
    have hne : ¬ (c.index + 1 = 0) := by
      intro h
      rw [h] at hnext
      simp at hnext
    by_cases hlt : c.index < b.core.resourceCount
    · -- a packed attribute of the Resource
      have hlt' := UInt32.lt_iff_toNat_lt.mp hlt
      have hdone : done = resource.take done.length := by
        have h := congrArg (List.take done.length) hsplit
        rw [List.take_left' rfl, List.take_append_of_le_length (by omega)] at h
        exact h.symm
      obtain ⟨rest, hres⟩ : ∃ rest, resource = done ++ x :: rest := by
        have h := congrArg (List.drop done.length) hsplit
        rw [List.drop_left' rfl, List.drop_append_of_le_length (by omega)] at h
        cases hd : resource.drop done.length with
        | nil =>
            have hnone := congrArg List.length hd
            simp only [List.length_drop, List.length_nil] at hnone
            omega
        | cons y rest =>
            rw [hd] at h
            obtain ⟨rfl, -⟩ := List.cons.inj h
            refine ⟨rest, ?_⟩
            rw [hdone]
            conv_lhs => rw [← List.take_append_drop done.length resource, hd]
      have hp := hpos (by omega)
      rw [hidx, ← hdone] at hp
      have hread := P.resourceRead
      rw [hres] at hread
      have hx := read_packed hread
      have hle := packed_length_le done rest x
      rw [← hres] at hle
      rw [← hp] at hx
      have hunpack := unpackKv_eq (w := w) hx (by omega)
      refine ⟨⟨w.add (if c.index = 0 then b.core.resourceOff else c.pos)
        (UInt32.ofNat x.bytes.length), c.index + 1⟩, ?_, ⟨done ++ [x], by rw [hsplit]; simp, ?_⟩,
          ?_⟩
      · unfold nextResourceAttr
        simp only [if_pos hlt, hunpack]
      · rw [hnext, List.length_append, List.length_singleton]
      · intro _
        dsimp only
        have htake : resource.take (c.index + 1).toNat = done ++ [x] := by
          rw [hnext, hres, List.take_append]
          simp
        have hsize : (UInt32.ofNat x.bytes.length).toNat = x.bytes.length :=
          Word32.toNat_ofNat_of_lt (by omega)
        rw [if_neg hne, htake, packed_length_append,
          Word32.toNat_add (by rw [hp, hsize]; omega), hp, hsize]
        omega
    · -- a reserved attribute
      have hge := UInt32.not_lt.mp hlt
      have hge' := UInt32.le_iff_toNat_le.mp hge
      have hsub : (c.index - b.core.resourceCount).toNat = done.length - resource.length := by
        rw [UInt32.toNat_sub_of_le _ _ hge]
        omega
      have hget : b.reserved[done.length - resource.length]? = some x := by
        have h := congrArg (fun l : List Attr => l[done.length]?) hsplit
        rw [List.getElem?_append_right (by omega), List.getElem?_append_right (Nat.le_refl _)] at h
        simpa using h
      refine ⟨⟨if c.index = 0 then b.core.resourceOff else c.pos, c.index + 1⟩, ?_,
        ⟨done ++ [x], by rw [hsplit]; simp, ?_⟩, ?_⟩
      · unfold nextResourceAttr
        simp only [if_neg hlt, hsub, hget]
        rfl
      · rw [hnext, List.length_append, List.length_singleton]
      · intro hle
        rw [hnext] at hle
        omega
  · intro _
    simp [Cursor.zero, P.resourceOff]

/-! ### Names and status messages -/

theorem getLast?_getD_cons {α : Type} (x d : α) (l : List α) :
    (x :: l).getLast?.getD d = l.getLast?.getD x := by
  rw [List.getLast?_cons]
  rfl

/-- `span_strings` over the rest of a chunk list: the last name and the last
status message win. -/
theorem spanStrings_loop {l : List UInt32} {cells : List Cell} {head : UInt32} {name status : Bytes}
    {fuel : Nat} (hlist : IsList (nextOf st) none32 head l)
    (hcells : List.Forall₂ Holds (l.map (coreAt st)) cells) (hfuel : l.length ≤ fuel) :
    whileLoop (fun s => decide (s.1 ≠ none32)) (stringsStep st) fuel (head, name, status) =
      (none32, (pick Item.name? cells).getLast?.getD name,
        (pick Item.status? cells).getLast?.getD status) := by
  induction l generalizing cells head name status fuel with
  | nil =>
      cases hcells
      have hhead : head = none32 := hlist
      rw [whileLoop_done fuel (by simp [hhead]), hhead]
      rfl
  | cons o l ih =>
      cases hcells with
      | @cons _ c _ cells hc hrest =>
          obtain ⟨rfl, hne, htail⟩ := hlist
          obtain ⟨fuel, rfl⟩ : ∃ k, fuel = k + 1 := ⟨fuel - 1, by simp at hfuel; omega⟩
          have hkind : (getChunk st head).kind = c.item.kind := hc.kind
          have hused : (getChunk st head).used.toNat = c.item.bytes.length := hc.used
          have htext : st.mem.read (chunkPayload head) (getChunk st head).used.toNat =
              c.item.bytes := by
            rw [hused]
            exact hc.read
          have hstep : stringsStep st (head, name, status) =
              (nextOf st head, if c.item.kind = .name then c.item.bytes else name,
                if c.item.kind = .status then c.item.bytes else status) := by
            unfold stringsStep
            simp only [htext, hkind]
            rfl
          rw [whileLoop_step fuel (by simpa using hne), hstep,
            ih htail hrest (by simpa using hfuel)]
          obtain ⟨item, cap⟩ := c
          cases item with
          | name text => simp [pick, Item.name?, Item.status?, Item.kind, Item.bytes,
              getLast?_getD_cons]
          | attr a => simp [pick, Item.name?, Item.status?, Item.kind]
          | event time title attrs => simp [pick, Item.name?, Item.status?, Item.kind]
          | status text => simp [pick, Item.name?, Item.status?, Item.kind, Item.bytes,
              getLast?_getD_cons]

theorem spanStrings_eq {cells : List Cell} (H : Heap st cs ch loose) (hs : Used st s)
    (hcells : List.Forall₂ Holds ((ch s).map (coreAt st)) cells) :
    spanStrings st (getSlot st s).head =
      ((pick Item.name? cells).getLast?.getD [], (pick Item.status? cells).getLast?.getD []) := by
  unfold spanStrings
  rw [spanStrings_loop (H.list s hs) hcells (H.length_le hs)]

/-! ### Chunks of one kind -/

/-- `next_of_kind` skips to the first chunk of the kind. -/
theorem skip_loop {l : List UInt32} {cells : List Cell} {head : UInt32} {fuel : Nat}
    (kind : ChunkKind) (hlist : IsList (nextOf st) none32 head l)
    (hcells : List.Forall₂ Holds (l.map (coreAt st)) cells) (hfuel : l.length ≤ fuel) :
    let off := whileLoop
      (fun off => decide (off ≠ none32) && decide ((getChunk st off).kind ≠ kind))
      (fun off => (getChunk st off).next) fuel head
    (off = none32 ∧ ∀ c ∈ cells, c.item.kind ≠ kind) ∨
      ∃ c₁ c c₂ l₂, cells = c₁ ++ c :: c₂ ∧ (∀ x ∈ c₁, x.item.kind ≠ kind) ∧ c.item.kind = kind ∧
        off ≠ none32 ∧ Holds (coreAt st off) c ∧
        IsList (nextOf st) none32 (nextOf st off) l₂ ∧ l₂.length < l.length ∧
        List.Forall₂ Holds (l₂.map (coreAt st)) c₂ := by
  induction l generalizing cells head fuel with
  | nil =>
      cases hcells
      have hhead : head = none32 := hlist
      left
      rw [whileLoop_done fuel (by simp [hhead])]
      exact ⟨hhead, by simp⟩
  | cons o l ih =>
      cases hcells with
      | @cons _ c _ cells hc hrest =>
          obtain ⟨rfl, hne, htail⟩ := hlist
          obtain ⟨fuel, rfl⟩ : ∃ k, fuel = k + 1 := ⟨fuel - 1, by simp at hfuel; omega⟩
          have hkind : (getChunk st head).kind = c.item.kind := hc.kind
          by_cases hmatch : c.item.kind = kind
          · right
            rw [whileLoop_done _ (by simp [hkind, hmatch])]
            exact ⟨[], c, cells, l, rfl, by simp, hmatch, hne, hc, htail, by simp, hrest⟩
          · dsimp only
            rw [whileLoop_step fuel (by simp [hne, hkind, hmatch])]
            have hlen : l.length ≤ fuel := by simpa using hfuel
            rcases ih htail hrest hlen with
              ⟨hoff, hnone⟩ | ⟨c₁, d, c₂, l₂, rfl, h₁, hd, hoff, hhold, hl₂, hlen, h₂⟩
            · left
              refine ⟨hoff, ?_⟩
              intro x hx
              rcases List.mem_cons.mp hx with rfl | hx
              · exact hmatch
              · exact hnone x hx
            · right
              refine ⟨c :: c₁, d, c₂, l₂, rfl, ?_, hd, hoff, hhold, hl₂, ?_, h₂⟩
              · intro x hx
                rcases List.mem_cons.mp hx with rfl | hx
                · exact hmatch
                · exact h₁ x hx
              · rw [List.length_cons]
                omega

/-- The cursor over a chunk list stands before the chunks `l`, which hold
`cells`. -/
structure AtChunks (st : LeafState) (chain : UInt32) (cells : List Cell) (c : Cursor) : Prop where
  list : ∃ l, IsList (nextOf st) none32 (if c.index = 0 then chain else c.pos) l ∧
    List.Forall₂ Holds (l.map (coreAt st)) cells ∧ l.length ≤ st.bufSize.toNat ∧
    c.index.toNat + l.length + 1 < 2 ^ 32
  small : ∀ x ∈ cells, x.item.bytes.length ≤ st.bufSize.toNat

theorem AtChunks.next {chain : UInt32} {cells : List Cell} {c : Cursor}
    (h : AtChunks st chain cells c) (kind : ChunkKind) :
    ((nextOfKind st chain c kind).1 = none32 ∧ ∀ x ∈ cells, x.item.kind ≠ kind) ∨
      ∃ c₁ x c₂, cells = c₁ ++ x :: c₂ ∧ (∀ y ∈ c₁, y.item.kind ≠ kind) ∧ x.item.kind = kind ∧
        (nextOfKind st chain c kind).1 ≠ none32 ∧
        Holds (coreAt st (nextOfKind st chain c kind).1) x ∧
        AtChunks st chain c₂ (nextOfKind st chain c kind).2 := by
  obtain ⟨l, hlist, hcells, hlen, hidx⟩ := h.list
  unfold nextOfKind
  dsimp only
  rcases skip_loop kind hlist hcells hlen with
    ⟨hoff, hnone⟩ | ⟨c₁, x, c₂, l₂, hsplit, h₁, hx, hoff, hhold, hl₂, hshort, h₂⟩
  · left
    rw [hoff]
    exact ⟨by simp, hnone⟩
  · right
    generalize whileLoop _ _ _ _ = off at hoff hhold hl₂
    simp only [if_pos hoff]
    have hnext : (c.index + 1).toNat = c.index.toNat + 1 := Cursor.index_succ rfl (by omega)
    have hne : ¬ c.index + 1 = 0 := by
      intro h
      rw [h] at hnext
      simp at hnext
    refine ⟨c₁, x, c₂, hsplit, h₁, hx, hoff, hhold, ⟨l₂, ?_, h₂, by omega, ?_⟩, ?_⟩
    · rw [if_neg hne]
      exact hl₂
    · rw [hnext]
      omega
    · intro y hy
      exact h.small y (by rw [hsplit]; simp [hy])

theorem AtChunks.start {cells : List Cell} (H : Heap st cs ch loose) (hs : Used st s)
    (hcells : List.Forall₂ Holds ((ch s).map (coreAt st)) cells) :
    AtChunks st (getSlot st s).head cells .zero := by
  have hlen := H.length_le hs
  have hbuf := H.arena.bufSize_le
  have hmax : maxBuffer = 0xfffffff0 := rfl
  refine ⟨⟨ch s, H.list s hs, hcells, hlen, by simp [Cursor.zero]; omega⟩, ?_⟩
  intro x hx
  obtain ⟨l, hl, hsub⟩ : ∃ l, List.Forall₂ Holds (l.map (coreAt st)) cells ∧ ∀ o ∈ l, o ∈ cs :=
    ⟨ch s, hcells, fun o ho => H.mem_cs ho⟩
  clear hcells hlen
  induction l generalizing cells with
  | nil =>
      cases hl
      simp at hx
  | cons o l ih =>
      cases hl with
      | cons ho hrest =>
          rcases List.mem_cons.mp hx with rfl | hx
          · have hsize : chunkSize st o = x.bytes := ho.size
            have hfits := ho.fits
            have hbound := H.arena.mem_bounds (hsub o (by simp))
            have hpersist := H.arena.persist_le
            unfold Cell.bytes at hsize
            omega
          · exact ih hx hrest fun y hy => hsub y (by simp [hy])

theorem AtChunks.length_le {chain : UInt32} {cells : List Cell} {c : Cursor}
    (h : AtChunks st chain cells c) : cells.length ≤ st.bufSize.toNat := by
  obtain ⟨l, -, hcells, hlen, -⟩ := h.list
  have heq := hcells.length_eq
  rw [List.length_map] at heq
  omega

theorem pick_eq_nil {α : Type} {f : Item → Option α} {kind : ChunkKind} {cells : List Cell}
    (hf : ∀ i, (f i).isSome → i.kind = kind) (h : ∀ c ∈ cells, c.item.kind ≠ kind) :
    pick f cells = [] := by
  unfold pick
  rw [List.filterMap_eq_nil_iff]
  intro c hc
  by_contra hne
  exact h c hc (hf _ (Option.isSome_iff_ne_none.mpr hne))

theorem attrList_eq {b : Batch} {sp : InternalSpan} {cells : List Cell}
    (h : AtChunks b.core sp.chain cells .zero) : attrList w b sp = pick Item.attr? cells := by
  have hkind : ∀ i : Item, (i.attr?).isSome → i.kind = .attr := by
    intro i hi
    cases i <;> simp_all [Item.attr?, Item.kind]
  have hfuel : (pick Item.attr? cells).length ≤ cursorFuel b.core := by
    have h1 := List.length_filterMap_le (fun c : Cell => Item.attr? c.item) cells
    have h2 := h.length_le
    unfold cursorFuel pick
    omega
  refine collect_eq (fun xs c => ∃ cells, pick Item.attr? cells = xs ∧
    AtChunks b.core sp.chain cells c) ?_ ?_ hfuel ⟨cells, rfl, h⟩
  · rintro c ⟨cells, hpick, hat⟩
    unfold nextAttr
    rcases hat.next .attr with ⟨hoff, -⟩ | ⟨c₁, x, c₂, rfl, h₁, hx, -⟩
    · simp only [hoff, if_true]
    · obtain ⟨item, cap⟩ := x
      cases item with
      | attr a => simp [pick, Item.attr?] at hpick
      | name text => simp [Item.kind] at hx
      | event time title attrs => simp [Item.kind] at hx
      | status text => simp [Item.kind] at hx
  · rintro a xs c ⟨cells, hpick, hat⟩
    unfold nextAttr
    rcases hat.next .attr with ⟨-, hnone⟩ | ⟨c₁, x, c₂, rfl, h₁, hx, hoff, hhold, hrest⟩
    · rw [pick_eq_nil hkind hnone] at hpick
      simp at hpick
    · obtain ⟨item, cap⟩ := x
      cases item with
      | name text => simp [Item.kind] at hx
      | event time title attrs => simp [Item.kind] at hx
      | status text => simp [Item.kind] at hx
      | attr a' =>
          rw [pick_append, pick_eq_nil hkind h₁] at hpick
          have hpick' : a' :: pick Item.attr? c₂ = a :: xs := by
            simpa [pick, Item.attr?] using hpick
          obtain ⟨rfl, hxs⟩ := List.cons.inj hpick'
          have hunpack := unpackKv_eq (w := w) hhold.read hhold.size_lt
          refine ⟨_, ?_, c₂, hxs, hrest⟩
          simp only [if_neg hoff, hunpack]

/-! ### Events -/

/-- Where the attributes of an event lie. -/
theorem event_read {o : UInt32} {time : UInt64} {title : Bytes} {attrs : List Attr} {cap : Nat}
    (h : Holds (coreAt st o) ⟨.event time title attrs, cap⟩) :
    let hdr := st.mem.get EventHdr.layout (chunkPayload o)
    hdr.time = time ∧ hdr.attrCount.toNat = attrs.length ∧
      st.mem.read (chunkPayload o + sizeofEventHdr) hdr.nameLen.toNat = title ∧
      st.mem.read (chunkPayload o + sizeofEventHdr + hdr.nameLen.toNat)
        (attrs.flatMap Attr.bytes).length = attrs.flatMap Attr.bytes ∧
      (attrs.flatMap Attr.bytes).length < 2 ^ 32 := by
  have hread := h.read
  have hlt := h.size_lt
  have hlen := length_le_packed attrs
  simp only [Item.bytes] at hread hlt
  set hdr : EventHdr := ⟨time, UInt32.ofNat title.length, UInt32.ofNat attrs.length⟩ with hhdr
  have henc : (EventHdr.layout.enc hdr).length = sizeofEventHdr := EventHdr.layout.enc_length hdr
  simp only [List.length_append, List.append_assoc, henc] at hread hlt
  rw [Mem.read_add] at hread
  obtain ⟨hhead, htail⟩ := List.append_inj hread (by simp [henc])
  rw [Mem.read_add] at htail
  obtain ⟨hname, hattrs⟩ := List.append_inj htail (by simp)
  have hget : st.mem.get EventHdr.layout (chunkPayload o) = hdr := by
    apply Mem.get_of_read_append _ []
    simpa using hhead
  have hnameLen : hdr.nameLen.toNat = title.length := Word32.toNat_ofNat_of_lt (by omega)
  dsimp only
  rw [hget, hnameLen]
  exact ⟨rfl, Word32.toNat_ofNat_of_lt (by omega), hname, hattrs, by omega⟩

theorem eventAttrList_eq {b : Batch} {ev : InternalEvent} {attrs : List Attr}
    (hcount : ev.attrCount.toNat = attrs.length)
    (hread : b.core.mem.read ev.attrs (attrs.flatMap Attr.bytes).length =
      attrs.flatMap Attr.bytes) (hlt : (attrs.flatMap Attr.bytes).length < 2 ^ 32)
    (hfuel : attrs.length ≤ cursorFuel b.core) : eventAttrList w b ev = attrs := by
  have hmany := length_le_packed attrs
  refine collect_eq (fun xs c => ∃ done, attrs = done ++ xs ∧ c.index.toNat = done.length ∧
    c.pos.toNat = (done.flatMap Attr.bytes).length) ?_ ?_ hfuel ⟨[], rfl, rfl, rfl⟩
  · rintro c ⟨done, hsplit, hidx, -⟩
    rw [List.append_nil] at hsplit
    have hle : ev.attrCount ≤ c.index := by
      rw [UInt32.le_iff_toNat_le, hcount, hidx, hsplit]
    unfold nextEventAttr
    rw [if_pos hle]
  · rintro a xs c ⟨done, hsplit, hidx, hpos⟩
    have hlen := congrArg List.length hsplit
    simp only [List.length_append, List.length_cons] at hlen
    have hle : ¬ ev.attrCount ≤ c.index := by
      rw [UInt32.le_iff_toNat_le, hcount, hidx]
      omega
    rw [hsplit] at hread
    have hbytes := packed_length_le done xs a
    rw [← hsplit] at hbytes
    have hunpack := unpackKv_eq (w := w) (read_packed hread) (by omega)
    rw [← hpos] at hunpack
    have hsize : (UInt32.ofNat a.bytes.length).toNat = a.bytes.length :=
      Word32.toNat_ofNat_of_lt (by omega)
    refine ⟨⟨w.add c.pos (UInt32.ofNat a.bytes.length), c.index + 1⟩, ?_, done ++ [a],
      by rw [hsplit]; simp, ?_, ?_⟩
    · unfold nextEventAttr
      simp only [if_neg hle, hunpack]
    · rw [Cursor.index_succ hidx (by omega), List.length_append, List.length_singleton]
    · rw [Word32.toNat_add (by omega), packed_length_append, hpos, hsize]

theorem eventView_eq {b : Batch} {ev : InternalEvent} {time : UInt64} {title : Bytes}
    {attrs : List Attr} (htime : ev.timeUnixNano = time + b.timeOffset) (hname : ev.name = title)
    (hcount : ev.attrCount.toNat = attrs.length)
    (hread : b.core.mem.read ev.attrs (attrs.flatMap Attr.bytes).length =
      attrs.flatMap Attr.bytes) (hlt : (attrs.flatMap Attr.bytes).length < 2 ^ 32)
    (hfuel : attrs.length ≤ cursorFuel b.core) :
    eventView w b ev = ⟨time + b.timeOffset, title, attrs⟩ := by
  unfold eventView
  rw [eventAttrList_eq hcount hread hlt hfuel, htime, hname]

theorem eventViews_eq {b : Batch} {sp : InternalSpan} {cells : List Cell}
    (h : AtChunks b.core sp.chain cells .zero) :
    (eventList b sp).map (eventView w b) =
      (pick Item.event? cells).map fun (time, name, attrs) =>
        ⟨time + b.timeOffset, name, attrs⟩ := by
  have hkind : ∀ i : Item, (i.event?).isSome → i.kind = .event := by
    intro i hi
    cases i <;> simp_all [Item.event?, Item.kind]
  have hfuel : ((pick Item.event? cells).map fun (time, name, attrs) =>
      (⟨time + b.timeOffset, name, attrs⟩ : EventView)).length ≤ cursorFuel b.core := by
    have h1 := List.length_filterMap_le (fun c : Cell => Item.event? c.item) cells
    have h2 := h.length_le
    rw [List.length_map]
    unfold cursorFuel pick
    omega
  refine collect_map_eq (eventView w b) (fun ys c => ∃ cells,
    ((pick Item.event? cells).map fun (time, name, attrs) =>
      (⟨time + b.timeOffset, name, attrs⟩ : EventView)) = ys ∧
    AtChunks b.core sp.chain cells c) ?_ ?_ hfuel ⟨cells, rfl, h⟩
  · rintro c ⟨cells, hpick, hat⟩
    unfold nextEvent
    rcases hat.next .event with ⟨hoff, -⟩ | ⟨c₁, x, c₂, rfl, h₁, hx, -⟩
    · simp only [hoff, if_true]
    · obtain ⟨item, cap⟩ := x
      cases item with
      | event time title attrs => simp [pick, Item.event?] at hpick
      | name text => simp [Item.kind] at hx
      | attr a => simp [Item.kind] at hx
      | status text => simp [Item.kind] at hx
  · rintro ev ys c ⟨cells, hpick, hat⟩
    unfold nextEvent
    rcases hat.next .event with ⟨-, hnone⟩ | ⟨c₁, x, c₂, rfl, h₁, hx, hoff, hhold, hrest⟩
    · rw [pick_eq_nil hkind hnone] at hpick
      simp at hpick
    · obtain ⟨item, cap⟩ := x
      cases item with
      | name text => simp [Item.kind] at hx
      | attr a => simp [Item.kind] at hx
      | status text => simp [Item.kind] at hx
      | event time title attrs =>
          rw [pick_append, pick_eq_nil hkind h₁] at hpick
          obtain ⟨hev, hys⟩ : (⟨time + b.timeOffset, title, attrs⟩ : EventView) = ev ∧
              ((pick Item.event? c₂).map fun (time, name, attrs) =>
                (⟨time + b.timeOffset, name, attrs⟩ : EventView)) = ys := by
            simpa [pick, Item.event?] using hpick
          obtain ⟨htime, hcount, hname, hattrs, hlt⟩ := event_read hhold
          have hmany := length_le_packed attrs
          have hin : attrs.length ≤ cursorFuel b.core := by
            have hsmall := hat.small ⟨.event time title attrs, cap⟩ (by simp)
            simp only [Item.bytes, List.length_append] at hsmall
            unfold cursorFuel
            omega
          refine ⟨_, _, by simp only [if_neg hoff]; rfl, ?_, c₂, hys, hrest⟩
          have hshifted := congrArg (fun t => t + b.timeOffset) htime
          rw [← hev]
          exact eventView_eq hshifted hname hcount hattrs hlt hin

/-! ### Spans -/

/-- What `next_span` returns for a slot that holds `e`. -/
def internalSpan (st : LeafState) (offset : UInt64) (s : UInt16) (e : Entry) : InternalSpan where
  traceId := e.traceId
  spanId := e.spanId
  parentSpanId := e.parent
  name := e.names.getLast?.getD []
  kind := e.kind.code
  startTimeUnixNano := e.start + offset
  endTimeUnixNano := e.finish + offset
  hasStatus := e.statusCode ≠ .unset || 0 < (e.statuses.getLast?.getD []).length
  statusCode := e.statusCode.code
  statusMessage := e.statuses.getLast?.getD []
  attrCount := UInt16.ofNat e.attrs.length
  eventCount := UInt16.ofNat e.events.length
  chain := (getSlot st s).head

theorem StatusCode.code_ne_unset (c : StatusCode) :
    (c.code ≠ StatusCode.unset.code) = (c ≠ .unset) := by
  cases c <;> simp [StatusCode.code]

theorem Rep.nextSpan {e : Entry} {b : Batch} {c : Cursor} (R : Rep b.core S cs ch)
    (hs : s < b.core.slotCount) (he : S.entry s = some e)
    (hcur : (if c.index = 0 then b.core.endedHead else c.pos.toUInt16) = s) :
    nextSpan b c = some (internalSpan b.core b.timeOffset s e,
      ⟨(getSlot b.core s).nextEnded.toUInt32, c.index + 1⟩) := by
  have hheld := R.held s hs e he
  have hstrings := spanStrings_eq R.heap (R.used hs he) hheld.cells
  have hparent : (if e.parent.isSome then some (e.parent.getD (Vector.replicate 8 0)) else none) =
      e.parent := by
    cases e.parent <;> rfl
  have hrec : getSlot b.core s = e.toRec (getSlot b.core s).head (getSlot b.core s).tail
      (getSlot b.core s).nextEnded := by
    have h := hheld.body
    generalize getSlot b.core s = r at h
    obtain ⟨start, finish, traceId, spanId, parentSpanId, head, tail, gen, nextEnded, attrCount,
      eventCount, state, kind, statusCode, hasParent⟩ := r
    simp only [SpanRec.body, Entry.toRec, SpanRec.mk.injEq] at h ⊢
    simp only [h, and_self]
  unfold Leaf.nextSpan
  simp only [hcur, if_neg (slot_ne_none hs), hstrings]
  rw [hrec]
  simp only [Entry.toRec, StatusCode.code_ne_unset, internalSpan, Entry.names, Entry.statuses]
  congr 3

theorem Rep.spanView {e : Entry} {b : Batch} (R : Rep b.core S cs ch) (hs : s < b.core.slotCount)
    (he : S.entry s = some e) :
    spanView w b (internalSpan b.core b.timeOffset s e) = e.view b.timeOffset := by
  have hheld := R.held s hs e he
  have hat : AtChunks b.core (internalSpan b.core b.timeOffset s e).chain e.cells .zero :=
    AtChunks.start R.heap (R.used hs he) hheld.cells
  unfold Leaf.spanView
  rw [attrList_eq hat, eventViews_eq hat]
  rfl

theorem Rep.spanViews {b : Batch} (R : Rep b.core S cs ch) (V : S.Valid) :
    (spanList b).map (Leaf.spanView w b) = S.endedEntries.map fun e => e.view b.timeOffset := by
  have hlt := R.ended_lt V
  have hlen := R.ended_length_lt V
  have hfuel : (S.endedEntries.map fun e => e.view b.timeOffset).length ≤ cursorFuel b.core := by
    have hsub : S.ended ⊆ slots b.core := fun t ht => mem_slots.mpr (hlt t ht)
    have h1 := (List.subperm_of_subset V.ended_nodup hsub).length_le
    have h2 := List.length_filterMap_le S.entry S.ended
    have h3 := R.heap.arena.table_le
    have h4 := R.heap.arena.tiles.le
    have h5 := R.heap.arena.persist_le
    have h72 : tableEnd b.core = b.core.slotCount.toNat * 72 := rfl
    simp only [slots, List.length_map, List.length_range] at h1
    rw [List.length_map]
    unfold cursorFuel Store.endedEntries
    omega
  refine collect_map_eq (Leaf.spanView w b) (fun ys c => ∃ todo,
    ((todo.filterMap S.entry).map fun e => e.view b.timeOffset) = ys ∧
    (∀ t ∈ todo, t ∈ S.ended) ∧ c.index.toNat + todo.length < 65536 ∧
    IsList (fun s => (getSlot b.core s).nextEnded) none16
      (if c.index = 0 then b.core.endedHead else c.pos.toUInt16) todo) ?_ ?_ hfuel
    ⟨S.ended, rfl, fun _ h => h, by simpa [Cursor.zero] using hlen, R.endedList⟩
  · rintro c ⟨todo, hys, hin, -, hlist⟩
    cases todo with
    | nil =>
        have hnone : (if c.index = 0 then b.core.endedHead else c.pos.toUInt16) = none16 := hlist
        unfold Leaf.nextSpan
        simp only [hnone, if_true]
    | cons t todo =>
        obtain ⟨e, he, -⟩ := (V.ended_iff t).mp (hin t (by simp))
        simp [he] at hys
  · rintro y ys c ⟨todo, hys, hin, hidx, hlist⟩
    cases todo with
    | nil => simp at hys
    | cons t todo =>
        obtain ⟨e, he, -⟩ := (V.ended_iff t).mp (hin t (by simp))
        have ht := hlt t (hin t (by simp))
        obtain ⟨hcur, -, hrest⟩ := hlist
        have hsplit : e.view b.timeOffset = y ∧
            ((todo.filterMap S.entry).map fun e => e.view b.timeOffset) = ys := by
          simpa [he] using hys
        rw [List.length_cons] at hidx
        have hnext : (c.index + 1).toNat = c.index.toNat + 1 := Cursor.index_succ rfl (by omega)
        have hne : ¬ c.index + 1 = 0 := by
          intro h
          rw [h] at hnext
          simp at hnext
        refine ⟨_, _, R.nextSpan ht he hcur, ?_, todo, hsplit.2, ?_, ?_, ?_⟩
        · rw [R.spanView ht he]
          exact hsplit.1
        · intro u hu
          exact hin u (by simp [hu])
        · dsimp only
          rw [hnext]
          omega
        · dsimp only
          rw [if_neg hne]
          simpa using hrest

/-- What a backend reads from the buffer is what the store holds. -/
theorem Rep.batchView (R : Rep st S cs ch) (V : S.Valid) (env : Callbacks) :
    batchView w st env = S.view env := by
  have hres : resourceList w (buildBatch st env) =
      S.resource ++ (buildBatch st env).reserved :=
    resourceList_eq R.persistent R.heap.arena.bufSize_le (reservedAttrs_length _ _ _)
  have hspans := Rep.spanViews (w := w) (b := buildBatch st env) R V
  have hname : (buildBatch st env).scopeName = S.scopeName := R.persistent.nameRead
  have hversion : (buildBatch st env).scopeVersion = S.scopeVersion := R.persistent.versionRead
  unfold Leaf.batchView viewOf
  rw [hres, hspans, hname, hversion]
  unfold buildBatch Store.view
  rw [R.params, R.vars]

/-- `encode_with` and the calls over it. -/
theorem Rep.encode (R : Rep st S cs ch) (V : S.Valid) (env : Callbacks) (argsOk : Bool)
    (backend : BatchView → Status) {ω : Word32} :
    Refines (encode w st env argsOk backend) (S.encode env argsOk backend) ∧
      Leaf.encode w st env argsOk backend = Leaf.encode ω st env argsOk backend := by
  have hlive : ¬ Leaf.checkLeaf st ≠ .ok := by simp [R.checkLeaf]
  have hview := R.batchView (w := w) V env
  have hview' := R.batchView (w := ω) V env
  unfold Leaf.encode Store.encode
  rw [if_neg hlive, if_neg hlive]
  cases argsOk with
  | false => exact ⟨⟨rfl, cs, ch, R⟩, rfl⟩
  | true =>
      simp only [Bool.not_true, Bool.false_eq_true, if_false, encodeWith, hview, hview']
      by_cases hok : backend (S.view env) = .ok
      · obtain ⟨⟨cs', ch', R'⟩, hword⟩ := R.releaseEnded (w := w) (ω := ω) V
        simp only [hok, if_true]
        exact ⟨⟨rfl, cs', ch', R'⟩, by rw [hword]⟩
      · simp only [if_neg hok]
        exact ⟨⟨rfl, cs, ch, R⟩, trivial⟩

end

end Microtel.Leaf
