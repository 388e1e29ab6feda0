import Microtel.Leaf.Store

/-!
What holds of every store a leaf can reach: keys are distinct, counts respect
the limits, ids are non-zero, the ended list is exact, and the last slot of the
table is never free.
-/

namespace Microtel.Leaf

open ByteMemory

structure Entry.Valid (p : LeafParams) (e : Entry) : Prop where
  gen_ne : e.gen ≠ 0
  keys_ne : ∀ a ∈ e.attrs, a.key ≠ []
  keys_nodup : (e.attrs.map Attr.key).Nodup
  names_le : e.names.length ≤ 1
  statuses_le : e.statuses.length ≤ 1
  attrs_le : e.attrs.length ≤ p.maxAttrs.toNat
  events_le : e.events.length ≤ p.maxEvents.toNat
  event_attrs_le : ∀ ev ∈ e.events, ev.2.2.length ≤ p.maxEventAttrs.toNat
  event_keys_ne : ∀ ev ∈ e.events, ∀ a ∈ ev.2.2, a.key ≠ []
  traceId_ne : allZero e.traceId.toList = false
  spanId_ne : allZero e.spanId.toList = false
  parent_ne : ∀ id, e.parent = some id → allZero id.toList = false

structure Store.Valid (S : Store) : Prop where
  entries : ∀ s e, S.entry s = some e → e.Valid S.toLeafParams
  bound : ∀ s e, S.entry s = some e → s < S.count
  last : S.count ≠ 0 → (S.entry (S.count - 1)).isSome
  ended_nodup : S.ended.Nodup
  ended_iff : ∀ s, s ∈ S.ended ↔ ∃ e, S.entry s = some e ∧ e.ended = true
  nextGen_ne : S.nextGen ≠ 0
  resource_keys : ∀ a ∈ S.resource, a.key ≠ [] ∧ reservedPrefix.isPrefixOf a.key = false

/-! ### Lists of cells -/

theorem replaceFirst_append {p : Cell → Bool} {new c : Cell} {c₁ c₂ : List Cell}
    (h₁ : ∀ x ∈ c₁, p x = false) (hc : p c = true) :
    Store.replaceFirst p new (c₁ ++ c :: c₂) = c₁ ++ new :: c₂ := by
  induction c₁ with
  | nil => simp [Store.replaceFirst, hc]
  | cons x c₁ ih =>
      have hx := h₁ x (by simp)
      simp [Store.replaceFirst, hx, ih fun y hy => h₁ y (by simp [hy])]

theorem find?_append_of_first {p : Cell → Bool} {c : Cell} {c₁ c₂ : List Cell}
    (h₁ : ∀ x ∈ c₁, p x = false) (hc : p c = true) : (c₁ ++ c :: c₂).find? p = some c := by
  rw [List.find?_eq_some_iff_append]
  exact ⟨hc, c₁, c₂, rfl, fun x hx => by simp [h₁ x hx]⟩

theorem eraseP_append_of_first {p : Cell → Bool} {c : Cell} {c₁ c₂ : List Cell}
    (h₁ : ∀ x ∈ c₁, p x = false) (hc : p c = true) :
    (c₁ ++ c :: c₂).eraseP p = c₁ ++ c₂ := by
  rw [List.eraseP_append_right _ (by simpa using h₁), List.eraseP_cons_of_pos hc]

/-- A list with a match splits at its first one. -/
theorem exists_first {p : Cell → Bool} {cells : List Cell} {c : Cell}
    (h : cells.find? p = some c) :
    ∃ c₁ c₂, cells = c₁ ++ c :: c₂ ∧ (∀ x ∈ c₁, p x = false) ∧ p c = true := by
  obtain ⟨hc, c₁, c₂, hcells, h₁⟩ := List.find?_eq_some_iff_append.mp h
  exact ⟨c₁, c₂, hcells, fun x hx => by simpa using h₁ x hx, hc⟩

theorem pick_append {α : Type} (f : Item → Option α) (c₁ c₂ : List Cell) :
    pick f (c₁ ++ c₂) = pick f c₁ ++ pick f c₂ := by
  simp [pick]

theorem pick_cons {α : Type} (f : Item → Option α) (c : Cell) (cells : List Cell) :
    pick f (c :: cells) = (f c.item).toList ++ pick f cells := by
  unfold pick
  rw [List.filterMap_cons]
  cases f c.item <;> simp

@[simp] theorem pick_nil {α : Type} (f : Item → Option α) : pick f [] = [] := rfl

theorem Cell.hasKey_iff {key : Bytes} {c : Cell} :
    c.hasKey key = true ↔ ∃ a, c.item = .attr a ∧ a.key = key := by
  obtain ⟨item, cap⟩ := c
  cases item <;> simp [Cell.hasKey]

theorem Cell.isStatus_iff {c : Cell} : c.isStatus = true ↔ ∃ text, c.item = .status text := by
  obtain ⟨item, cap⟩ := c
  cases item <;> simp [Cell.isStatus]

theorem key_ne_of_find {key : Bytes} {cells : List Cell}
    (h : cells.find? (Cell.hasKey key) = none) : ∀ a ∈ pick Item.attr? cells, a.key ≠ key := by
  intro a ha hkey
  obtain ⟨c, hc, hattr⟩ := List.mem_filterMap.mp ha
  have hnone := List.find?_eq_none.mp h c hc
  apply hnone
  rw [Cell.hasKey_iff]
  refine ⟨a, ?_, hkey⟩
  revert hattr
  cases c.item <;> simp [Item.attr?]

theorem pick_status_of_not {cells : List Cell} (h : ∀ c ∈ cells, c.isStatus = false) :
    pick Item.status? cells = [] := by
  unfold pick
  rw [List.filterMap_eq_nil_iff]
  intro c hc
  have hnot := h c hc
  obtain ⟨item, cap⟩ := c
  cases item with
  | status text => simp [Cell.isStatus] at hnot
  | name text => rfl
  | attr a => rfl
  | event time title attrs => rfl

/-! ### One entry -/

section EntryChanges

variable {p : LeafParams} {e : Entry} {c : Cell} {c₁ c₂ : List Cell} {a : Attr} {cap : Nat}

/-- Validity reads the cells only through the items of each kind. -/
theorem Entry.Valid.withCells (h : e.Valid p) {cells : List Cell}
    (hkeys_ne : ∀ a ∈ pick Item.attr? cells, a.key ≠ [])
    (hnodup : ((pick Item.attr? cells).map Attr.key).Nodup)
    (hattrs : (pick Item.attr? cells).length ≤ p.maxAttrs.toNat)
    (hnames : pick Item.name? cells = e.names)
    (hstatuses : (pick Item.status? cells).length ≤ 1)
    (hevents : (pick Item.event? cells).length ≤ p.maxEvents.toNat)
    (heattrs : ∀ ev ∈ pick Item.event? cells,
      ev.2.2.length ≤ p.maxEventAttrs.toNat ∧ ∀ a ∈ ev.2.2, a.key ≠ []) :
    ({ e with cells := cells } : Entry).Valid p where
  gen_ne := h.gen_ne
  keys_ne := hkeys_ne
  keys_nodup := hnodup
  names_le := by
    change (pick Item.name? cells).length ≤ 1
    rw [hnames]
    exact h.names_le
  statuses_le := hstatuses
  attrs_le := hattrs
  events_le := hevents
  event_attrs_le ev hev := (heattrs ev hev).1
  event_keys_ne ev hev := (heattrs ev hev).2
  traceId_ne := h.traceId_ne
  spanId_ne := h.spanId_ne
  parent_ne := h.parent_ne

theorem Entry.Valid.overwrite (h : e.Valid p) (hcells : e.cells = c₁ ++ c :: c₂)
    (hkey : c.hasKey a.key = true) :
    ({ e with cells := c₁ ++ ⟨.attr a, cap⟩ :: c₂ } : Entry).Valid p := by
  obtain ⟨b, hb, hbkey⟩ := Cell.hasKey_iff.mp hkey
  have hattrs : e.attrs = pick Item.attr? c₁ ++ b :: pick Item.attr? c₂ := by
    simp [Entry.attrs, hcells, pick_append, pick_cons, hb, Item.attr?]
  have hattrs' : pick Item.attr? (c₁ ++ ⟨.attr a, cap⟩ :: c₂) =
      pick Item.attr? c₁ ++ a :: pick Item.attr? c₂ := by
    simp [pick_append, pick_cons, Item.attr?]
  -- Items of the other kinds are those of the entry.
  have hother : ∀ {α : Type} (f : Item → Option α), (∀ x, f (.attr x) = none) →
      pick f (c₁ ++ ⟨.attr a, cap⟩ :: c₂) = pick f e.cells := by
    intro α f hf
    simp [hcells, pick_append, pick_cons, hb, hf]
  apply h.withCells
  · intro x hx
    rw [hattrs'] at hx
    have hkeys := h.keys_ne
    rw [hattrs] at hkeys
    rcases List.mem_append.mp hx with hx | hx
    · exact hkeys x (by simp [hx])
    · rcases List.mem_cons.mp hx with rfl | hx
      · rw [← hbkey]
        exact hkeys b (by simp)
      · exact hkeys x (by simp [hx])
  · have hnodup := h.keys_nodup
    rw [hattrs, List.map_append, List.map_cons, hbkey] at hnodup
    rw [hattrs', List.map_append, List.map_cons]
    exact hnodup
  · have hle := h.attrs_le
    rw [hattrs] at hle
    rw [hattrs']
    simpa using hle
  · exact hother Item.name? fun _ => rfl
  · rw [hother Item.status? fun _ => rfl]
    exact h.statuses_le
  · rw [hother Item.event? fun _ => rfl]
    exact h.events_le
  · rw [hother Item.event? fun _ => rfl]
    exact fun ev hev => ⟨h.event_attrs_le ev hev, h.event_keys_ne ev hev⟩

theorem Entry.Valid.addAttr (h : e.Valid p) (hne : a.key ≠ [])
    (hnew : e.cells.find? (Cell.hasKey a.key) = none)
    (hlimit : e.attrs.length < p.maxAttrs.toNat) :
    ({ e with cells := e.cells ++ [⟨.attr a, cap⟩] } : Entry).Valid p := by
  have hfresh := key_ne_of_find hnew
  have hattrs : pick Item.attr? (e.cells ++ [⟨.attr a, cap⟩]) = e.attrs ++ [a] := by
    simp [pick_append, pick_cons, Item.attr?, Entry.attrs]
  have hother : ∀ {α : Type} (f : Item → Option α), (∀ x, f (.attr x) = none) →
      pick f (e.cells ++ [⟨.attr a, cap⟩]) = pick f e.cells := by
    intro α f hf
    simp [pick_append, pick_cons, hf]
  apply h.withCells
  · intro x hx
    rw [hattrs] at hx
    rcases List.mem_append.mp hx with hx | hx
    · exact h.keys_ne x hx
    · rw [List.mem_singleton.mp hx]
      exact hne
  · rw [hattrs, List.map_append]
    refine List.Nodup.append h.keys_nodup (by simp) ?_
    rw [List.disjoint_left]
    intro k hk hk'
    obtain ⟨x, hx, rfl⟩ := List.mem_map.mp hk
    have hkey : x.key = a.key := by simpa using hk'
    exact hfresh x hx hkey
  · rw [hattrs, List.length_append, List.length_singleton]
    omega
  · exact hother Item.name? fun _ => rfl
  · rw [hother Item.status? fun _ => rfl]
    exact h.statuses_le
  · rw [hother Item.event? fun _ => rfl]
    exact h.events_le
  · rw [hother Item.event? fun _ => rfl]
    exact fun ev hev => ⟨h.event_attrs_le ev hev, h.event_keys_ne ev hev⟩

theorem Entry.Valid.addEvent (h : e.Valid p) {time : UInt64} {title : Bytes} {attrs : List Attr}
    (hlimit : e.events.length < p.maxEvents.toNat) (hattrs : attrs.length ≤ p.maxEventAttrs.toNat)
    (hkeys : ∀ a ∈ attrs, a.key ≠ []) :
    ({ e with cells := e.cells ++ [⟨.event time title attrs, cap⟩] } : Entry).Valid p := by
  have hevents : pick Item.event? (e.cells ++ [⟨.event time title attrs, cap⟩]) =
      e.events ++ [(time, title, attrs)] := by
    simp [pick_append, pick_cons, Item.event?, Entry.events]
  have hother : ∀ {α : Type} (f : Item → Option α), (∀ t n as, f (.event t n as) = none) →
      pick f (e.cells ++ [⟨.event time title attrs, cap⟩]) = pick f e.cells := by
    intro α f hf
    simp [pick_append, pick_cons, hf]
  apply h.withCells
  · rw [hother Item.attr? fun _ _ _ => rfl]
    exact h.keys_ne
  · rw [hother Item.attr? fun _ _ _ => rfl]
    exact h.keys_nodup
  · rw [hother Item.attr? fun _ _ _ => rfl]
    exact h.attrs_le
  · exact hother Item.name? fun _ _ _ => rfl
  · rw [hother Item.status? fun _ _ _ => rfl]
    exact h.statuses_le
  · rw [hevents, List.length_append, List.length_singleton]
    omega
  · intro ev hev
    rw [hevents] at hev
    rcases List.mem_append.mp hev with hev | hev
    · exact ⟨h.event_attrs_le ev hev, h.event_keys_ne ev hev⟩
    · rw [List.mem_singleton.mp hev]
      exact ⟨hattrs, hkeys⟩

/-- Cells that agree on everything but the status message. -/
theorem Entry.Valid.setStatus (h : e.Valid p) {cells : List Cell} {code : StatusCode}
    (hother : ∀ {α : Type} (f : Item → Option α), (∀ x, f (.status x) = none) →
      pick f cells = pick f e.cells)
    (hstatuses : (pick Item.status? cells).length ≤ 1) :
    ({ e with cells := cells, statusCode := code } : Entry).Valid p := by
  have hcells : ({ e with cells := cells } : Entry).Valid p := by
    apply h.withCells
    · rw [hother Item.attr? fun _ => rfl]
      exact h.keys_ne
    · rw [hother Item.attr? fun _ => rfl]
      exact h.keys_nodup
    · rw [hother Item.attr? fun _ => rfl]
      exact h.attrs_le
    · exact hother Item.name? fun _ => rfl
    · exact hstatuses
    · rw [hother Item.event? fun _ => rfl]
      exact h.events_le
    · rw [hother Item.event? fun _ => rfl]
      exact fun ev hev => ⟨h.event_attrs_le ev hev, h.event_keys_ne ev hev⟩
  exact ⟨hcells.gen_ne, hcells.keys_ne, hcells.keys_nodup, hcells.names_le, hcells.statuses_le,
    hcells.attrs_le, hcells.events_le, hcells.event_attrs_le, hcells.event_keys_ne,
    hcells.traceId_ne, hcells.spanId_ne, hcells.parent_ne⟩

end EntryChanges

/-! ### Ids -/

theorem storeBe64_byte (v : UInt64) (i : Fin 8) :
    (storeBe64 v)[i.val].toNat = v.toNat / 2 ^ (8 * (7 - i.val)) % 256 := by
  have hshift : (8 * (7 - i.val)).toUInt64.toNat % 64 = 8 * (7 - i.val) := by
    have hlt := i.isLt
    rw [Nat.toUInt64, UInt64.toNat_ofNat']
    omega
  simp only [storeBe64, Vector.getElem_ofFn]
  rw [UInt64.toNat_toUInt8, UInt64.toNat_shiftRight, hshift, Nat.shiftRight_eq_div_pow]

/-- A word is its eight bytes. -/
theorem storeBe64_injective : Function.Injective storeBe64 := by
  intro a b h
  have hbyte : ∀ i : Fin 8, a.toNat / 2 ^ (8 * (7 - i.val)) % 256 =
      b.toNat / 2 ^ (8 * (7 - i.val)) % 256 := by
    intro i
    rw [← storeBe64_byte, ← storeBe64_byte, h]
  have h0 := hbyte 0
  have h1 := hbyte 1
  have h2 := hbyte 2
  have h3 := hbyte 3
  have h4 := hbyte 4
  have h5 := hbyte 5
  have h6 := hbyte 6
  have h7 := hbyte 7
  have ha := a.toNat_lt
  have hb := b.toNat_lt
  norm_num at h0 h1 h2 h3 h4 h5 h6 h7
  apply UInt64.toNat_inj.mp
  omega

theorem storeBe64_ne_zero {v : UInt64} (h : v ≠ 0) : allZero (storeBe64 v).toList = false := by
  by_contra hall
  rw [Bool.not_eq_false] at hall
  apply h
  apply storeBe64_injective
  apply Vector.ext
  intro i hi
  have hmem : (storeBe64 v)[i] ∈ (storeBe64 v).toList := by
    rw [Vector.mem_toList_iff]
    exact Vector.getElem_mem hi
  have hleft : (storeBe64 v)[i] = 0 := by simpa using List.all_eq_true.mp hall _ hmem
  have hright : (storeBe64 0)[i] = 0 := by
    apply UInt8.toNat_inj.mp
    rw [storeBe64_byte 0 ⟨i, hi⟩]
    simp
  rw [hleft, hright]

theorem newTraceId_ne_zero {v : LeafVars} {random : List UInt64}
    {r : TraceId × LeafVars × List UInt64} (h : newTraceId v random = some r) :
    allZero r.1.toList = false := by
  fun_induction newTraceId v random with
  | case1 v a b rest hi v₁ hhi lo v₂ hlo hzero ih => exact ih h
  | case2 v a b rest hi v₁ hhi lo v₂ hlo hne =>
      obtain rfl := Option.some.inj h
      change allZero (storeBe64 hi ++ storeBe64 lo).toList = false
      rw [Vector.toList_append, allZero, List.all_append, Bool.and_eq_false_iff]
      by_cases hz : hi = 0
      · exact Or.inr (storeBe64_ne_zero fun hlz => hne ⟨hz, hlz⟩)
      · exact Or.inl (storeBe64_ne_zero hz)
  | case3 v random hshort => simp at h

theorem newSpanId_ne_zero {v : LeafVars} {random : List UInt64}
    {r : SpanId × LeafVars × List UInt64} (h : newSpanId v random = some r) :
    allZero r.1.toList = false := by
  induction random generalizing v with
  | nil => simp [newSpanId] at h
  | cons a rest ih =>
      simp only [newSpanId] at h
      split at h
      · exact ih h
      · next hne =>
        obtain rfl := Option.some.inj h
        exact storeBe64_ne_zero hne

/-- Drawn and inherited ids alike are non-zero. -/
theorem drawIds_ne_zero {v : LeafVars} {ids : SpanIds} {random : List UInt64}
    {r : TraceId × SpanId × LeafVars} (h : drawIds v ids random = some r)
    (hids : ∀ id, ids.traceId = some id → allZero id.toList = false) :
    allZero r.1.toList = false ∧ allZero r.2.1.toList = false := by
  unfold drawIds at h
  cases htrace : ids.traceId with
  | some traceId =>
      simp only [htrace, Option.map_eq_some_iff] at h
      obtain ⟨q, hq, rfl⟩ := h
      exact ⟨hids traceId htrace, newSpanId_ne_zero hq⟩
  | none =>
      simp only [htrace] at h
      split at h
      · next traceId v' rest hnew =>
        rw [Option.map_eq_some_iff] at h
        obtain ⟨q, hq, rfl⟩ := h
        exact ⟨newTraceId_ne_zero hnew, newSpanId_ne_zero hq⟩
      · simp at h

theorem nextGeneration_ne_zero (gen : UInt16) : nextGeneration gen ≠ 0 := by
  unfold nextGeneration
  split
  · decide
  · next h =>
    intro hz
    apply h
    have hnat := congrArg UInt16.toNat hz
    rw [UInt16.toNat_add] at hnat
    have hlt := gen.toNat_lt
    apply UInt16.toNat_inj.mp
    change gen.toNat = 65535
    change (gen.toNat + 1) % 65536 = 0 at hnat
    omega

/-! ### The store -/

namespace Store

variable {S : Store} {s : UInt16} {e : Entry} {span : Handle}

theorem resolve_spec (h : S.resolve span = some (s, e)) :
    S.entry s = some e ∧ s < S.count ∧ s = (span &&& 0xffff).toUInt16 ∧
      e.gen = (span >>> 16).toUInt16 := by
  unfold resolve at h
  dsimp only at h
  split at h
  · simp at h
  · next hguard =>
    simp only [not_or] at hguard
    split at h
    · next e' he =>
      split at h
      · next hgen =>
        simp only [Option.some.injEq, Prod.mk.injEq] at h
        obtain ⟨rfl, rfl⟩ := h
        exact ⟨he, UInt16.not_le.mp hguard.1, rfl, hgen⟩
      · simp at h
    · simp at h

theorem openSpan_spec {argsOk : Bool} (h : S.openSpan argsOk span = .ok (s, e)) :
    argsOk = true ∧ S.resolve span = some (s, e) ∧ e.ended = false := by
  unfold openSpan at h
  cases argsOk with
  | false => simp at h
  | true =>
      simp only [Bool.not_true, Bool.false_eq_true, if_false] at h
      split at h
      · next s' e' hres =>
        split at h
        · simp at h
        · next hended =>
          simp only [Except.ok.injEq, Prod.mk.injEq] at h
          obtain ⟨rfl, rfl⟩ := h
          exact ⟨rfl, hres, by simpa using hended⟩
      · simp at h

theorem Valid.withVars (V : S.Valid) (v : LeafVars) : ({ S with toLeafVars := v } : Store).Valid :=
  ⟨V.entries, V.bound, V.last, V.ended_nodup, V.ended_iff, V.nextGen_ne, V.resource_keys⟩

theorem put_entry (S : Store) (s t : UInt16) (e : Entry) :
    (S.put s e).entry t = if t = s then some e else S.entry t := by
  simp [put, Function.update_apply]

/-- A change of one open span. -/
theorem Valid.put (V : S.Valid) {e' : Entry} (he : S.entry s = some e)
    (h' : e'.Valid S.toLeafParams) (hended : e'.ended = e.ended) : (S.put s e').Valid where
  entries t x hx := by
    rw [put_entry] at hx
    split at hx
    · obtain rfl := Option.some.inj hx
      exact h'
    · exact V.entries t x hx
  bound t x hx := by
    rw [put_entry] at hx
    split at hx
    · next h =>
      rw [h]
      exact V.bound s e he
    · exact V.bound t x hx
  last hne := by
    rw [put_entry]
    split
    · rfl
    · exact V.last hne
  ended_nodup := V.ended_nodup
  ended_iff t := by
    rw [put_entry]
    change t ∈ S.ended ↔ _
    rw [V.ended_iff]
    split
    · next h =>
      subst h
      simp [he, hended]
    · rfl
  nextGen_ne := V.nextGen_ne
  resource_keys := V.resource_keys

theorem Valid.finish (V : S.Valid) {now : UInt64} (he : S.entry s = some e)
    (hopen : e.ended = false) :
    ({ S.put s { e with ended := true, finish := now } with ended := S.ended ++ [s] } :
      Store).Valid := by
  have hv := V.entries s e he
  have hnot : s ∉ S.ended := by
    intro hmem
    obtain ⟨e', he', hended⟩ := (V.ended_iff s).mp hmem
    rw [he] at he'
    obtain rfl := Option.some.inj he'
    simp [hopen] at hended
  constructor
  · intro t x hx
    change (S.put s { e with ended := true, finish := now }).entry t = some x at hx
    rw [put_entry] at hx
    split at hx
    · obtain rfl := Option.some.inj hx
      exact ⟨hv.gen_ne, hv.keys_ne, hv.keys_nodup, hv.names_le, hv.statuses_le, hv.attrs_le,
        hv.events_le, hv.event_attrs_le, hv.event_keys_ne, hv.traceId_ne, hv.spanId_ne,
        hv.parent_ne⟩
    · exact V.entries t x hx
  · intro t x hx
    change (S.put s { e with ended := true, finish := now }).entry t = some x at hx
    rw [put_entry] at hx
    split at hx
    · next h =>
      rw [h]
      exact V.bound s e he
    · exact V.bound t x hx
  · intro hne
    change ((S.put s { e with ended := true, finish := now }).entry (S.count - 1)).isSome = true
    rw [put_entry]
    split
    · rfl
    · exact V.last hne
  · refine List.Nodup.append V.ended_nodup (by simp) ?_
    rw [List.disjoint_left]
    intro x hx hx'
    rw [List.mem_singleton.mp hx'] at hx
    exact hnot hx
  · intro t
    change t ∈ S.ended ++ [s] ↔
      ∃ x, (S.put s { e with ended := true, finish := now }).entry t = some x ∧ x.ended = true
    rw [put_entry, List.mem_append, V.ended_iff]
    split
    · next h => simp [h]
    · next h => simp [h]
  · exact V.nextGen_ne
  · exact V.resource_keys

theorem mem_slotsOf {count : UInt16} {t : UInt16} : t ∈ slotsOf count ↔ t < count := by
  unfold slotsOf
  rw [List.mem_map, UInt16.lt_iff_toNat_lt]
  constructor
  · rintro ⟨n, hn, rfl⟩
    have h1 := List.mem_range.mp hn
    have h2 := count.toNat_lt
    rw [UInt16.toNat_ofNat', Nat.mod_eq_of_lt (by omega)]
    exact h1
  · intro h
    exact ⟨t.toNat, List.mem_range.mpr h, by simp⟩

/-- The slot of a new span is free, and inside the table or right after it. -/
theorem place_spec (V : S.Valid) {len : Nat} (h : S.place len = some s) :
    S.entry s = none ∧ (s < S.count ∨ s = S.count ∧ S.count ≠ none16) := by
  unfold place at h
  split at h
  · next t ht =>
    obtain ⟨hnone, hmem⟩ := List.find?_eq_some_iff_append.mp ht
    split at h
    · obtain rfl := Option.some.inj h
      have hin : t ∈ slotsOf S.count := List.mem_of_find?_eq_some ht
      exact ⟨by simpa using hnone, Or.inl (mem_slotsOf.mp hin)⟩
    · simp at h
  · split at h
    · simp at h
    · next hcount =>
      split at h
      · obtain rfl := Option.some.inj h
        refine ⟨?_, Or.inr ⟨rfl, hcount⟩⟩
        by_contra hsome
        obtain ⟨e, he⟩ := Option.ne_none_iff_exists'.mp hsome
        exact absurd (V.bound _ e he) (UInt16.lt_irrefl _)
      · simp at h

theorem count_succ {count : UInt16} (h : count ≠ none16) : (count + 1).toNat = count.toNat + 1 := by
  have hlt := count.toNat_lt
  have hne : count.toNat ≠ 65535 := fun heq => h (UInt16.toNat_inj.mp heq)
  rw [UInt16.toNat_add]
  change (count.toNat + 1) % 65536 = _
  omega

/-- A new span in a free slot. -/
theorem Valid.start (V : S.Valid) {e' : Entry} {vars : LeafVars} (hfree : S.entry s = none)
    (hslot : s < S.count ∨ s = S.count ∧ S.count ≠ none16) (h' : e'.Valid S.toLeafParams)
    (hopen : e'.ended = false) :
    ({ S with
        toLeafVars := vars
        nextGen := nextGeneration S.nextGen
        count := if s = S.count then S.count + 1 else S.count
        entry := Function.update S.entry s (some e') } : Store).Valid := by
  have hcount : S.count.toNat ≤ (if s = S.count then S.count + 1 else S.count).toNat ∧
      s.toNat < (if s = S.count then S.count + 1 else S.count).toNat := by
    rcases hslot with hlt | ⟨rfl, hne⟩
    · have hlt' := UInt16.lt_iff_toNat_lt.mp hlt
      have hneq : s ≠ S.count := by
        rintro rfl
        omega
      rw [if_neg hneq]
      exact ⟨Nat.le_refl _, hlt'⟩
    · rw [if_pos rfl, count_succ hne]
      omega
  constructor
  · intro t x hx
    change Function.update S.entry s (some e') t = some x at hx
    rw [Function.update_apply] at hx
    split at hx
    · obtain rfl := Option.some.inj hx
      exact h'
    · exact V.entries t x hx
  · intro t x hx
    change Function.update S.entry s (some e') t = some x at hx
    rw [Function.update_apply] at hx
    rw [UInt16.lt_iff_toNat_lt]
    split at hx
    · next h =>
      rw [h]
      exact hcount.2
    · have hb := UInt16.lt_iff_toNat_lt.mp (V.bound t x hx)
      exact Nat.lt_of_lt_of_le hb hcount.1
  · intro hne
    change (Function.update S.entry s (some e')
      ((if s = S.count then S.count + 1 else S.count) - 1)).isSome = true
    by_cases hs : s = S.count
    · rw [if_pos hs, hs]
      simp
    · change (if s = S.count then S.count + 1 else S.count) ≠ 0 at hne
      rw [if_neg hs] at hne ⊢
      rw [Function.update_apply]
      split
      · rfl
      · exact V.last hne
  · exact V.ended_nodup
  · intro t
    change t ∈ S.ended ↔ ∃ x, Function.update S.entry s (some e') t = some x ∧ x.ended = true
    rw [Function.update_apply, V.ended_iff]
    split
    · next h =>
      subst h
      simp [hfree, hopen]
    · rfl
  · exact nextGeneration_ne_zero _
  · exact V.resource_keys

/-! ### Release -/

/-- `trimCount` stops right above the highest used slot. -/
theorem trimCount_spec (entry : UInt16 → Option Entry) (n : Nat) (hn : n < 65536) :
    (trimCount entry n).toNat ≤ n ∧
      (∀ k < n, (entry (UInt16.ofNat k)).isSome → k < (trimCount entry n).toNat) ∧
      (trimCount entry n ≠ 0 → (entry (trimCount entry n - 1)).isSome) := by
  induction n with
  | zero => simp [trimCount]
  | succ n ih =>
      obtain ⟨hle, hkeep, hlast⟩ := ih (by omega)
      unfold trimCount
      split
      · next hsome =>
        have hnat : (UInt16.ofNat (n + 1)).toNat = n + 1 := by
          rw [UInt16.toNat_ofNat', Nat.mod_eq_of_lt hn]
        refine ⟨by omega, fun k hk _ => by omega, fun _ => ?_⟩
        have hpred : UInt16.ofNat (n + 1) - 1 = UInt16.ofNat n := by
          rw [UInt16.ofNat_add]
          simp
        rw [hpred]
        exact hsome
      · next hnone =>
        refine ⟨by omega, ?_, hlast⟩
        intro k hk hsome
        rcases Nat.lt_succ_iff_lt_or_eq.mp hk with hlt | rfl
        · exact hkeep k hlt hsome
        · exact absurd hsome hnone

theorem Valid.releaseEnded (V : S.Valid) : S.releaseEnded.Valid := by
  have hlt := S.count.toNat_lt
  obtain ⟨hle, hkeep, hlast⟩ := trimCount_spec (fun s => if s ∈ S.ended then none else S.entry s)
    S.count.toNat hlt
  constructor
  · intro t x hx
    change (if t ∈ S.ended then none else S.entry t) = some x at hx
    split at hx
    · simp at hx
    · exact V.entries t x hx
  · intro t x hx
    have hx' : (if t ∈ S.ended then none else S.entry t) = some x := hx
    have hin : S.entry t = some x := by
      split at hx'
      · simp at hx'
      · exact hx'
    have hb := UInt16.lt_iff_toNat_lt.mp (V.bound t x hin)
    apply UInt16.lt_iff_toNat_lt.mpr
    apply hkeep t.toNat hb
    rw [UInt16.ofNat_toNat, hx']
    rfl
  · exact hlast
  · exact List.nodup_nil
  · intro t
    change t ∈ [] ↔ ∃ x, (if t ∈ S.ended then none else S.entry t) = some x ∧ x.ended = true
    simp only [List.not_mem_nil, false_iff, not_exists, not_and]
    intro x hx hended
    split at hx
    · simp at hx
    · next hnot => exact hnot ((V.ended_iff t).mpr ⟨x, hx, hended⟩)
  · exact V.nextGen_ne
  · exact V.resource_keys

/-! ### Every call keeps a valid store valid -/

variable {S' : Store} {o : Outcome} {env : Callbacks}

theorem Valid.startSpan (V : S.Valid) {name : Slice UInt8} {kind : SpanKind} {ids : SpanIds}
    (htrace : ∀ id, ids.traceId = some id → allZero id.toList = false)
    (hparent : ∀ id, ids.parentId = some id → allZero id.toList = false)
    (h : S.startSpan env name kind ids = some (S', o)) : S'.Valid := by
  unfold Store.startSpan at h
  split at h
  · obtain ⟨rfl, -⟩ := Prod.mk.inj (Option.some.inj h)
    exact V.withVars _
  · next slot hplace =>
    split at h
    · simp at h
    · next traceId spanId vars hdraw =>
      obtain ⟨rfl, -⟩ := Prod.mk.inj (Option.some.inj h)
      obtain ⟨hfree, hslot⟩ := place_spec V hplace
      obtain ⟨ht, hs⟩ := drawIds_ne_zero hdraw htrace
      refine V.start hfree hslot ?_ rfl
      have hcells : (S.newEntry env name kind traceId spanId ids.parentId).cells = [] ∨
          ∃ text cap, (S.newEntry env name kind traceId spanId ids.parentId).cells =
            [⟨.name text, cap⟩] := by
        unfold newEntry
        dsimp only
        split
        · exact Or.inl rfl
        · exact Or.inr ⟨_, _, rfl⟩
      have hattrs : (S.newEntry env name kind traceId spanId ids.parentId).attrs = [] := by
        unfold Entry.attrs
        rcases hcells with hc | ⟨text, cap, hc⟩ <;> rw [hc] <;> simp [pick_cons, Item.attr?]
      have hevents : (S.newEntry env name kind traceId spanId ids.parentId).events = [] := by
        unfold Entry.events
        rcases hcells with hc | ⟨text, cap, hc⟩ <;> rw [hc] <;> simp [pick_cons, Item.event?]
      have hstatuses : (S.newEntry env name kind traceId spanId ids.parentId).statuses = [] := by
        unfold Entry.statuses
        rcases hcells with hc | ⟨text, cap, hc⟩ <;> rw [hc] <;> simp [pick_cons, Item.status?]
      have hnames : (S.newEntry env name kind traceId spanId ids.parentId).names.length ≤ 1 := by
        unfold Entry.names
        rcases hcells with hc | ⟨text, cap, hc⟩ <;> rw [hc] <;> simp [pick_cons, Item.name?]
      exact ⟨V.nextGen_ne, by simp [hattrs], by simp [hattrs], hnames, by simp [hstatuses],
        by simp [hattrs], by simp [hevents], by simp [hevents], by simp [hevents], ht, hs, hparent⟩

theorem Valid.spanStart (V : S.Valid) {outNull : Bool} {name : Slice UInt8}
    {kind : Option SpanKind} {parent : Option Handle}
    (h : S.spanStart env outNull name kind parent = some (S', o)) : S'.Valid := by
  unfold Store.spanStart at h
  split at h
  · obtain ⟨rfl, -⟩ := Prod.mk.inj (Option.some.inj h)
    exact V
  · split at h
    · exact V.startSpan (by simp) (by simp) h
    · split at h
      · obtain ⟨rfl, -⟩ := Prod.mk.inj (Option.some.inj h)
        exact V
      · next slot e hres =>
        have hv := V.entries slot e (resolve_spec hres).1
        refine V.startSpan ?_ ?_ h
        · rintro id hid
          obtain rfl := Option.some.inj hid
          exact hv.traceId_ne
        · rintro id hid
          obtain rfl := Option.some.inj hid
          exact hv.spanId_ne

theorem Valid.spanStartRemote (V : S.Valid) {outNull : Bool} {name : Slice UInt8}
    {kind : Option SpanKind} {traceId : Option TraceId} {parentSpanId : Option SpanId}
    (h : S.spanStartRemote env outNull name kind traceId parentSpanId = some (S', o)) :
    S'.Valid := by
  unfold Store.spanStartRemote at h
  split at h
  · split at h
    · obtain ⟨rfl, -⟩ := Prod.mk.inj (Option.some.inj h)
      exact V
    · next hzero =>
      simp only [Bool.or_eq_true, not_or, Bool.not_eq_true] at hzero
      refine V.startSpan ?_ ?_ h
      · rintro id hid
        obtain rfl := Option.some.inj hid
        exact hzero.1
      · rintro id hid
        obtain rfl := Option.some.inj hid
        exact hzero.2
  · obtain ⟨rfl, -⟩ := Prod.mk.inj (Option.some.inj h)
    exact V

theorem Valid.setAttribute (V : S.Valid) (span : Handle) (attr : Option Kv) :
    (S.setAttribute span attr).1.Valid := by
  unfold Store.setAttribute
  split
  · exact V
  · next kv =>
    split
    · exact V
    · next s e hopen =>
      obtain ⟨hvalid, hres, hended⟩ := openSpan_spec hopen
      have he := (resolve_spec hres).1
      have hv := V.entries s e he
      have hkey : kv.attr.key ≠ [] := by
        obtain ⟨key, value⟩ := kv
        cases key with
        | null count => simp [kvValid, Slice.isNull] at hvalid
        | items data =>
            rintro (rfl : data = [])
            simp [kvValid, Slice.len] at hvalid
      dsimp only
      split
      · next c hfind =>
        obtain ⟨c₁, c₂, hcells, h₁, hc⟩ := exists_first hfind
        have hrepl : ∀ cap, replaceFirst (Cell.hasKey kv.attr.key) ⟨.attr kv.attr, cap⟩ e.cells =
            c₁ ++ ⟨.attr kv.attr, cap⟩ :: c₂ := by
          intro cap
          rw [hcells, replaceFirst_append h₁ hc]
        split
        · rw [hrepl]
          exact V.put he (hv.overwrite hcells hc) rfl
        · split
          · rw [hrepl]
            exact V.put he (hv.overwrite hcells hc) rfl
          · exact V.withVars _
      · next hfind =>
        split
        · exact V.withVars _
        · next hlimit =>
          split
          · exact V.put he (hv.addAttr hkey hfind (by omega)) rfl
          · exact V.withVars _

theorem kvsValid_keys {kvs : List Kv} (h : kvsValid kvs = true) :
    ∀ a ∈ kvs.map Kv.attr, a.key ≠ [] := by
  intro a ha
  obtain ⟨kv, hkv, rfl⟩ := List.mem_map.mp ha
  have hvalid := List.all_eq_true.mp h kv hkv
  obtain ⟨key, value⟩ := kv
  cases key with
  | null count => simp [kvValid, Slice.isNull] at hvalid
  | items data =>
      rintro (rfl : data = [])
      simp [kvValid, Slice.len] at hvalid

theorem Valid.addEvent (V : S.Valid) (env : Callbacks) (span : Handle) (name : Slice UInt8)
    (attrs : Slice Kv) : (S.addEvent env span name attrs).1.Valid := by
  unfold Store.addEvent
  split
  · exact V
  · next s e hopen =>
    obtain ⟨hvalid, hres, hended⟩ := openSpan_spec hopen
    have he := (resolve_spec hres).1
    have hv := V.entries s e he
    simp only [Bool.and_eq_true] at hvalid
    split
    · exact V.withVars _
    · next hlimit =>
      dsimp only
      split
      · refine Valid.withVars (S := S.put s _) ?_ _
        refine V.put he ?_ rfl
        refine hv.addEvent (by omega) ?_ ?_
        · simp
        · intro a ha
          refine kvsValid_keys hvalid.2 a ?_
          rw [List.map_take] at ha
          exact List.mem_of_mem_take ha
      · exact V.withVars _

/-- Dropping the status message leaves the other items and at most no message. -/
theorem eraseStatus_spec {cells : List Cell} (hle : (pick Item.status? cells).length ≤ 1) :
    (∀ {α : Type} (f : Item → Option α), (∀ x, f (.status x) = none) →
      pick f (cells.eraseP Cell.isStatus) = pick f cells) ∧
      pick Item.status? (cells.eraseP Cell.isStatus) = [] := by
  cases hfind : cells.find? Cell.isStatus with
  | none =>
      have hnone : ∀ c ∈ cells, c.isStatus = false := by
        intro c hc
        simpa using List.find?_eq_none.mp hfind c hc
      rw [List.eraseP_of_forall_not (by simpa using hnone)]
      exact ⟨fun _ _ => rfl, pick_status_of_not hnone⟩
  | some c =>
      obtain ⟨c₁, c₂, rfl, h₁, hc⟩ := exists_first hfind
      obtain ⟨text, htext⟩ := Cell.isStatus_iff.mp hc
      rw [eraseP_append_of_first h₁ hc]
      refine ⟨?_, ?_⟩
      · intro α f hf
        simp [pick_append, pick_cons, htext, hf]
      · rw [pick_append, pick_cons, htext] at hle
        rw [pick_append, pick_status_of_not h₁]
        rw [pick_status_of_not h₁] at hle
        have hzero : (pick Item.status? c₂).length = 0 := by
          simp only [Item.status?, Option.toList_some, List.length_append, List.length_singleton,
            List.nil_append] at hle
          omega
        simpa using hzero

theorem renewStatus_spec {cells cells' : List Cell} {message : Slice UInt8}
    (h : S.renewStatus cells message = some cells') (hle : (pick Item.status? cells).length ≤ 1) :
    (∀ {α : Type} (f : Item → Option α), (∀ x, f (.status x) = none) →
      pick f cells' = pick f cells) ∧
      pick Item.status? cells' = if message.len = 0 then [] else [message.data] := by
  obtain ⟨herase, hnone⟩ := eraseStatus_spec hle
  unfold renewStatus at h
  split at h
  · next hlen =>
    obtain rfl := Option.some.inj h
    exact ⟨herase, by rw [hnone, if_pos hlen]⟩
  · next hlen =>
    split at h
    · obtain rfl := Option.some.inj h
      refine ⟨?_, ?_⟩
      · intro α f hf
        rw [pick_append, pick_cons, hf, herase f hf]
        simp
      · rw [pick_append, hnone, pick_cons, if_neg hlen]
        simp [Item.status?]
    · simp at h

/-- Setting a status message changes nothing else, and the message is the one
given. -/
theorem statusCells_spec {cells cells' : List Cell} {message : Slice UInt8}
    (h : S.statusCells cells message = some cells') (hle : (pick Item.status? cells).length ≤ 1) :
    (∀ {α : Type} (f : Item → Option α), (∀ x, f (.status x) = none) →
      pick f cells' = pick f cells) ∧
      pick Item.status? cells' = if message.len = 0 then [] else [message.data] := by
  unfold statusCells at h
  split at h
  · next c hfind =>
    split at h
    · next hfits =>
      obtain rfl := Option.some.inj h
      obtain ⟨c₁, c₂, rfl, h₁, hc⟩ := exists_first hfind
      obtain ⟨text, htext⟩ := Cell.isStatus_iff.mp hc
      rw [replaceFirst_append h₁ hc]
      refine ⟨?_, ?_⟩
      · intro α f hf
        simp [pick_append, pick_cons, htext, hf]
      · rw [pick_append, pick_cons, htext, pick_status_of_not h₁] at hle
        have hzero : pick Item.status? c₂ = [] := by
          simp only [Item.status?, Option.toList_some, List.length_append, List.length_singleton,
            List.nil_append] at hle
          exact List.length_eq_zero_iff.mp (by omega)
        rw [pick_append, pick_cons, pick_status_of_not h₁, hzero, if_neg (by omega)]
        simp [Item.status?]
    · exact renewStatus_spec h hle
  · exact renewStatus_spec h hle

theorem Valid.setStatus (V : S.Valid) (span : Handle) (code : Option StatusCode)
    (message : Slice UInt8) : (S.setStatus span code message).1.Valid := by
  unfold Store.setStatus
  split
  · exact V
  · next s e hopen =>
    obtain ⟨-, hres, -⟩ := openSpan_spec hopen
    have he := (resolve_spec hres).1
    have hv := V.entries s e he
    split
    · next cells hcells =>
      obtain ⟨hother, hstatus⟩ := statusCells_spec hcells hv.statuses_le
      refine V.put he (hv.setStatus hother ?_) rfl
      rw [hstatus]
      split <;> simp
    · exact V

theorem Valid.spanEnd (V : S.Valid) (env : Callbacks) (span : Handle) :
    (S.spanEnd env span).1.Valid := by
  unfold Store.spanEnd
  split
  · exact V
  · next s e hopen =>
    obtain ⟨-, hres, hended⟩ := openSpan_spec hopen
    exact V.finish (resolve_spec hres).1 hended

theorem Valid.clockSync (V : S.Valid) (env : Callbacks) (unixNs leafNowNs : UInt64) :
    (S.clockSync env unixNs leafNowNs).1.Valid := by
  unfold Store.clockSync
  split
  · exact V
  · exact V.withVars _

theorem Valid.encode (V : S.Valid) (env : Callbacks) (argsOk : Bool)
    (backend : BatchView → Status) : (S.encode env argsOk backend).1.Valid := by
  unfold Store.encode
  split
  · exact V
  · split
    · exact V.releaseEnded
    · exact V

end Store

end Microtel.Leaf
