import Microtel.Leaf.Runs

/-!
What a leaf is for, with no buffer at all: a map from handles to the spans that
were started and not yet encoded, and the order in which spans ended. The
abstract leaf is told how each call ended and changes only on success, or by one
drop count; its view is what every batch of the real leaf contains.
-/

namespace Microtel.Leaf

/-! ### The abstract leaf -/

/-- A span, apart from where it is kept. -/
structure Span where
  name : Bytes
  kind : SpanKind
  traceId : TraceId
  spanId : SpanId
  parent : Option SpanId
  start : UInt64
  finish : UInt64
  ended : Bool
  attrs : List Attr
  events : List (UInt64 × Bytes × List Attr)
  code : StatusCode
  message : Bytes

def Span.view (s : Span) (offset : UInt64) : SpanView where
  traceId := s.traceId
  spanId := s.spanId
  parentSpanId := s.parent
  name := s.name
  kind := s.kind.code
  startTimeUnixNano := s.start + offset
  endTimeUnixNano := s.finish + offset
  hasStatus := s.code ≠ .unset || 0 < s.message.length
  statusCode := s.code.code
  statusMessage := s.message
  attrs := s.attrs
  events := s.events.map fun (time, name, attrs) => ⟨time + offset, name, attrs⟩

/-- Gives a key its value: in place if the key has one, else at the end. -/
def assign (a : Attr) : List Attr → List Attr
  | [] => [a]
  | b :: bs => if b.key = a.key then a :: bs else b :: assign a bs

structure AbstractLeaf extends LeafParams, LeafVars where
  resource : List Attr
  scopeName : Bytes
  scopeVersion : Bytes
  span : Handle → Option Span
  ended : List Handle

namespace AbstractLeaf

def init (c : Config) : AbstractLeaf where
  timeMode := c.timeMode.getD .concentratorStamped
  hasClock := c.hasClock
  bootId := c.bootId
  maxAttrs := capOr c.maxAttributesPerSpan 16
  maxEvents := capOr c.maxEventsPerSpan 4
  maxEventAttrs := capOr c.maxAttributesPerEvent 4
  deviceKey := deviceKey c.resource.data c.bootId
  idCounter := 0
  synced := false
  syncUnix := 0
  syncLeaf := 0
  counters := .zero
  resource := c.resource.data.map Kv.attr
  scopeName := c.scopeName.data
  scopeVersion := c.scopeVersion.data
  span := fun _ => none
  ended := []

/-- The Resource and the reserved attributes, and the ended spans in the order
they were ended. -/
def view (A : AbstractLeaf) (env : Callbacks) : BatchView where
  resource := A.resource ++ reservedAttrs A.toLeafParams A.toLeafVars env
  scopeName := A.scopeName
  scopeVersion := A.scopeVersion
  spans := (A.ended.filterMap A.span).map fun s =>
    s.view (timeOffset A.toLeafParams A.toLeafVars)

def count (A : AbstractLeaf) (f : Counters → Counters) : AbstractLeaf :=
  { A with counters := f A.counters }

def update (A : AbstractLeaf) (h : Handle) (f : Span → Span) : AbstractLeaf :=
  { A with span := Function.update A.span h ((A.span h).map f) }

/-- The ids a new span takes from its parent. -/
def idsOf (A : AbstractLeaf) : Option Handle → SpanIds
  | none => ⟨none, none⟩
  | some p => ⟨(A.span p).map Span.traceId, (A.span p).map Span.spanId⟩

def newSpan (A : AbstractLeaf) (env : Callbacks) (name : Slice UInt8) (kind : SpanKind)
    (traceId : TraceId) (spanId : SpanId) (parent : Option SpanId) : Span where
  name := name.data
  kind := kind
  traceId := traceId
  spanId := spanId
  parent := parent
  start := readClock A.toLeafParams env
  finish := 0
  ended := false
  attrs := []
  events := []
  code := .unset
  message := []

/-- A call that starts a span, given how it ended. -/
def started (A : AbstractLeaf) (env : Callbacks) (name : Slice UInt8) (kind : Option SpanKind)
    (ids : SpanIds) (o : Outcome) : AbstractLeaf :=
  match o.status, o.span, kind, drawIds A.toLeafVars ids env.random with
  | .ok, some h, some kind, some (traceId, spanId, vars) =>
      { A with
        toLeafVars := vars
        span := Function.update A.span h
          (some (A.newSpan env name kind traceId spanId ids.parentId)) }
  | .errNoSpace, _, _, _ => A.count fun c => { c with droppedSpans := c.droppedSpans + 1 }
  | _, _, _, _ => A

/-- The span after `set_attribute`, `add_event`, `set_status` or `span_end`
succeeded on it. -/
def edit (p : LeafParams) (env : Callbacks) : Call → Span → Span
  | .setAttribute _ (some kv), s => { s with attrs := assign kv.attr s.attrs }
  | .addEvent _ name attrs, s =>
      { s with
        events := s.events ++ [(readClock p env, name.data,
          (attrs.data.take p.maxEventAttrs.toNat).map Kv.attr)] }
  | .setStatus _ code message, s => { s with code := code.getD .unset, message := message.data }
  | .spanEnd _, s => { s with ended := true, finish := readClock p env }
  | _, s => s

/-- The batch has been encoded: the ended spans are gone. -/
def encoded (A : AbstractLeaf) : AbstractLeaf :=
  { A with
    span := fun h => (A.span h).filter fun s => !s.ended
    ended := []
    counters := .zero }

/-- One public call, given how it ended; `none` is a leaf that was freed. -/
def step (A : AbstractLeaf) (env : Callbacks) (call : Call) (o : Outcome) : Option AbstractLeaf :=
  match call with
  | .spanStart _ name kind parent => some (A.started env name kind (A.idsOf parent) o)
  | .spanStartRemote _ name kind traceId parentSpanId =>
      some (A.started env name kind ⟨traceId, parentSpanId⟩ o)
  | .setAttribute span _ =>
      match o.status with
      | .ok => some (A.update span (edit A.toLeafParams env call))
      | .errNoSpace | .errLimit =>
          some (A.count fun c => { c with droppedAttributes := c.droppedAttributes + 1 })
      | _ => some A
  | .addEvent span _ attrs =>
      match o.status with
      | .ok => some ((A.update span (edit A.toLeafParams env call)).count fun c =>
          { c with droppedAttributes := c.droppedAttributes +
              UInt32.ofNat (attrs.len - min attrs.len A.maxEventAttrs.toNat) })
      | .errNoSpace | .errLimit =>
          some (A.count fun c => { c with droppedEvents := c.droppedEvents + 1 })
      | _ => some A
  | .setStatus span _ _ =>
      if o.status = .ok then some (A.update span (edit A.toLeafParams env call)) else some A
  | .spanEnd span =>
      if o.status = .ok then
        some { A.update span (edit A.toLeafParams env call) with ended := A.ended ++ [span] }
      else some A
  | .clockSync unixNs leafNowNs =>
      if o.status = .ok then
        some { A with syncUnix := unixNs, syncLeaf := leafNowNs, synced := true }
      else some A
  | .encode _ _ _ _ => if o.status = .ok then some A.encoded else some A
  | .encodeTo _ _ _ => if o.status = .ok then some A.encoded else some A
  | .free => none

/-- The abstract leaf after a run, from the calls and their outcomes. -/
def run : Option AbstractLeaf → List (Callbacks × Call) → List Outcome → Option AbstractLeaf
  | some A, (env, call) :: calls, o :: os => run (A.step env call o) calls os
  | A, _, _ => A

end AbstractLeaf

/-! ### Handles -/

theorem mkHandle_toNat (gen slot : UInt16) :
    (mkHandle gen slot).toNat = gen.toNat * 65536 + slot.toNat := by
  have hgen := gen.toNat_lt
  have hslot := slot.toNat_lt
  have h16 : (16 : UInt32).toNat % 32 = 16 := rfl
  unfold mkHandle
  rw [UInt32.toNat_or, UInt32.toNat_shiftLeft, UInt16.toNat_toUInt32, UInt16.toNat_toUInt32, h16,
    Nat.mod_eq_of_lt (by rw [Nat.shiftLeft_eq]; omega),
    ← Nat.shiftLeft_add_eq_or_of_lt (by omega), Nat.shiftLeft_eq]

theorem handle_index_toNat (h : Handle) : (h &&& 0xffff).toUInt16.toNat = h.toNat % 65536 := by
  have hmask : (0xffff : UInt32).toNat = 2 ^ 16 - 1 := rfl
  rw [UInt32.toNat_toUInt16, UInt32.toNat_and, hmask, Nat.and_two_pow_sub_one_eq_mod]
  omega

theorem handle_gen_toNat (h : Handle) : (h >>> 16).toUInt16.toNat = h.toNat / 65536 := by
  have hlt := h.toNat_lt
  have h16 : (16 : UInt32).toNat % 32 = 16 := rfl
  rw [UInt32.toNat_toUInt16, UInt32.toNat_shiftRight, h16, Nat.shiftRight_eq_div_pow]
  omega

theorem mkHandle_index (gen slot : UInt16) : (mkHandle gen slot &&& 0xffff).toUInt16 = slot := by
  have hslot := slot.toNat_lt
  apply UInt16.toNat_inj.mp
  rw [handle_index_toNat, mkHandle_toNat]
  omega

theorem mkHandle_gen (gen slot : UInt16) : (mkHandle gen slot >>> 16).toUInt16 = gen := by
  have hslot := slot.toNat_lt
  apply UInt16.toNat_inj.mp
  rw [handle_gen_toNat, mkHandle_toNat]
  omega

theorem mkHandle_eta (h : Handle) :
    mkHandle (h >>> 16).toUInt16 (h &&& 0xffff).toUInt16 = h := by
  apply UInt32.toNat_inj.mp
  rw [mkHandle_toNat, handle_gen_toNat, handle_index_toNat]
  omega

theorem mkHandle_inj {gen gen' slot slot' : UInt16} :
    mkHandle gen slot = mkHandle gen' slot' ↔ gen = gen' ∧ slot = slot' := by
  constructor
  · intro h
    have hgen := congrArg (fun h : Handle => (h >>> 16).toUInt16) h
    have hslot := congrArg (fun h : Handle => (h &&& 0xffff).toUInt16) h
    simp only [mkHandle_gen, mkHandle_index] at hgen hslot
    exact ⟨hgen, hslot⟩
  · rintro ⟨rfl, rfl⟩
    rfl

theorem mkHandle_ne_zero {gen slot : UInt16} (h : gen ≠ 0) : mkHandle gen slot ≠ 0 := by
  intro hzero
  have hnat := congrArg UInt32.toNat hzero
  rw [mkHandle_toNat] at hnat
  have hpos : gen.toNat ≠ 0 := fun h0 => h (UInt16.toNat_inj.mp h0)
  have : (0 : UInt32).toNat = 0 := rfl
  omega

namespace Store

variable {S : Store} {s : UInt16} {e e' : Entry} {h : Handle}

/-- In a valid store a handle resolves to the span it was made for. -/
theorem resolve_eq_some (V : S.Valid) :
    S.resolve h = some (s, e) ↔ S.entry s = some e ∧ h = mkHandle e.gen s := by
  constructor
  · intro hres
    obtain ⟨he, -, hslot, hgen⟩ := resolve_spec hres
    exact ⟨he, by rw [hgen, hslot, mkHandle_eta]⟩
  · rintro ⟨he, rfl⟩
    have hlt := V.bound s e he
    have hgen := (V.entries s e he).gen_ne
    unfold resolve
    dsimp only
    rw [mkHandle_index, mkHandle_gen, if_neg]
    · simp [he]
    · rintro (hle | hzero)
      · exact UInt16.not_le.mpr hlt hle
      · exact hgen hzero

/-- Resolving after the span of one slot changed. -/
theorem resolve_put (V : S.Valid) (hres : S.resolve h = some (s, e)) (hgen : e'.gen = e.gen)
    (h' : Handle) :
    (S.put s e').resolve h' = if h' = h then some (s, e') else S.resolve h' := by
  obtain ⟨he, hmk⟩ := (resolve_eq_some V).mp hres
  unfold resolve
  dsimp only
  have hcount : (S.put s e').count = S.count := rfl
  rw [hcount, put_entry]
  by_cases hguard : S.count ≤ (h' &&& 0xffff).toUInt16 ∨ (h' >>> 16).toUInt16 = 0
  · rw [if_pos hguard, if_pos hguard, if_neg]
    rintro rfl
    unfold resolve at hres
    simp only [if_pos hguard] at hres
    simp at hres
  · rw [if_neg hguard, if_neg hguard]
    by_cases hslot : (h' &&& 0xffff).toUInt16 = s
    · rw [if_pos hslot, hslot, he]
      dsimp only
      rw [hgen]
      by_cases hg : e.gen = (h' >>> 16).toUInt16
      · have heq : h' = h := by rw [hmk, hg, ← hslot, mkHandle_eta]
        rw [if_pos hg, if_pos heq]
      · have hne : h' ≠ h := by
          rintro rfl
          rw [hmk, mkHandle_gen] at hg
          exact hg rfl
        rw [if_neg hg, if_neg hne, if_neg hg]
    · have hne : h' ≠ h := by
        rintro rfl
        rw [hmk, mkHandle_index] at hslot
        exact hslot rfl
      rw [if_neg hslot, if_neg hne]

/-- Resolving after a span took a free slot. -/
theorem resolve_start {S' : Store} (V : S.Valid) (V' : S'.Valid) (hfree : S.entry s = none)
    (hentry : S'.entry = Function.update S.entry s (some e)) (h : Handle) :
    S'.resolve h = if h = mkHandle e.gen s then some (s, e) else S.resolve h := by
  apply Option.ext
  rintro ⟨t, x⟩
  rw [resolve_eq_some V', hentry]
  by_cases hts : t = s
  · subst hts
    rw [Function.update_self]
    constructor
    · rintro ⟨hx, rfl⟩
      obtain rfl := Option.some.inj hx
      rw [if_pos rfl]
    · intro hx
      split at hx
      · next heq =>
        obtain ⟨-, rfl⟩ := Prod.mk.inj (Option.some.inj hx)
        exact ⟨rfl, heq⟩
      · obtain ⟨he, -⟩ := (resolve_eq_some V).mp hx
        rw [hfree] at he
        simp at he
  · rw [Function.update_of_ne hts]
    constructor
    · rintro ⟨hx, rfl⟩
      rw [if_neg fun heq => hts (mkHandle_inj.mp heq).2]
      exact (resolve_eq_some V).mpr ⟨hx, rfl⟩
    · intro hx
      split at hx
      · obtain ⟨rfl, -⟩ := Prod.mk.inj (Option.some.inj hx)
        exact absurd rfl hts
      · exact (resolve_eq_some V).mp hx

/-- Resolving after the ended spans were released. -/
theorem resolve_releaseEnded (V : S.Valid) (h : Handle) :
    S.releaseEnded.resolve h = (S.resolve h).filter fun p => !p.2.ended := by
  apply Option.ext
  rintro ⟨t, x⟩
  rw [resolve_eq_some V.releaseEnded, Option.filter_eq_some_iff, resolve_eq_some V]
  have hentry : S.releaseEnded.entry t = if t ∈ S.ended then none else S.entry t := rfl
  rw [hentry]
  constructor
  · rintro ⟨hx, hh⟩
    split at hx
    · simp at hx
    · next hnot =>
      refine ⟨⟨hx, hh⟩, ?_⟩
      by_contra hended
      exact hnot ((V.ended_iff t).mpr ⟨x, hx, by simpa using hended⟩)
  · rintro ⟨⟨hx, hh⟩, hopen⟩
    refine ⟨?_, hh⟩
    rw [if_neg]
    · exact hx
    · intro hmem
      obtain ⟨y, hy, hended⟩ := (V.ended_iff t).mp hmem
      rw [hx] at hy
      obtain rfl := Option.some.inj hy
      simp [hended] at hopen

/-- The handle of the span in a slot. -/
def handleOf (S : Store) (s : UInt16) : Option Handle := (S.entry s).map fun e => mkHandle e.gen s

end Store

/-! ### The store is an abstract leaf -/

/-- The span of an entry. -/
def Entry.toSpan (e : Entry) : Span where
  name := e.names.getLast?.getD []
  kind := e.kind
  traceId := e.traceId
  spanId := e.spanId
  parent := e.parent
  start := e.start
  finish := e.finish
  ended := e.ended
  attrs := e.attrs
  events := e.events
  code := e.statusCode
  message := e.statuses.getLast?.getD []

structure Models (S : Store) (A : AbstractLeaf) : Prop where
  params : S.toLeafParams = A.toLeafParams
  vars : S.toLeafVars = A.toLeafVars
  resource : S.resource = A.resource
  scopeName : S.scopeName = A.scopeName
  scopeVersion : S.scopeVersion = A.scopeVersion
  span : ∀ h, A.span h = (S.resolve h).map fun p => p.2.toSpan
  ended : A.ended = S.ended.filterMap S.handleOf

section

variable {S S' : Store} {A : AbstractLeaf} {s : UInt16} {e e' : Entry} {h : Handle}

theorem Models.init (c : Config) (usable : Nat) :
    Models (Store.init c usable) (AbstractLeaf.init c) where
  params := rfl
  vars := rfl
  resource := rfl
  scopeName := rfl
  scopeVersion := rfl
  span h := by
    unfold Store.resolve Store.init
    dsimp only
    split <;> rfl
  ended := rfl

/-- The ended spans of the store are those of the abstract leaf, in the same order. -/
theorem Models.spanViews (M : Models S A) (V : S.Valid) (offset : UInt64) :
    (S.endedEntries.map fun e => e.view offset) =
      (A.ended.filterMap A.span).map fun s => s.view offset := by
  have hspans : S.ended.filterMap S.entry =
      (A.ended.filterMap fun h => (S.resolve h).map Prod.snd) := by
    rw [M.ended, List.filterMap_filterMap]
    apply List.filterMap_congr
    intro s hs
    obtain ⟨e, he, -⟩ := (V.ended_iff s).mp hs
    have hres := (Store.resolve_eq_some V).mpr ⟨he, rfl⟩
    simp [Store.handleOf, he, hres]
  have hlookup : A.ended.filterMap A.span =
      (A.ended.filterMap fun h => (S.resolve h).map Prod.snd).map Entry.toSpan := by
    rw [List.map_filterMap]
    apply List.filterMap_congr
    intro h _
    rw [M.span]
    cases S.resolve h <;> rfl
  unfold Store.endedEntries
  rw [hlookup, hspans, List.map_map]
  rfl

/-- The view of the store is the view of the abstract leaf. -/
theorem Models.view (M : Models S A) (V : S.Valid) (env : Callbacks) : S.view env = A.view env := by
  unfold Store.view AbstractLeaf.view
  rw [M.spanViews V, M.resource, M.params, M.vars, M.scopeName, M.scopeVersion]

theorem Models.count (M : Models S A) (f : Counters → Counters) :
    Models { S with counters := f S.counters } (A.count f) where
  params := M.params
  vars := by
    have hvars := M.vars
    unfold AbstractLeaf.count
    dsimp only
    rw [← hvars]
  resource := M.resource
  scopeName := M.scopeName
  scopeVersion := M.scopeVersion
  span := M.span
  ended := M.ended

/-- The span of one handle has changed, in the store and in the abstract leaf. -/
theorem Models.put {f : Span → Span} (M : Models S A) (V : S.Valid)
    (hres : S.resolve h = some (s, e)) (hgen : e'.gen = e.gen) (hspan : e'.toSpan = f e.toSpan) :
    Models (S.put s e') (A.update h f) where
  params := M.params
  vars := M.vars
  resource := M.resource
  scopeName := M.scopeName
  scopeVersion := M.scopeVersion
  span h' := by
    rw [Store.resolve_put V hres hgen]
    unfold AbstractLeaf.update
    dsimp only
    by_cases heq : h' = h
    · rw [heq, Function.update_self, if_pos rfl, M.span, hres]
      simp [hspan]
    · rw [Function.update_of_ne heq, if_neg heq, M.span]
  ended := by
    have hhandle : (S.put s e').handleOf = S.handleOf := by
      funext t
      unfold Store.handleOf
      rw [Store.put_entry]
      split
      · next hts =>
        rw [hts, ((Store.resolve_eq_some V).mp hres).1]
        simp [hgen]
      · rfl
    rw [hhandle]
    exact M.ended

end

end Microtel.Leaf
