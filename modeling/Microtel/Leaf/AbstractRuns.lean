import Microtel.Leaf.AbstractLeaf

/-!
Every run of a leaf is a run of the abstract leaf: what each call of the store
can do, one call of both side by side, and the induction over a run.
-/

namespace Microtel.Leaf

section

variable {S S' : Store} {A : AbstractLeaf} {s : UInt16} {e e' : Entry} {h : Handle}

/-! ### Starting a span -/

/-- What `start_span` can do. -/
theorem Store.startSpan_cases (V : S.Valid) {env : Callbacks} {name : Slice UInt8} {kind : SpanKind}
    {ids : SpanIds} {o : Outcome} (hstart : S.startSpan env name kind ids = some (S', o)) :
    (S' = S.dropSpan ∧ o = .of .errNoSpace) ∨
      ∃ slot traceId spanId vars, S.entry slot = none ∧
        drawIds S.toLeafVars ids env.random = some (traceId, spanId, vars) ∧
        S' = { S with
          toLeafVars := vars
          nextGen := nextGeneration S.nextGen
          count := if slot = S.count then S.count + 1 else S.count
          entry := Function.update S.entry slot
            (some (S.newEntry env name kind traceId spanId ids.parentId)) } ∧
        o = ⟨.ok, some (mkHandle S.nextGen slot)⟩ := by
  unfold Store.startSpan at hstart
  split at hstart
  · obtain ⟨rfl, rfl⟩ := Prod.mk.inj (Option.some.inj hstart)
    exact Or.inl ⟨rfl, rfl⟩
  · next slot hplace =>
    split at hstart
    · simp at hstart
    · next traceId spanId vars hdraw =>
      obtain ⟨rfl, rfl⟩ := Prod.mk.inj (Option.some.inj hstart)
      exact Or.inr ⟨slot, traceId, spanId, vars, (Store.place_spec V hplace).1, hdraw, rfl, rfl⟩

theorem Store.newEntry_toSpan (M : Models S A) (env : Callbacks) (name : Slice UInt8)
    (kind : SpanKind) (traceId : TraceId) (spanId : SpanId) (parent : Option SpanId) :
    (S.newEntry env name kind traceId spanId parent).toSpan =
      A.newSpan env name kind traceId spanId parent := by
  unfold Store.newEntry Entry.toSpan AbstractLeaf.newSpan Entry.names Entry.attrs Entry.events
    Entry.statuses
  by_cases hlen : name.len = 0
  · simp [hlen, pick, M.params, Slice.data_length_of_len_zero hlen]
  · simp [hlen, pick, M.params, Item.name?, Item.attr?, Item.event?, Item.status?]

theorem AbstractLeaf.started_of_error (A : AbstractLeaf) (env : Callbacks) (name : Slice UInt8)
    (kind : Option SpanKind) (ids : SpanIds) {o : Outcome} (hok : o.status ≠ .ok)
    (hspace : o.status ≠ .errNoSpace) : A.started env name kind ids o = A := by
  obtain ⟨status, span⟩ := o
  cases status with
  | ok => exact absurd rfl hok
  | errNoSpace => exact absurd rfl hspace
  | _ => rfl

theorem Models.startSpan (M : Models S A) (V : S.Valid) (V' : S'.Valid) {env : Callbacks}
    {name : Slice UInt8} {kind : SpanKind} {ids : SpanIds} {o : Outcome}
    (hstart : S.startSpan env name kind ids = some (S', o)) :
    Models S' (A.started env name (some kind) ids o) := by
  rcases Store.startSpan_cases V hstart with
    ⟨rfl, rfl⟩ | ⟨slot, traceId, spanId, vars, hfree, hdraw, rfl, rfl⟩
  · exact M.count fun c => { c with droppedSpans := c.droppedSpans + 1 }
  · have hdraw' := hdraw
    rw [M.vars] at hdraw'
    unfold AbstractLeaf.started
    rw [hdraw']
    dsimp only
    refine ⟨M.params, rfl, M.resource, M.scopeName, M.scopeVersion, ?_, ?_⟩
    · intro h
      rw [Store.resolve_start V V' hfree rfl h]
      have hgen : (S.newEntry env name kind traceId spanId ids.parentId).gen = S.nextGen := rfl
      rw [hgen]
      dsimp only
      by_cases heq : h = mkHandle S.nextGen slot
      · rw [heq, Function.update_self, if_pos rfl]
        exact congrArg some (Store.newEntry_toSpan M env name kind traceId spanId ids.parentId).symm
      · rw [Function.update_of_ne heq, if_neg heq, M.span]
    · refine M.ended.trans (List.filterMap_congr fun t ht => ?_)
      have hne : t ≠ slot := by
        rintro rfl
        obtain ⟨e, he, -⟩ := (V.ended_iff t).mp ht
        rw [hfree] at he
        simp at he
      unfold Store.handleOf
      dsimp only
      rw [Function.update_of_ne hne]

theorem startArgsValid_kind {outNull : Bool} {name : Slice UInt8} {kind : Option SpanKind}
    {k : SpanKind} (h : startArgsValid outNull name kind = some k) : kind = some k := by
  unfold startArgsValid at h
  split at h
  · simp at h
  · exact h

/-- What `span_start` can do: refuse its arguments, or start a span under the parent. -/
theorem Store.spanStart_cases (M : Models S A) {env : Callbacks} {outNull : Bool}
    {name : Slice UInt8} {kind : Option SpanKind} {parent : Option Handle} {o : Outcome}
    (hstart : S.spanStart env outNull name kind parent = some (S', o)) :
    (S' = S ∧ (o = .of .errArg ∨ o = .of .errState)) ∨
      ∃ k, kind = some k ∧ S.startSpan env name k (A.idsOf parent) = some (S', o) := by
  unfold Store.spanStart at hstart
  split at hstart
  · obtain ⟨rfl, rfl⟩ := Prod.mk.inj (Option.some.inj hstart)
    exact Or.inl ⟨rfl, Or.inl rfl⟩
  · next k hargs =>
    cases parent with
    | none => exact Or.inr ⟨k, startArgsValid_kind hargs, hstart⟩
    | some p =>
        dsimp only at hstart
        cases hres : S.resolve p with
        | none =>
            rw [hres] at hstart
            obtain ⟨rfl, rfl⟩ := Prod.mk.inj (Option.some.inj hstart)
            exact Or.inl ⟨rfl, Or.inr rfl⟩
        | some q =>
            rw [hres] at hstart
            have hspan := M.span p
            rw [hres] at hspan
            have hids : A.idsOf (some p) = ⟨some q.2.traceId, some q.2.spanId⟩ := by
              simp only [AbstractLeaf.idsOf, hspan]
              rfl
            rw [hids]
            exact Or.inr ⟨k, startArgsValid_kind hargs, hstart⟩

theorem Store.spanStartRemote_cases {env : Callbacks} {outNull : Bool} {name : Slice UInt8}
    {kind : Option SpanKind} {traceId : Option TraceId} {parentSpanId : Option SpanId}
    {o : Outcome}
    (hstart : S.spanStartRemote env outNull name kind traceId parentSpanId = some (S', o)) :
    (S' = S ∧ o = .of .errArg) ∨
      ∃ k, kind = some k ∧ S.startSpan env name k ⟨traceId, parentSpanId⟩ = some (S', o) := by
  unfold Store.spanStartRemote at hstart
  split at hstart
  · next k id parentId hargs =>
    split at hstart
    · obtain ⟨rfl, rfl⟩ := Prod.mk.inj (Option.some.inj hstart)
      exact Or.inl ⟨rfl, rfl⟩
    · exact Or.inr ⟨k, startArgsValid_kind hargs, hstart⟩
  · obtain ⟨rfl, rfl⟩ := Prod.mk.inj (Option.some.inj hstart)
    exact Or.inl ⟨rfl, rfl⟩

theorem Models.spanStart (M : Models S A) (V : S.Valid) {env : Callbacks} {outNull : Bool}
    {name : Slice UInt8} {kind : Option SpanKind} {parent : Option Handle} {o : Outcome}
    (hstart : S.spanStart env outNull name kind parent = some (S', o)) :
    Models S' (A.started env name kind (A.idsOf parent) o) := by
  have V' := V.spanStart hstart
  rcases Store.spanStart_cases M hstart with ⟨rfl, rfl | rfl⟩ | ⟨k, rfl, hstarted⟩
  · rw [AbstractLeaf.started_of_error A env name kind _ (by simp [Outcome.of])
      (by simp [Outcome.of])]
    exact M
  · rw [AbstractLeaf.started_of_error A env name kind _ (by simp [Outcome.of])
      (by simp [Outcome.of])]
    exact M
  · exact M.startSpan V V' hstarted

theorem Models.spanStartRemote (M : Models S A) (V : S.Valid) {env : Callbacks} {outNull : Bool}
    {name : Slice UInt8} {kind : Option SpanKind} {traceId : Option TraceId}
    {parentSpanId : Option SpanId} {o : Outcome}
    (hstart : S.spanStartRemote env outNull name kind traceId parentSpanId = some (S', o)) :
    Models S' (A.started env name kind ⟨traceId, parentSpanId⟩ o) := by
  have V' := V.spanStartRemote hstart
  rcases Store.spanStartRemote_cases hstart with ⟨rfl, rfl⟩ | ⟨k, rfl, hstarted⟩
  · rw [AbstractLeaf.started_of_error A env name kind _ (by simp [Outcome.of])
      (by simp [Outcome.of])]
    exact M
  · exact M.startSpan V V' hstarted

/-! ### Changing a span -/

/-- Replacing the cell of a key assigns the key its value. -/
theorem pick_replaceFirst {a : Attr} {cells : List Cell} {c : Cell} (cap : Nat)
    (hfind : cells.find? (Cell.hasKey a.key) = some c) :
    pick Item.attr? (Store.replaceFirst (Cell.hasKey a.key) ⟨.attr a, cap⟩ cells) =
        assign a (pick Item.attr? cells) ∧
      ∀ {α : Type} (f : Item → Option α), (∀ x, f (.attr x) = none) →
        pick f (Store.replaceFirst (Cell.hasKey a.key) ⟨.attr a, cap⟩ cells) = pick f cells := by
  induction cells with
  | nil => simp at hfind
  | cons x cells ih =>
      obtain ⟨item, xcap⟩ := x
      by_cases hx : (⟨item, xcap⟩ : Cell).hasKey a.key = true
      · obtain ⟨b, hb, hkey⟩ := Cell.hasKey_iff.mp hx
        have hitem : item = .attr b := hb
        subst hitem
        simp only [Store.replaceFirst, if_pos hx]
        refine ⟨?_, ?_⟩
        · simp [pick_cons, Item.attr?, assign, hkey]
        · intro α f hf
          simp [pick_cons, hf]
      · rw [List.find?_cons_of_neg hx] at hfind
        obtain ⟨hattrs, hother⟩ := ih hfind
        simp only [Store.replaceFirst, if_neg hx]
        refine ⟨?_, ?_⟩
        · cases item with
          | attr b =>
              have hkey : b.key ≠ a.key := by
                intro hk
                exact hx (Cell.hasKey_iff.mpr ⟨b, rfl, hk⟩)
              simp [pick_cons, Item.attr?, assign, hkey, hattrs]
          | name text => simp [pick_cons, Item.attr?, hattrs]
          | event time title attrs => simp [pick_cons, Item.attr?, hattrs]
          | status text => simp [pick_cons, Item.attr?, hattrs]
        · intro α f hf
          simp [pick_cons, hother f hf]

/-- A key without a cell is assigned at the end. -/
theorem assign_of_fresh {a : Attr} {attrs : List Attr} (h : ∀ b ∈ attrs, b.key ≠ a.key) :
    assign a attrs = attrs ++ [a] := by
  induction attrs with
  | nil => rfl
  | cons b attrs ih =>
      have hb := h b (by simp)
      have hrest := ih fun x hx => h x (by simp [hx])
      simp [assign, hb, hrest]

theorem Entry.overwrite_toSpan {a : Attr} {c : Cell} {cap : Nat}
    (hfind : e.cells.find? (Cell.hasKey a.key) = some c) :
    ({ e with cells := Store.replaceFirst (Cell.hasKey a.key) ⟨.attr a, cap⟩ e.cells } :
      Entry).toSpan =
      { e.toSpan with attrs := assign a e.toSpan.attrs } := by
  obtain ⟨hattrs, hother⟩ := pick_replaceFirst cap hfind
  unfold Entry.toSpan Entry.names Entry.events Entry.statuses Entry.attrs
  simp only [hattrs, hother Item.name? (fun _ => rfl), hother Item.event? (fun _ => rfl),
    hother Item.status? (fun _ => rfl)]

theorem Entry.append_toSpan (item : Item) (cap : Nat) :
    ({ e with cells := e.cells ++ [⟨item, cap⟩] } : Entry).toSpan =
      match item with
      | .name text => { e.toSpan with name := text }
      | .attr a => { e.toSpan with attrs := e.toSpan.attrs ++ [a] }
      | .event time title attrs =>
          { e.toSpan with events := e.toSpan.events ++ [(time, title, attrs)] }
      | .status text => { e.toSpan with message := text } := by
  unfold Entry.toSpan Entry.names Entry.events Entry.statuses Entry.attrs
  cases item <;> simp [pick, Item.name?, Item.attr?, Item.event?, Item.status?]

/-- The store after one of its open spans was changed by `f`. -/
def Store.Edits (S : Store) (span : Handle) (f : Span → Span) (S' : Store) : Prop :=
  ∃ s e e', S.resolve span = some (s, e) ∧ e.ended = false ∧ e'.gen = e.gen ∧
    e'.toSpan = f e.toSpan ∧ S' = S.put s e'

theorem Store.Edits.of_put {f : Span → Span} (hres : S.resolve h = some (s, e))
    (hended : e.ended = false) (hgen : e'.gen = e.gen) (hspan : e'.toSpan = f e.toSpan) :
    S.Edits h f (S.put s e') :=
  ⟨s, e, e', hres, hended, hgen, hspan, rfl⟩

theorem Models.edits {f : Span → Span} (M : Models S A) (V : S.Valid) (E : S.Edits h f S') :
    Models S' (A.update h f) := by
  obtain ⟨s, e, e', hres, -, hgen, hspan, rfl⟩ := E
  exact M.put V hres hgen hspan

theorem Store.openSpan_status {argsOk : Bool} {status : Status}
    (hopen : S.openSpan argsOk h = .error status) : status = .errArg ∨ status = .errState := by
  unfold Store.openSpan at hopen
  cases argsOk with
  | false => exact Or.inl (Except.error.inj hopen).symm
  | true =>
      simp only [Bool.not_true, Bool.false_eq_true, if_false] at hopen
      split at hopen
      · split at hopen
        · exact Or.inr (Except.error.inj hopen).symm
        · simp at hopen
      · exact Or.inr (Except.error.inj hopen).symm

/-- What `set_attribute` can do. -/
theorem Store.setAttribute_cases (S : Store) (env : Callbacks) (span : Handle) (attr : Option Kv) :
    ((S.setAttribute span attr).2 = .ok ∧
        S.Edits span (AbstractLeaf.edit S.toLeafParams env (.setAttribute span attr))
          (S.setAttribute span attr).1) ∨
      (((S.setAttribute span attr).2 = .errNoSpace ∨ (S.setAttribute span attr).2 = .errLimit) ∧
        (S.setAttribute span attr).1 = S.dropAttributes 1) ∨
      (((S.setAttribute span attr).2 = .errArg ∨ (S.setAttribute span attr).2 = .errState) ∧
        (S.setAttribute span attr).1 = S) := by
  unfold Store.setAttribute
  cases attr with
  | none => exact Or.inr (Or.inr ⟨Or.inl rfl, rfl⟩)
  | some kv =>
      dsimp only
      cases hopen : S.openSpan (kvValid kv) span with
      | error status => exact Or.inr (Or.inr ⟨Store.openSpan_status hopen, rfl⟩)
      | ok p =>
          obtain ⟨s, e⟩ := p
          obtain ⟨-, hres, hended⟩ := Store.openSpan_spec hopen
          dsimp only
          split
          · next c hfind =>
            split
            · refine Or.inl ⟨rfl, Store.Edits.of_put hres hended rfl ?_⟩
              exact Entry.overwrite_toSpan hfind
            · split
              · refine Or.inl ⟨rfl, Store.Edits.of_put hres hended rfl ?_⟩
                exact Entry.overwrite_toSpan hfind
              · exact Or.inr (Or.inl ⟨Or.inl rfl, rfl⟩)
          · next hfind =>
            split
            · exact Or.inr (Or.inl ⟨Or.inr rfl, rfl⟩)
            · split
              · refine Or.inl ⟨rfl, Store.Edits.of_put hres hended rfl ?_⟩
                have hfresh : assign kv.attr e.toSpan.attrs = e.toSpan.attrs ++ [kv.attr] :=
                  assign_of_fresh (key_ne_of_find hfind)
                rw [Entry.append_toSpan]
                simp only [AbstractLeaf.edit, hfresh]
              · exact Or.inr (Or.inl ⟨Or.inl rfl, rfl⟩)

/-- What `add_event` can do. -/
theorem Store.addEvent_cases (S : Store) (env : Callbacks) (span : Handle) (name : Slice UInt8)
    (attrs : Slice Kv) :
    ((S.addEvent env span name attrs).2 = .ok ∧
        ∃ S₁, S.Edits span (AbstractLeaf.edit S.toLeafParams env (.addEvent span name attrs)) S₁ ∧
          (S.addEvent env span name attrs).1 = S₁.dropAttributes
            (UInt32.ofNat (attrs.len - min attrs.len S.maxEventAttrs.toNat))) ∨
      (((S.addEvent env span name attrs).2 = .errNoSpace ∨
          (S.addEvent env span name attrs).2 = .errLimit) ∧
        (S.addEvent env span name attrs).1 = S.dropEvent) ∨
      (((S.addEvent env span name attrs).2 = .errArg ∨
          (S.addEvent env span name attrs).2 = .errState) ∧
        (S.addEvent env span name attrs).1 = S) := by
  unfold Store.addEvent
  cases hopen : S.openSpan (name.readable && attrs.readable && kvsValid attrs.data) span with
  | error status => exact Or.inr (Or.inr ⟨Store.openSpan_status hopen, rfl⟩)
  | ok p =>
      obtain ⟨s, e⟩ := p
      obtain ⟨hargs, hres, hended⟩ := Store.openSpan_spec hopen
      simp only [Bool.and_eq_true] at hargs
      have hlen := Slice.data_length_of_readable hargs.1.2
      have hkept : ((attrs.data.take S.maxEventAttrs.toNat).map Kv.attr).length =
          min attrs.len S.maxEventAttrs.toNat := by
        rw [List.length_map, List.length_take, hlen, Nat.min_comm]
      dsimp only
      split
      · exact Or.inr (Or.inl ⟨Or.inr rfl, rfl⟩)
      · split
        · rw [hkept]
          refine Or.inl ⟨rfl, _, Store.Edits.of_put hres hended ?_ ?_, rfl⟩
          · rfl
          · rw [Entry.append_toSpan]
            rfl
        · exact Or.inr (Or.inl ⟨Or.inl rfl, rfl⟩)

/-- What `set_status` can do. -/
theorem Store.setStatus_cases (V : S.Valid) (env : Callbacks) (span : Handle)
    (code : Option StatusCode) (message : Slice UInt8) :
    ((S.setStatus span code message).2 = .ok ∧
        S.Edits span (AbstractLeaf.edit S.toLeafParams env (.setStatus span code message))
          (S.setStatus span code message).1) ∨
      ((S.setStatus span code message).2 ≠ .ok ∧ (S.setStatus span code message).1 = S) := by
  unfold Store.setStatus
  cases hopen : S.openSpan (code.isSome && message.readable) span with
  | error status =>
      right
      rcases Store.openSpan_status hopen with rfl | rfl <;> exact ⟨by simp, rfl⟩
  | ok p =>
      obtain ⟨s, e⟩ := p
      obtain ⟨-, hres, hended⟩ := Store.openSpan_spec hopen
      obtain ⟨he, -⟩ := Store.resolve_spec hres
      dsimp only
      split
      · next cells hcells =>
        obtain ⟨hother, hstatuses⟩ := Store.statusCells_spec hcells (V.entries s e he).statuses_le
        refine Or.inl ⟨rfl, Store.Edits.of_put hres hended rfl ?_⟩
        have hmessage : (pick Item.status? cells).getLast?.getD [] = message.data := by
          rw [hstatuses]
          split
          · next hlen => simp [Slice.data_length_of_len_zero hlen]
          · rfl
        unfold Entry.toSpan Entry.names Entry.attrs Entry.events Entry.statuses
        simp only [AbstractLeaf.edit, hmessage, hother Item.name? (fun _ => rfl),
          hother Item.attr? (fun _ => rfl), hother Item.event? (fun _ => rfl)]
      · exact Or.inr ⟨by simp, rfl⟩

/-- What `span_end` can do. -/
theorem Store.spanEnd_cases (S : Store) (env : Callbacks) (span : Handle) :
    ((S.spanEnd env span).2 = .ok ∧
        ∃ S₁ s e, S.resolve span = some (s, e) ∧
          S.Edits span (AbstractLeaf.edit S.toLeafParams env (.spanEnd span)) S₁ ∧
          (S.spanEnd env span).1 = { S₁ with ended := S.ended ++ [s] }) ∨
      ((S.spanEnd env span).2 = .errState ∧ (S.spanEnd env span).1 = S) := by
  unfold Store.spanEnd
  cases hopen : S.openSpan true span with
  | error status =>
      right
      rcases Store.openSpan_status hopen with rfl | rfl
      · unfold Store.openSpan at hopen
        simp only [Bool.not_true, Bool.false_eq_true, if_false] at hopen
        split at hopen
        · split at hopen <;> simp at hopen
        · simp at hopen
      · exact ⟨rfl, rfl⟩
  | ok p =>
      obtain ⟨s, e⟩ := p
      obtain ⟨-, hres, hended⟩ := Store.openSpan_spec hopen
      exact Or.inl ⟨rfl, S.put s { e with ended := true, finish := readClock S.toLeafParams env },
        s, e, hres, Store.Edits.of_put hres hended rfl rfl, rfl⟩

/-! ### One call -/

theorem Store.Valid.step (V : S.Valid) {env : Callbacks} {call : Call} {S' : Store} {o : Outcome}
    (hstep : Store.step env (some S) call = some (some S', o)) : S'.Valid := by
  have hmap : ∀ r : Option (Store × Outcome), (r.map fun p => (some p.1, p.2)) = some (some S', o) →
      r = some (S', o) := by
    rintro r hr
    cases r with
    | none => simp at hr
    | some p =>
        obtain ⟨hS, ho⟩ := Prod.mk.inj (Option.some.inj hr)
        exact congrArg some (Prod.ext (Option.some.inj hS) ho)
  have hret : ∀ r : Store × Status, r.1.Valid → returnsStore r = some (some S', o) → S'.Valid := by
    rintro r hr heq
    obtain ⟨hS, -⟩ := Prod.mk.inj (Option.some.inj heq)
    rw [← Option.some.inj hS]
    exact hr
  cases call with
  | spanStart outNull name kind parent => exact V.spanStart (hmap _ hstep)
  | spanStartRemote outNull name kind traceId parentSpanId =>
      exact V.spanStartRemote (hmap _ hstep)
  | setAttribute span attr => exact hret _ (V.setAttribute span attr) hstep
  | addEvent span name attrs => exact hret _ (V.addEvent env span name attrs) hstep
  | setStatus span code message => exact hret _ (V.setStatus span code message) hstep
  | spanEnd span => exact hret _ (V.spanEnd env span) hstep
  | clockSync unixNs leafNowNs => exact hret _ (V.clockSync env unixNs leafNowNs) hstep
  | encode outNull outSize writtenNull backend => exact hret _ (V.encode env _ backend) hstep
  | encodeTo writeNull writtenNull backend => exact hret _ (V.encode env _ backend) hstep
  | free => simp [Store.step] at hstep

theorem Models.dropAttributes (M : Models S A) (n : UInt32) :
    Models (S.dropAttributes n)
      (A.count fun c => { c with droppedAttributes := c.droppedAttributes + n }) :=
  M.count fun c => { c with droppedAttributes := c.droppedAttributes + n }

theorem Models.dropEvent (M : Models S A) :
    Models S.dropEvent (A.count fun c => { c with droppedEvents := c.droppedEvents + 1 }) :=
  M.count fun c => { c with droppedEvents := c.droppedEvents + 1 }

theorem Models.encode (M : Models S A) (V : S.Valid) (env : Callbacks) (argsOk : Bool)
    (backend : BatchView → Status) :
    Models (S.encode env argsOk backend).1
      (if (S.encode env argsOk backend).2 = .ok then A.encoded else A) := by
  unfold Store.encode
  cases argsOk with
  | false => exact M
  | true =>
      simp only [Bool.not_true, Bool.false_eq_true, if_false]
      by_cases hok : backend (S.view env) = .ok
      · simp only [hok, if_true]
        refine ⟨M.params, ?_, M.resource, M.scopeName, M.scopeVersion, ?_, rfl⟩
        · have hvars := M.vars
          unfold AbstractLeaf.encoded Store.releaseEnded
          dsimp only
          rw [← hvars]
        · intro h
          unfold AbstractLeaf.encoded
          dsimp only
          rw [M.span, Store.resolve_releaseEnded V]
          cases S.resolve h with
          | none => rfl
          | some p =>
              have hspan : p.2.toSpan.ended = p.2.ended := rfl
              simp only [Option.map_some, Option.filter_some, hspan]
              cases p.2.ended <;> rfl
      · simp only [if_neg hok]
        exact M

theorem Models.clockSync (M : Models S A) (env : Callbacks) (unixNs leafNowNs : UInt64) :
    Models (S.clockSync env unixNs leafNowNs).1
      (if (S.clockSync env unixNs leafNowNs).2 = .ok then
        { A with syncUnix := unixNs, syncLeaf := leafNowNs, synced := true } else A) := by
  unfold Store.clockSync
  split
  · simp only [reduceCtorEq, if_false]
    exact M
  · have hvars := M.vars
    simp only [if_true]
    refine ⟨M.params, ?_, M.resource, M.scopeName, M.scopeVersion, M.span, M.ended⟩
    dsimp only
    rw [← hvars]

theorem Models.setStatus (M : Models S A) (V : S.Valid) (env : Callbacks) (span : Handle)
    (code : Option StatusCode) (message : Slice UInt8) :
    Models (S.setStatus span code message).1
      (if (S.setStatus span code message).2 = .ok then
        A.update span (AbstractLeaf.edit A.toLeafParams env (.setStatus span code message))
      else A) := by
  have hcases := Store.setStatus_cases V env span code message
  rw [M.params] at hcases
  rcases hcases with ⟨hok, E⟩ | ⟨hok, hS⟩
  · rw [if_pos hok]
    exact M.edits V E
  · rw [if_neg hok, hS]
    exact M

theorem Models.spanEnd (M : Models S A) (V : S.Valid) (env : Callbacks) (span : Handle) :
    Models (S.spanEnd env span).1
      (if (S.spanEnd env span).2 = .ok then
        { A.update span (AbstractLeaf.edit A.toLeafParams env (.spanEnd span)) with
          ended := A.ended ++ [span] } else A) := by
  rcases S.spanEnd_cases env span with ⟨hok, S₁, s, e, hres, E, hS⟩ | ⟨hstatus, hS⟩
  · have M' := M.edits V E
    obtain ⟨he, hspan⟩ := (Store.resolve_eq_some V).mp hres
    obtain ⟨t, x, e', hres', -, hgen, -, rfl⟩ := E
    rw [hres] at hres'
    obtain ⟨rfl, rfl⟩ := Prod.mk.inj (Option.some.inj hres')
    rw [M.params] at M'
    rw [hS, if_pos hok]
    refine ⟨M'.params, M'.vars, M'.resource, M'.scopeName, M'.scopeVersion, M'.span, ?_⟩
    have hended := M'.ended
    have hself : (S.put s e').handleOf s = some span := by
      unfold Store.handleOf
      rw [Store.put_entry, if_pos rfl, hspan]
      simp [hgen]
    change A.ended ++ [span] = (S.ended ++ [s]).filterMap (S.put s e').handleOf
    rw [List.filterMap_append]
    have hbefore : A.ended = S.ended.filterMap (S.put s e').handleOf := hended
    rw [← hbefore]
    simp [hself]
  · rw [hS, hstatus]
    simp only [reduceCtorEq, if_false]
    exact M

/-- A step of the abstract leaf that happens on success only. -/
theorem Models.on_ok {S' : Store} {status : Status} {A' : AbstractLeaf}
    (M : Models S' (if status = .ok then A' else A)) :
    Option.Rel Models (some S')
      (if (Outcome.of status).status = .ok then some A' else some A) := by
  by_cases hok : status = .ok
  · rw [if_pos hok] at M
    rw [if_pos (show (Outcome.of status).status = .ok from hok)]
    exact Option.Rel.some M
  · rw [if_neg hok] at M
    rw [if_neg (show (Outcome.of status).status ≠ .ok from hok)]
    exact Option.Rel.some M

/-- Step lemma: one call of the store is one step of the abstract leaf. -/
theorem Models.step (M : Models S A) (V : S.Valid) {env : Callbacks} {call : Call}
    {S? : Option Store} {o : Outcome} (hstep : Store.step env (some S) call = some (S?, o)) :
    Option.Rel Models S? (A.step env call o) := by
  cases call with
  | spanStart outNull name kind parent =>
      obtain ⟨p, hp, heq⟩ := Option.map_eq_some_iff.mp hstep
      obtain ⟨rfl, rfl⟩ := Prod.mk.inj heq
      exact Option.Rel.some (M.spanStart V hp)
  | spanStartRemote outNull name kind traceId parentSpanId =>
      obtain ⟨p, hp, heq⟩ := Option.map_eq_some_iff.mp hstep
      obtain ⟨rfl, rfl⟩ := Prod.mk.inj heq
      exact Option.Rel.some (M.spanStartRemote V hp)
  | setAttribute span attr =>
      obtain ⟨rfl, rfl⟩ := Prod.mk.inj (Option.some.inj hstep)
      unfold AbstractLeaf.step
      have hcases := S.setAttribute_cases env span attr
      rw [M.params] at hcases
      generalize S.setAttribute span attr = r at hcases
      obtain ⟨S', status⟩ := r
      rcases hcases with ⟨rfl, E⟩ | ⟨rfl | rfl, rfl⟩ | ⟨rfl | rfl, rfl⟩
      · exact Option.Rel.some (M.edits V E)
      · exact Option.Rel.some (M.dropAttributes 1)
      · exact Option.Rel.some (M.dropAttributes 1)
      · exact Option.Rel.some M
      · exact Option.Rel.some M
  | addEvent span name attrs =>
      obtain ⟨rfl, rfl⟩ := Prod.mk.inj (Option.some.inj hstep)
      unfold AbstractLeaf.step
      have hcases := S.addEvent_cases env span name attrs
      rw [M.params] at hcases
      generalize S.addEvent env span name attrs = r at hcases
      obtain ⟨S', status⟩ := r
      rcases hcases with ⟨rfl, S₁, E, rfl⟩ | ⟨rfl | rfl, rfl⟩ | ⟨rfl | rfl, rfl⟩
      · exact Option.Rel.some ((M.edits V E).dropAttributes _)
      · exact Option.Rel.some M.dropEvent
      · exact Option.Rel.some M.dropEvent
      · exact Option.Rel.some M
      · exact Option.Rel.some M
  | setStatus span code message =>
      obtain ⟨rfl, rfl⟩ := Prod.mk.inj (Option.some.inj hstep)
      exact (M.setStatus V env span code message).on_ok
  | spanEnd span =>
      obtain ⟨rfl, rfl⟩ := Prod.mk.inj (Option.some.inj hstep)
      exact (M.spanEnd V env span).on_ok
  | clockSync unixNs leafNowNs =>
      obtain ⟨rfl, rfl⟩ := Prod.mk.inj (Option.some.inj hstep)
      exact (M.clockSync env unixNs leafNowNs).on_ok
  | encode outNull outSize writtenNull backend =>
      obtain ⟨rfl, rfl⟩ := Prod.mk.inj (Option.some.inj hstep)
      exact (M.encode V env _ backend).on_ok
  | encodeTo writeNull writtenNull backend =>
      obtain ⟨rfl, rfl⟩ := Prod.mk.inj (Option.some.inj hstep)
      exact (M.encode V env _ backend).on_ok
  | free =>
      obtain ⟨rfl, rfl⟩ := Prod.mk.inj (Option.some.inj hstep)
      exact Option.Rel.none

/-! ### Runs -/

theorem Store.run_freed (calls : List (Callbacks × Call)) {S? : Option Store} {os : List Outcome}
    (hrun : Store.run none calls = some (S?, os)) : S? = none := by
  induction calls generalizing os with
  | nil => exact (Prod.mk.inj (Option.some.inj hrun)).1.symm
  | cons x calls ih =>
      obtain ⟨env, call⟩ := x
      have hstep : ∃ o, Store.step env none call = some (none, o) := by
        cases call <;> exact ⟨_, rfl⟩
      obtain ⟨o, ho⟩ := hstep
      unfold Store.run at hrun
      rw [ho] at hrun
      obtain ⟨p, hp, heq⟩ := Option.map_eq_some_iff.mp hrun
      obtain ⟨rfl, -⟩ := Prod.mk.inj heq
      exact ih hp

/-- Run lemma: every run of the store is a run of the abstract leaf. -/
theorem Models.run (M : Models S A) (V : S.Valid) {calls : List (Callbacks × Call)}
    {S? : Option Store} {os : List Outcome} (hrun : Store.run (some S) calls = some (S?, os)) :
    Option.Rel Models S? (AbstractLeaf.run (some A) calls os) := by
  induction calls generalizing S A os with
  | nil =>
      obtain ⟨rfl, rfl⟩ := Prod.mk.inj (Option.some.inj hrun)
      exact Option.Rel.some M
  | cons x calls ih =>
      obtain ⟨env, call⟩ := x
      unfold Store.run at hrun
      cases hstep : Store.step env (some S) call with
      | none =>
          rw [hstep] at hrun
          simp at hrun
      | some p =>
          obtain ⟨S₁, o⟩ := p
          rw [hstep] at hrun
          obtain ⟨q, hq, heq⟩ := Option.map_eq_some_iff.mp hrun
          obtain ⟨rfl, rfl⟩ := Prod.mk.inj heq
          have hrel := M.step V hstep
          unfold AbstractLeaf.run
          generalize A.step env call o = A₁ at hrel
          cases hrel with
          | none =>
              rw [Store.run_freed calls hq]
              cases calls <;> exact Option.Rel.none
          | some M₁ => exact ih M₁ (V.step hstep) hq

/-- The batch read back through the cursors, after any run of calls on an
initialised leaf, is the view of the abstract leaf after the same calls. -/
theorem run_view {w : Word32} {leaf st₀ st : LeafState} {leafSize bufferSize : Nat} {c : Config}
    {buffer buffer' : Option ByteMemory.Mem} {calls : List (Callbacks × Call)} {os : List Outcome}
    (hinit : init w leaf leafSize (some c) buffer bufferSize = (.ok, st₀, buffer'))
    (hrun : run w st₀ calls = some (st, os)) (env : Callbacks) :
    match AbstractLeaf.run (some (AbstractLeaf.init c)) calls os with
    | some A => batchView w st env = A.view env
    | none => checkLeaf st = .errState := by
  obtain ⟨c', S?, hc, hvalid, hstore, hfinal⟩ := run_tracks hinit hrun
  obtain rfl := Option.some.inj hc
  have hrel := (Models.init c (min bufferSize maxBuffer)).run (Store.init_valid hvalid _) hstore
  generalize AbstractLeaf.run (some (AbstractLeaf.init c)) calls os = A? at hrel
  cases hrel with
  | none =>
      have hmagic : st.magic ≠ leafMagic := hfinal
      simp [checkLeaf, hmagic]
  | @some S A M =>
      obtain ⟨V', cs', ch', R'⟩ := hfinal
      exact (R'.batchView V' env).trans (M.view V' env)

end

/-! ### A short run -/

def pumpConfig : Config where
  structSize := sizeofConfig
  timeMode := some .bootRelative
  hasClock := true
  hasRandom := true
  resource := .items [⟨.items (ascii "service.name"), .string (.items (ascii "pump"))⟩]
  scopeName := .items (ascii "leaf")
  scopeVersion := .null 0
  maxAttributesPerSpan := 0
  maxEventsPerSpan := 0
  maxAttributesPerEvent := 0
  bootId := 7
  scratchNull := true
  scratchSize := 0

/-- `microtel_leaf_init` over a buffer of 300 zero bytes. -/
def pumpInit : Status × LeafState × Option ByteMemory.Mem :=
  init Word32.wrap (free (initState pumpConfig ⟨fun _ => 0⟩ 0)) sizeofLeaf (some pumpConfig)
    (some ⟨fun _ => 0⟩) 300

def pumpEnv : Callbacks := ⟨100, [1, 2, 3, 4]⟩

/-- A span with an attribute that is set twice, the second time to a value that
does not fit in its place. -/
def pumpCalls : List (Callbacks × Call) :=
  [(pumpEnv, .spanStart false (.items (ascii "read")) (some .internal) none),
    (pumpEnv, .setAttribute 0x10000 (some ⟨.items (ascii "bar"), .int64 3⟩)),
    (pumpEnv, .setAttribute 0x10000 (some ⟨.items (ascii "bar"), .string (.items (ascii "high"))⟩)),
    (pumpEnv, .spanEnd 0x10000)]

theorem pumpInit_ok : pumpInit = (.ok, pumpInit.2.1, pumpInit.2.2) := by
  have hstatus : pumpInit.1 = .ok := by decide +kernel
  rw [← hstatus]

theorem pumpRun_some : ∃ r, run Word32.wrap pumpInit.2.1 pumpCalls = some r := by
  have hsome : (run Word32.wrap pumpInit.2.1 pumpCalls).isSome = true := by decide +kernel
  exact Option.isSome_iff_exists.mp hsome

theorem run_view_pump :
    ∃ st os, run Word32.wrap pumpInit.2.1 pumpCalls = some (st, os) ∧
      (match AbstractLeaf.run (some (AbstractLeaf.init pumpConfig)) pumpCalls os with
        | some A => batchView Word32.wrap st pumpEnv = A.view pumpEnv
        | none => checkLeaf st = .errState) ∧
      (batchView Word32.wrap st pumpEnv).spans.map SpanView.attrs =
        [[⟨ascii "bar", .string (ascii "high")⟩]] := by
  obtain ⟨⟨st, os⟩, hrun⟩ := pumpRun_some
  refine ⟨st, os, hrun, run_view pumpInit_ok hrun pumpEnv, ?_⟩
  have hattrs : ((run Word32.wrap pumpInit.2.1 pumpCalls).map fun r =>
      (batchView Word32.wrap r.1 pumpEnv).spans.map SpanView.attrs) =
      some [[⟨ascii "bar", .string (ascii "high")⟩]] := by decide +kernel
  rw [hrun] at hattrs
  exact Option.some.inj hattrs

end Microtel.Leaf
