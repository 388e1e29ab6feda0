import Microtel.Lib.Mixer
import Microtel.Leaf.AbstractRuns

/-!
Ids on weak entropy. The mix is a permutation of the 64-bit words, so with a
random source that always answers the same word the counter alone keeps the id
words of a boot apart.
-/

namespace Microtel.Leaf

/-! ### The mix -/

theorem splitmix64_injective : Function.Injective splitmix64 := by
  have hunit : (0xbf58476d1ce4e5b9 : UInt64) * 0x96de1b173f119089 = 1 := by decide
  have hunit' : (0x94d049bb133111eb : UInt64) * 0x319642b2d24d8ec3 = 1 := by decide
  have hadd := Mixer.add_injective 0x9e3779b97f4a7c15
  have hfirst := Mixer.xorShift_injective (k := 30) (by decide)
  have hsecond := Mixer.xorShift_injective (k := 27) (by decide)
  have hlast := Mixer.xorShift_injective (k := 31) (by decide)
  have hmul := Mixer.mul_injective hunit
  have hmul' := Mixer.mul_injective hunit'
  intro a b h
  exact hadd (hfirst (hmul (hsecond (hmul' (hlast h)))))

theorem splitmix64_bijective : Function.Bijective splitmix64 :=
  Finite.injective_iff_bijective.mp splitmix64_injective

/-! ### The words of one random answer -/

section Words

variable {v : LeafVars} {r : UInt64}

/-- The `n`th word a device draws when every random answer is `r`. -/
def wordAt (key r : UInt64) (n : Nat) : UInt64 := splitmix64 (key + UInt64.ofNat n) ^^^ r

theorem wordAt_injOn (key r : UInt64) : Set.InjOn (wordAt key r) {n | n < 2 ^ 64} := by
  intro m hm n hn h
  have hmix : splitmix64 (key + UInt64.ofNat m) = splitmix64 (key + UInt64.ofNat n) :=
    (UInt64.xor_left_inj r).mp h
  have hsum := splitmix64_injective hmix
  have hcount : UInt64.ofNat m = UInt64.ofNat n := (UInt64.add_right_inj key).mp hsum
  exact Mixer.ofNat_injOn hm hn hcount

/-- The variables after `n` words. -/
def LeafVars.advance (v : LeafVars) (n : Nat) : LeafVars :=
  { v with idCounter := v.idCounter + UInt64.ofNat n }

def LeafVars.word (v : LeafVars) (r : UInt64) (n : Nat) : UInt64 :=
  wordAt (v.deviceKey + v.idCounter) r n

theorem LeafVars.advance_advance (v : LeafVars) (m n : Nat) :
    (v.advance m).advance n = v.advance (m + n) := by
  simp [advance, UInt64.add_assoc]

theorem LeafVars.word_advance (v : LeafVars) (r : UInt64) (m n : Nat) :
    (v.advance m).word r n = v.word r (m + n) := by
  simp [advance, word, wordAt, UInt64.add_assoc]

theorem LeafVars.word_ne (v : LeafVars) (r : UInt64) {m n : Nat} (hm : m < 2 ^ 64)
    (hn : n < 2 ^ 64) (hne : m ≠ n) : v.word r m ≠ v.word r n :=
  fun h => hne (wordAt_injOn _ r hm hn h)

theorem nextIdWord_eq (v : LeafVars) (r : UInt64) :
    nextIdWord v r = (v.word r 0, v.advance 1) := by
  simp [nextIdWord, LeafVars.word, wordAt, LeafVars.advance]

/-- The words `next_id_word` returns for the answers of `random_bytes`. -/
def idWords (v : LeafVars) : List UInt64 → List UInt64
  | [] => []
  | r :: rest => (nextIdWord v r).1 :: idWords (nextIdWord v r).2 rest

theorem idWords_replicate (v : LeafVars) (r : UInt64) (n : Nat) :
    idWords v (List.replicate n r) = (List.range n).map (v.word r) := by
  induction n generalizing v with
  | zero => rfl
  | succ n ih =>
      have htail : (List.range n).map ((v.advance 1).word r) =
          (List.range n).map (v.word r ∘ Nat.succ) := by
        apply List.map_congr_left
        intro i _
        rw [LeafVars.word_advance, Nat.add_comm, Function.comp_apply]
      rw [List.replicate_succ, List.range_succ_eq_map, List.map_cons, List.map_map, ← htail]
      simp only [idWords, nextIdWord_eq, ih]

/-! ### The loops -/

/-- Two words in a row differ, so one of them is not zero. -/
theorem newTraceId_replicate (v : LeafVars) (r : UInt64) (n : Nat) :
    newTraceId v (List.replicate (n + 2) r) =
      some (storeBe64 (v.word r 0) ++ storeBe64 (v.word r 1), v.advance 2,
        List.replicate n r) := by
  have hnext := v.word_ne r (show 0 < 2 ^ 64 by decide) (show 1 < 2 ^ 64 by decide) (by decide)
  have hround : ¬ (v.word r 0 = 0 ∧ v.word r 1 = 0) := by
    rintro ⟨hhi, hlo⟩
    exact hnext (hhi.trans hlo.symm)
  rw [List.replicate_succ, List.replicate_succ]
  simp only [newTraceId, nextIdWord_eq, LeafVars.word_advance, LeafVars.advance_advance,
    Nat.add_zero, if_neg hround, Nat.reduceAdd]

theorem newSpanId_replicate (v : LeafVars) (r : UInt64) (n : Nat) :
    newSpanId v (List.replicate (n + 2) r) =
      if v.word r 0 = 0 then some (storeBe64 (v.word r 1), v.advance 2, List.replicate n r)
      else some (storeBe64 (v.word r 0), v.advance 1, List.replicate (n + 1) r) := by
  have hnext := v.word_ne r (show 0 < 2 ^ 64 by decide) (show 1 < 2 ^ 64 by decide) (by decide)
  rw [List.replicate_succ, List.replicate_succ]
  simp only [newSpanId, nextIdWord_eq, LeafVars.word_advance, LeafVars.advance_advance,
    Nat.add_zero, Nat.reduceAdd]
  by_cases hzero : v.word r 0 = 0
  · have hround : v.word r 1 ≠ 0 := by
      intro h
      exact hnext (hzero.trans h.symm)
    rw [if_pos hzero, if_pos hzero, if_neg hround]
  · rw [if_neg hzero, if_neg hzero]

theorem newTraceId_eq_some {n : Nat} {p : TraceId × LeafVars × List UInt64}
    (h : newTraceId v (List.replicate n r) = some p) :
    p = (storeBe64 (v.word r 0) ++ storeBe64 (v.word r 1), v.advance 2,
      List.replicate (n - 2) r) ∧ 2 ≤ n := by
  obtain _ | _ | n := n
  · simp [newTraceId] at h
  · simp [newTraceId] at h
  · rw [newTraceId_replicate] at h
    exact ⟨(Option.some.inj h).symm, by omega⟩

/-- A span id is the first or the second word. -/
theorem newSpanId_eq_some {n : Nat} {p : SpanId × LeafVars × List UInt64}
    (h : newSpanId v (List.replicate n r) = some p) :
    ∃ k ≤ 1, k + 1 ≤ n ∧ p.1 = storeBe64 (v.word r k) ∧ p.2.1 = v.advance (k + 1) := by
  obtain _ | _ | n := n
  · simp [newSpanId] at h
  · rw [Nat.zero_add, List.replicate_one] at h
    simp only [newSpanId, nextIdWord_eq] at h
    split at h
    · simp at h
    · obtain rfl := Option.some.inj h
      exact ⟨0, by omega, by omega, rfl, rfl⟩
  · rw [newSpanId_replicate] at h
    split at h
    · obtain rfl := Option.some.inj h
      exact ⟨1, by omega, by omega, rfl, rfl⟩
    · obtain rfl := Option.some.inj h
      exact ⟨0, by omega, by omega, rfl, rfl⟩

/-- The words that a span takes before its own id: two for a root. -/
def SpanIds.traceWords (ids : SpanIds) : Nat :=
  match ids.traceId with
  | none => 2
  | some _ => 0

theorem drawIds_eq_some {ids : SpanIds} {n : Nat} {p : TraceId × SpanId × LeafVars}
    (h : drawIds v ids (List.replicate n r) = some p) :
    ∃ k ≤ 1, ids.traceWords + (k + 1) ≤ n ∧
      (ids.traceId = none → p.1 = storeBe64 (v.word r 0) ++ storeBe64 (v.word r 1)) ∧
      p.2.1 = storeBe64 (v.word r (ids.traceWords + k)) ∧
      p.2.2 = v.advance (ids.traceWords + (k + 1)) := by
  unfold drawIds at h
  unfold SpanIds.traceWords
  cases htrace : ids.traceId with
  | some traceId =>
      simp only [htrace, Option.map_eq_some_iff] at h
      obtain ⟨q, hq, rfl⟩ := h
      obtain ⟨k, hk, hlen, hspan, hvars⟩ := newSpanId_eq_some hq
      simp only [Nat.zero_add]
      refine ⟨k, hk, hlen, ?_, hspan, hvars⟩
      intro hnone
      simp at hnone
  | none =>
      simp only [htrace] at h
      cases htraceId : newTraceId v (List.replicate n r) with
      | none =>
          rw [htraceId] at h
          simp at h
      | some t =>
          rw [htraceId] at h
          obtain ⟨rfl, htwo⟩ := newTraceId_eq_some htraceId
          obtain ⟨q, hq, rfl⟩ := Option.map_eq_some_iff.mp h
          obtain ⟨k, hk, hlen, hspan, hvars⟩ := newSpanId_eq_some hq
          dsimp only
          refine ⟨k, hk, by omega, fun _ => rfl, ?_, ?_⟩
          · rw [← LeafVars.word_advance]
            exact hspan
          · rw [← LeafVars.advance_advance]
            exact hvars

end Words

/-! ### One call -/

section Calls

variable {S S' : Store} {env : Callbacks} {o : Outcome}

/-- A call as the ids see it: it draws nothing, or it starts one span with the
ids drawn for it. -/
inductive Store.Draws (S S' : Store) (env : Callbacks) (o : Outcome) : Prop where
  | nothing (key : S'.deviceKey = S.deviceKey) (counter : S'.idCounter = S.idCounter)
      (span : o.span = none)
  | span (ids : SpanIds) (slot : UInt16) (e : Entry)
      (drawn : drawIds S.toLeafVars ids env.random = some (e.traceId, e.spanId, S'.toLeafVars))
      (entry : S'.entry slot = some e) (parent : e.parent = ids.parentId)
      (root : ids.parentId = none → ids.traceId = none)
      (span : o.span = some (mkHandle e.gen slot))

theorem Store.startSpan_draws (V : S.Valid) {name : Slice UInt8} {kind : SpanKind} {ids : SpanIds}
    (hroot : ids.parentId = none → ids.traceId = none)
    (hstart : S.startSpan env name kind ids = some (S', o)) : S.Draws S' env o := by
  rcases Store.startSpan_cases V hstart with
    ⟨rfl, rfl⟩ | ⟨slot, traceId, spanId, vars, hfree, hdraw, rfl, rfl⟩
  · exact Store.Draws.nothing rfl rfl rfl
  · exact Store.Draws.span ids slot (S.newEntry env name kind traceId spanId ids.parentId) hdraw
      (Function.update_self _ _ _) rfl hroot rfl

theorem Store.spanStart_draws (V : S.Valid) {outNull : Bool} {name : Slice UInt8}
    {kind : Option SpanKind} {parent : Option Handle}
    (hstart : S.spanStart env outNull name kind parent = some (S', o)) : S.Draws S' env o := by
  have hreject : ∀ status, some (S, Outcome.of status) = some (S', o) → S.Draws S' env o := by
    intro status heq
    obtain ⟨rfl, rfl⟩ := Prod.mk.inj (Option.some.inj heq)
    exact Store.Draws.nothing rfl rfl rfl
  unfold Store.spanStart at hstart
  cases hargs : startArgsValid outNull name kind with
  | none =>
      rw [hargs] at hstart
      exact hreject .errArg hstart
  | some k =>
      rw [hargs] at hstart
      cases parent with
      | none => exact Store.startSpan_draws V (fun _ => rfl) hstart
      | some p =>
          dsimp only at hstart
          cases hres : S.resolve p with
          | none =>
              rw [hres] at hstart
              exact hreject .errState hstart
          | some q =>
              rw [hres] at hstart
              exact Store.startSpan_draws V (fun h => by simp at h) hstart

theorem Store.spanStartRemote_draws (V : S.Valid) {outNull : Bool} {name : Slice UInt8}
    {kind : Option SpanKind} {traceId : Option TraceId} {parentSpanId : Option SpanId}
    (hstart : S.spanStartRemote env outNull name kind traceId parentSpanId = some (S', o)) :
    S.Draws S' env o := by
  have hreject : some (S, Outcome.of .errArg) = some (S', o) → S.Draws S' env o := by
    intro heq
    obtain ⟨rfl, rfl⟩ := Prod.mk.inj (Option.some.inj heq)
    exact Store.Draws.nothing rfl rfl rfl
  unfold Store.spanStartRemote at hstart
  split at hstart
  · split at hstart
    · exact hreject hstart
    · exact Store.startSpan_draws V (fun h => by simp at h) hstart
  · exact hreject hstart

theorem Store.Edits.vars {S : Store} {h : Handle} {f : Span → Span} (E : S.Edits h f S') :
    S'.toLeafVars = S.toLeafVars := by
  obtain ⟨s, e, e', -, -, -, -, rfl⟩ := E
  rfl

theorem Store.encode_deviceKey (S : Store) (env : Callbacks) (argsOk : Bool)
    (backend : BatchView → Status) :
    (S.encode env argsOk backend).1.deviceKey = S.deviceKey ∧
      (S.encode env argsOk backend).1.idCounter = S.idCounter := by
  unfold Store.encode
  split
  · exact ⟨rfl, rfl⟩
  · split
    · exact ⟨rfl, rfl⟩
    · exact ⟨rfl, rfl⟩

/-- Only a call that starts a span moves the counter, and none changes the key. -/
theorem Store.step_draws (V : S.Valid) {call : Call}
    (hstep : Store.step env (some S) call = some (some S', o)) : S.Draws S' env o := by
  have hnothing : ∀ r : Store × Status, r.1.deviceKey = S.deviceKey →
      r.1.idCounter = S.idCounter → returnsStore r = some (some S', o) → S.Draws S' env o := by
    intro r hkey hcounter heq
    obtain ⟨hS, rfl⟩ := Prod.mk.inj (Option.some.inj heq)
    obtain rfl := Option.some.inj hS
    exact Store.Draws.nothing hkey hcounter rfl
  have hsame : ∀ r : Store × Status, r.1.toLeafVars = S.toLeafVars →
      returnsStore r = some (some S', o) → S.Draws S' env o := by
    intro r hvars
    exact hnothing r (congrArg LeafVars.deviceKey hvars) (congrArg LeafVars.idCounter hvars)
  cases call with
  | spanStart outNull name kind parent =>
      obtain ⟨p, hp, heq⟩ := Option.map_eq_some_iff.mp hstep
      obtain ⟨hS, rfl⟩ := Prod.mk.inj heq
      obtain rfl := Option.some.inj hS
      exact Store.spanStart_draws V hp
  | spanStartRemote outNull name kind traceId parentSpanId =>
      obtain ⟨p, hp, heq⟩ := Option.map_eq_some_iff.mp hstep
      obtain ⟨hS, rfl⟩ := Prod.mk.inj heq
      obtain rfl := Option.some.inj hS
      exact Store.spanStartRemote_draws V hp
  | setAttribute span attr =>
      rcases S.setAttribute_cases env span attr with ⟨-, E⟩ | ⟨-, hS⟩ | ⟨-, hS⟩
      · exact hsame _ E.vars hstep
      · exact hnothing _ (by rw [hS]; rfl) (by rw [hS]; rfl) hstep
      · exact hsame _ (by rw [hS]) hstep
  | addEvent span name attrs =>
      rcases S.addEvent_cases env span name attrs with ⟨-, S₁, E, hS⟩ | ⟨-, hS⟩ | ⟨-, hS⟩
      · have hkey : S₁.deviceKey = S.deviceKey := congrArg LeafVars.deviceKey E.vars
        have hcounter : S₁.idCounter = S.idCounter := congrArg LeafVars.idCounter E.vars
        exact hnothing _ (by rw [hS]; exact hkey) (by rw [hS]; exact hcounter) hstep
      · exact hnothing _ (by rw [hS]; rfl) (by rw [hS]; rfl) hstep
      · exact hsame _ (by rw [hS]) hstep
  | setStatus span code message =>
      rcases Store.setStatus_cases V env span code message with ⟨-, E⟩ | ⟨-, hS⟩
      · exact hsame _ E.vars hstep
      · exact hsame _ (by rw [hS]) hstep
  | spanEnd span =>
      rcases S.spanEnd_cases env span with ⟨-, S₁, s, e, -, E, hS⟩ | ⟨-, hS⟩
      · have hvars := E.vars
        exact hsame _ (by rw [hS]; exact hvars) hstep
      · exact hsame _ (by rw [hS]) hstep
  | clockSync unixNs leafNowNs =>
      refine hnothing _ ?_ ?_ hstep
      · unfold Store.clockSync
        split <;> rfl
      · unfold Store.clockSync
        split <;> rfl
  | encode outNull outSize writtenNull backend =>
      exact hnothing _ (Store.encode_deviceKey S env _ backend).1
        (Store.encode_deviceKey S env _ backend).2 hstep
  | encodeTo writeNull writtenNull backend =>
      exact hnothing _ (Store.encode_deviceKey S env _ backend).1
        (Store.encode_deviceKey S env _ backend).2 hstep
  | free => simp [Store.step] at hstep

end Calls

/-! ### Boots -/

/-- The id words and the spans of a boot: each span's record as the call that
started it left it. -/
structure Generated where
  words : List UInt64
  spans : List SpanRec

def Generated.append (g g' : Generated) : Generated where
  words := g.words ++ g'.words
  spans := g.spans ++ g'.spans

/-- The spans that took no trace id from a parent. -/
def Generated.roots (g : Generated) : List SpanRec := g.spans.filter fun r => !r.hasParent

/-- What one call generated: the counter has moved by the number of its words. -/
def generatedBy (st st' : LeafState) (env : Callbacks) (o : Outcome) : Generated where
  words := idWords st.toLeafVars (env.random.take (st'.idCounter - st.idCounter).toNat)
  spans := (o.span.map fun h => getSlot st' (h &&& 0xffff).toUInt16).toList

/-- What the calls of one boot generate, up to `microtel_leaf_free` or a call
that does not return. -/
def generated (w : Word32) (st : LeafState) : List (Callbacks × Call) → Generated
  | [] => ⟨[], []⟩
  | (env, call) :: calls =>
      match call, step w st env call with
      | .free, _ => ⟨[], []⟩
      | _, none => ⟨[], []⟩
      | _, some (st', o) => (generatedBy st st' env o).append (generated w st' calls)

/-- The words are the first of a stream, and ids were cut from them in order. -/
structure Generated.From (g : Generated) (stream : Nat → UInt64) : Prop where
  words : g.words = (List.range g.words.length).map stream
  spanIds : (g.spans.map SpanRec.spanId).Sublist (g.words.map storeBe64)
  traceIds : (g.roots.map fun r => r.traceId.toList.take 8).Sublist
    (g.words.map fun word => (storeBe64 word).toList)
  nonzero : ∀ r ∈ g.spans, allZero r.traceId.toList = false ∧ allZero r.spanId.toList = false

section Boots

variable {w : Word32} {st st' : LeafState} {S : Store} {env : Callbacks} {o : Outcome}
  {stream : Nat → UInt64} {g g' : Generated}

theorem Generated.From.nothing : Generated.From ⟨[], []⟩ stream where
  words := rfl
  spanIds := List.Sublist.refl _
  traceIds := List.Sublist.refl _
  nonzero _ hr := absurd hr List.not_mem_nil

theorem Generated.From.append (F : g.From stream)
    (F' : g'.From fun n => stream (g.words.length + n)) : (g.append g').From stream := by
  constructor
  · have hrange : (g.append g').words.length = g.words.length + g'.words.length :=
      List.length_append
    rw [hrange, List.range_add, List.map_append, List.map_map, ← F.words]
    have hrest := F'.words
    exact congrArg (g.words ++ ·) hrest
  · unfold Generated.append
    rw [List.map_append, List.map_append]
    exact F.spanIds.append F'.spanIds
  · unfold Generated.append Generated.roots
    rw [List.filter_append, List.map_append, List.map_append]
    exact F.traceIds.append F'.traceIds
  · intro r hr
    rcases List.mem_append.mp hr with hr | hr
    · exact F.nonzero r hr
    · exact F'.nonzero r hr

/-- Words of a stream that does not repeat make ids that do not. -/
theorem Generated.From.distinct (F : g.From stream)
    (hinj : Set.InjOn stream {n | n < 2 ^ 64}) (hfew : g.words.length < 2 ^ 64) :
    g.words.Nodup ∧ (g.spans.map SpanRec.spanId).Nodup ∧
      (g.roots.map SpanRec.traceId).Nodup := by
  have hwords : g.words.Nodup := by
    rw [F.words]
    apply List.Nodup.map_on
    · intro m hm n hn h
      have hm' := List.mem_range.mp hm
      have hn' := List.mem_range.mp hn
      exact hinj (show m < 2 ^ 64 by omega) (show n < 2 ^ 64 by omega) h
    · exact List.nodup_range
  refine ⟨hwords, ?_, ?_⟩
  · exact F.spanIds.nodup (hwords.map storeBe64_injective)
  · have hbytes : Function.Injective fun word => (storeBe64 word).toList := by
      intro a b h
      exact storeBe64_injective (Vector.toList_inj.mp h)
    have hheads := F.traceIds.nodup (hwords.map hbytes)
    have hmap : (g.roots.map fun r => r.traceId.toList.take 8) =
        (g.roots.map SpanRec.traceId).map fun id => id.toList.take 8 := by
      rw [List.map_map]
      rfl
    rw [hmap] at hheads
    exact hheads.of_map

theorem Tracks.step_some (h : Tracks st (some S)) {call : Call} (hcall : call ≠ .free)
    (hstep : Leaf.step w st env call = some (st', o)) :
    ∃ S', Store.step env (some S) call = some (some S', o) ∧ Tracks st' (some S') := by
  obtain ⟨hsim, -⟩ := h.step (w := w) (ω := w) env call
  rw [hstep] at hsim
  have hlive : ∀ o', Store.step env (some S) call ≠ some (none, o') := by
    intro o' hnone
    obtain ⟨V, -⟩ := h
    cases call with
    | free => exact hcall rfl
    | spanStart outNull name kind parent =>
        obtain ⟨p, -, heq⟩ := Option.map_eq_some_iff.mp hnone
        simp at heq
    | spanStartRemote outNull name kind traceId parentSpanId =>
        obtain ⟨p, -, heq⟩ := Option.map_eq_some_iff.mp hnone
        simp at heq
    | _ => simp [Store.step, returnsStore] at hnone
  cases hstore : Store.step env (some S) call with
  | none =>
      rw [hstore] at hsim
      cases hsim
  | some p =>
      obtain ⟨S?, o'⟩ := p
      rw [hstore] at hsim
      cases hsim with
      | some hp =>
          obtain ⟨rfl, htracks⟩ := hp
          cases S? with
          | none => exact absurd hstore (hlive o)
          | some S' => exact ⟨S', rfl, htracks⟩

/-- The record of a span is that of its entry. -/
theorem Tracks.record (h : Tracks st (some S)) {slot : UInt16} {e : Entry}
    (he : S.entry slot = some e) :
    (getSlot st slot).traceId = e.traceId ∧ (getSlot st slot).spanId = e.spanId ∧
      (getSlot st slot).hasParent = e.parent.isSome := by
  obtain ⟨V, cs, ch, R⟩ := h
  have hslot : slot < st.slotCount := by
    rw [R.count]
    exact V.bound slot e he
  have hheld := R.held slot hslot e he
  exact ⟨hheld.field SpanRec.traceId fun _ => rfl, hheld.field SpanRec.spanId fun _ => rfl,
    hheld.field SpanRec.hasParent fun _ => rfl⟩

/-- Step lemma: a call takes its ids from the next words of the stream. -/
theorem Tracks.generatedBy_from (h : Tracks st (some S)) {call : Call} {r : UInt64}
    (hrandom : ∀ x ∈ env.random, x = r) (hcall : call ≠ .free)
    (hstep : Leaf.step w st env call = some (st', o)) :
    (generatedBy st st' env o).From (st.toLeafVars.word r) ∧
      st'.toLeafVars.word r = (fun n =>
        st.toLeafVars.word r ((generatedBy st st' env o).words.length + n)) ∧
      ∃ S', Tracks st' (some S') := by
  obtain ⟨S', hstore, htracks⟩ := h.step_some hcall hstep
  have hvars : st.toLeafVars = S.toLeafVars := by
    obtain ⟨-, cs, ch, R⟩ := h
    exact R.vars
  have hvars' : st'.toLeafVars = S'.toLeafVars := by
    obtain ⟨-, cs, ch, R⟩ := htracks
    exact R.vars
  have hcounter : st.idCounter = S.idCounter := congrArg LeafVars.idCounter hvars
  have hcounter' : st'.idCounter = S'.idCounter := congrArg LeafVars.idCounter hvars'
  cases Store.step_draws h.1 hstore with
  | nothing hkey hcount hspan =>
      have hgen : generatedBy st st' env o = ⟨[], []⟩ := by
        unfold generatedBy
        rw [hcounter, hcounter', hcount, hspan]
        simp [idWords]
      rw [hgen]
      refine ⟨Generated.From.nothing, ?_, S', htracks⟩
      funext n
      rw [hvars, hvars']
      unfold LeafVars.word
      rw [hkey, hcount, List.length_nil, Nat.zero_add]
  | span ids slot e hdrawn hentry hparent hroot hspan =>
      obtain ⟨htrace, hid, hasParent⟩ := htracks.record hentry
      have hvalid := htracks.1.entries slot e hentry
      have hreplicate : env.random = List.replicate env.random.length r :=
        List.eq_replicate_of_mem hrandom
      rw [hreplicate, ← hvars] at hdrawn
      obtain ⟨k, hk, hlen, htraceId, hspanId, hadvance⟩ := drawIds_eq_some hdrawn
      dsimp only at htraceId hspanId hadvance
      have hsmall : ids.traceWords ≤ 2 := by
        unfold SpanIds.traceWords
        split <;> omega
      have hcount : (st'.idCounter - st.idCounter).toNat = ids.traceWords + (k + 1) := by
        have hmoved : st'.idCounter =
            st.idCounter + UInt64.ofNat (ids.traceWords + (k + 1)) := by
          rw [hcounter', hadvance]
          rfl
        have hfits : ids.traceWords + (k + 1) < UInt64.size :=
          Nat.lt_of_le_of_lt (show _ ≤ 4 by omega) (by decide)
        rw [hmoved, UInt64.add_comm, UInt64.add_sub_cancel, UInt64.toNat_ofNat_of_lt' hfits]
      have hwords : (generatedBy st st' env o).words =
          (List.range (ids.traceWords + (k + 1))).map (st.toLeafVars.word r) := by
        unfold generatedBy
        rw [hcount, hreplicate, List.take_replicate, Nat.min_eq_left hlen, idWords_replicate]
      have hspans : (generatedBy st st' env o).spans = [getSlot st' slot] := by
        unfold generatedBy
        rw [hspan, Option.map_some, mkHandle_index, Option.toList_some]
      have hlength : (generatedBy st st' env o).words.length = ids.traceWords + (k + 1) := by
        rw [hwords, List.length_map, List.length_range]
      refine ⟨⟨?_, ?_, ?_, ?_⟩, ?_, S', htracks⟩
      · rw [hlength, hwords]
      · rw [hspans, hwords, List.map_singleton, List.singleton_sublist, hid, hspanId]
        apply List.mem_map_of_mem
        apply List.mem_map_of_mem
        exact List.mem_range.mpr (by omega)
      · unfold Generated.roots
        rw [hspans]
        by_cases hchild : e.parent.isSome = true
        · have hfilter : [getSlot st' slot].filter (fun r => !r.hasParent) = [] := by
            simp [hasParent, hchild]
          rw [hfilter]
          exact List.nil_sublist _
        · have hfilter : [getSlot st' slot].filter (fun r => !r.hasParent) =
              [getSlot st' slot] := by
            simp [hasParent, hchild]
          have hnone : ids.parentId = none := by
            rw [← hparent]
            simpa using hchild
          have hbytes := htraceId (hroot hnone)
          rw [hfilter, hwords, List.map_singleton, List.singleton_sublist, htrace, hbytes,
            List.map_map, List.mem_map]
          refine ⟨0, List.mem_range.mpr (by omega), ?_⟩
          rw [Vector.toList_append, List.take_append_of_le_length (by simp), Function.comp_apply]
          exact (List.take_of_length_le (by simp)).symm
      · intro s hs
        rw [hspans] at hs
        obtain rfl := List.mem_singleton.mp hs
        rw [htrace, hid]
        exact ⟨hvalid.traceId_ne, hvalid.spanId_ne⟩
      · funext n
        rw [hlength, hvars', hadvance, LeafVars.word_advance]

/-- Run lemma: so does every boot. -/
theorem Tracks.generated_from (h : Tracks st (some S)) {r : UInt64}
    {calls : List (Callbacks × Call)} (hrandom : ∀ x ∈ calls, ∀ word ∈ x.1.random, word = r) :
    (generated w st calls).From (st.toLeafVars.word r) := by
  induction calls generalizing st S with
  | nil => exact Generated.From.nothing
  | cons x calls ih =>
      obtain ⟨env, call⟩ := x
      have hhere := hrandom (env, call) List.mem_cons_self
      have hthere := fun x hx => hrandom x (List.mem_cons_of_mem _ hx)
      by_cases hcall : call = .free
      · rw [hcall]
        exact Generated.From.nothing
      · cases hstep : Leaf.step w st env call with
        | none =>
            have hgen : generated w st ((env, call) :: calls) = ⟨[], []⟩ := by
              conv_lhs => unfold generated
              rw [hstep]
              cases call <;> rfl
            rw [hgen]
            exact Generated.From.nothing
        | some p =>
            obtain ⟨st', o⟩ := p
            have hgen : generated w st ((env, call) :: calls) =
                (generatedBy st st' env o).append (generated w st' calls) := by
              conv_lhs => unfold generated
              rw [hstep]
              cases call with
              | free => exact absurd rfl hcall
              | _ => rfl
            obtain ⟨hfirst, hstream, S', htracks⟩ := h.generatedBy_from hhere hcall hstep
            have hrest := ih htracks hthere
            rw [hstream] at hrest
            rw [hgen]
            exact hfirst.append hrest

/-- Ids on the weakest random source: whatever the device key and the one word
it answers, both loops end within two rounds, and a boot of fewer than 2^64
draws repeats no word, no span id and no trace id of a root. -/
theorem boot_ids {leaf st₀ : LeafState} {leafSize bufferSize : Nat} {config : Option Config}
    {buffer buffer' : Option ByteMemory.Mem} {calls : List (Callbacks × Call)} (key r : UInt64)
    (hinit : init w leaf leafSize config buffer bufferSize = (.ok, st₀, buffer'))
    (hrandom : ∀ x ∈ calls, ∀ word ∈ x.1.random, word = r)
    (hfew : (generated w { st₀ with deviceKey := key } calls).words.length < 2 ^ 64) :
    Function.Bijective splitmix64 ∧
      (∀ (v : LeafVars) (n : Nat), ∃ id v',
        newTraceId v (List.replicate (n + 2) r) = some (id, v', List.replicate n r)) ∧
      (∀ (v : LeafVars) (n : Nat), ∃ id v', ∃ k ≤ 1,
        newSpanId v (List.replicate (n + 2) r) = some (id, v', List.replicate (n + k) r)) ∧
      (generated w { st₀ with deviceKey := key } calls).words.Nodup ∧
      (∀ s ∈ (generated w { st₀ with deviceKey := key } calls).spans,
        allZero s.traceId.toList = false ∧ allZero s.spanId.toList = false) ∧
      ((generated w { st₀ with deviceKey := key } calls).spans.map SpanRec.spanId).Nodup ∧
      ((generated w { st₀ with deviceKey := key } calls).roots.map SpanRec.traceId).Nodup := by
  obtain ⟨c, -, -, V, cs, ch, R⟩ := Tracks.init hinit
  have hkeyed : Tracks { st₀ with deviceKey := key }
      (some { Store.init c (min bufferSize maxBuffer) with
        toLeafVars := { st₀.toLeafVars with deviceKey := key } }) :=
    ⟨V.withVars _, cs, ch, R.withVars { st₀.toLeafVars with deviceKey := key }⟩
  have hfrom := hkeyed.generated_from (w := w) hrandom
  obtain ⟨hwords, hspans, hroots⟩ := hfrom.distinct (wordAt_injOn _ r) hfew
  refine ⟨splitmix64_bijective, ?_, ?_, hwords, hfrom.nonzero, hspans, hroots⟩
  · intro v n
    exact ⟨_, _, newTraceId_replicate v r n⟩
  · intro v n
    have hspan := newSpanId_replicate v r n
    by_cases hzero : v.word r 0 = 0
    · rw [if_pos hzero] at hspan
      exact ⟨_, _, 0, by omega, hspan⟩
    · rw [if_neg hzero] at hspan
      exact ⟨_, _, 1, by omega, hspan⟩

end Boots

/-- The answer that makes the third word of a device with key zero vanish. -/
def unluckyWord : UInt64 := splitmix64 2

/-- Two roots, the second with a child, from a source stuck at `unluckyWord`. -/
def stuckCalls : List (Callbacks × Call) :=
  [(⟨100, List.replicate 4 unluckyWord⟩, .spanStart false (.items []) (some .internal) none),
    (⟨101, List.replicate 4 unluckyWord⟩, .spanStart false (.items []) (some .internal) none),
    (⟨102, List.replicate 4 unluckyWord⟩,
      .spanStart false (.items []) (some .internal) (some 0x20001))]

theorem boot_ids_stuck :
    (generated Word32.wrap { pumpInit.2.1 with deviceKey := 0 } stuckCalls).words.length = 8 ∧
      (generated Word32.wrap { pumpInit.2.1 with deviceKey := 0 } stuckCalls).roots.length = 2 ∧
      ((generated Word32.wrap { pumpInit.2.1 with deviceKey := 0 } stuckCalls).spans.map
        SpanRec.spanId).Nodup ∧
      ((generated Word32.wrap { pumpInit.2.1 with deviceKey := 0 } stuckCalls).roots.map
        SpanRec.traceId).Nodup := by
  have hlength :
      (generated Word32.wrap { pumpInit.2.1 with deviceKey := 0 } stuckCalls).words.length = 8 := by
    decide +kernel
  have hroots :
      (generated Word32.wrap { pumpInit.2.1 with deviceKey := 0 } stuckCalls).roots.length = 2 := by
    decide +kernel
  have hrandom : ∀ x ∈ stuckCalls, ∀ word ∈ x.1.random, word = unluckyWord := by
    intro x hx word hword
    have hall : ∀ x ∈ stuckCalls, x.1.random = List.replicate 4 unluckyWord := by decide
    rw [hall x hx] at hword
    exact List.eq_of_mem_replicate hword
  have hfew : (generated Word32.wrap { pumpInit.2.1 with deviceKey := 0 }
      stuckCalls).words.length < 2 ^ 64 := by
    rw [hlength]
    decide
  have hids := boot_ids 0 unluckyWord pumpInit_ok hrandom hfew
  exact ⟨hlength, hroots, hids.2.2.2.2.2.1, hids.2.2.2.2.2.2⟩

end Microtel.Leaf
