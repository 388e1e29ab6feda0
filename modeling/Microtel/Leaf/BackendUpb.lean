import Microtel.Leaf.EncodedSize
import Microtel.Wire.UpbMessages

/-!
The upb backend (`leaf/src/backend_upb.c`): the request it builds with the generated accessors,
its entry point, and that it delivers what the nanopb backend does. An arena is what it answers
to one request after the other, of which its creation is the first.
-/

namespace Microtel.Leaf

open Requests

/-! ### Arrays -/

/-- `upb_Array`: its submessages and its capacity. -/
structure SubArray (M : Type) where
  items : List M
  capacity : Nat

/-- The capacity that `_upb_Array_Realloc` asks for. -/
def reallocCapacity (capacity size : Nat) : Nat :=
  Loop.whileLoop (fun n => decide (n < size)) (fun n => n * 2) size (max capacity 4)

section

variable (arena : Allocator UInt8) {α M : Type}

/-- `upb_Message_GetOrCreateMutableArray`. -/
def getOrCreate : Option (SubArray M) → Building Status (SubArray M)
  | some arr => pure arr
  | none => do
      request arena .errEncode
      return { items := [], capacity := 4 }

/-- `_upb_Array_ResizeUninitialized`, as far as the capacity goes. -/
def reserveCapacity (size : Nat) (arr : SubArray M) : Building Status (SubArray M) :=
  if arr.capacity < size then do
    request arena .errEncode
    return { arr with capacity := reallocCapacity arr.capacity size }
  else pure arr

/-- An `add_` accessor and what fills the message it returns. -/
def addMessage (fill : Building Status M) (arr : Option (SubArray M)) :
    Building Status (SubArray M) := do
  let arr ← getOrCreate arena arr
  let arr ← reserveCapacity arena (arr.items.length + 1) arr
  request arena .errEncode
  let m ← fill
  return { arr with items := arr.items ++ [m] }

/-- The loops over a cursor: a message for each item. -/
def addEach (fill : α → Building Status M) : Option (SubArray M) → List α → Building Status (List M)
  | arr, [] => pure (arr.elim [] SubArray.items)
  | arr, x :: xs => do
      let arr ← addMessage arena (fill x) arr
      addEach fill (some arr) xs

/-! ### Building the request -/

def setValue : AttrValue → Wire.Upb.AnyValue
  | .bool b => .bool b
  | .int64 i => .int i
  | .double d => .double d
  | .string s => .string s

def setKv (kv : Attr) : Building Status Wire.Upb.KeyValue := do
  request arena .errEncode
  return { key := kv.key, value := some (setValue kv.value) }

def buildResource (v : BatchView) : Building Status (List Wire.Upb.KeyValue) := do
  request arena .errEncode
  addEach arena (setKv arena) none v.resource

def buildEvent (ev : EventView) : Building Status Wire.Upb.Event := do
  let attributes ← addEach arena (setKv arena) none ev.attrs
  return { timeUnixNano := ev.timeUnixNano, name := ev.name, attributes }

def buildStatus (s : SpanView) : Building Status (Option Wire.Upb.Status) :=
  if s.hasStatus then do
    request arena .errEncode
    return some { message := s.statusMessage, code := Int32.ofNat s.statusCode.toNat }
  else pure none

/-- `set_span_scalars`. -/
def spanScalars (s : SpanView) : Wire.Upb.Span where
  traceId := s.traceId.toList
  spanId := s.spanId.toList
  parentSpanId := s.parentSpanId.elim [] Vector.toList
  name := s.name
  kind := Int32.ofNat s.kind.toNat
  startTimeUnixNano := s.startTimeUnixNano
  endTimeUnixNano := s.endTimeUnixNano

def buildSpan (s : SpanView) : Building Status Wire.Upb.Span := do
  let attributes ← addEach arena (setKv arena) none s.attrs
  let events ← addEach arena (buildEvent arena) none s.events
  let status ← buildStatus arena s
  return { spanScalars s with attributes, events, status }

def buildScopeSpans (v : BatchView) : Building Status Wire.Upb.ScopeSpans := do
  request arena .errEncode
  let spans ← addEach arena (buildSpan arena) none v.spans
  return { scope := some { name := v.scopeName, version := v.scopeVersion }, spans }

def buildResourceSpans (v : BatchView) : Building Status Wire.Upb.ResourceSpans := do
  let resource ← buildResource arena v
  let scopeSpans ← addEach arena (buildScopeSpans arena) none [v]
  return { resource := some resource, scopeSpans }

/-- The arena and the request in it. -/
def buildRequest (v : BatchView) : Building Status Wire.Upb.Request := do
  request arena .errEncode
  request arena .errEncode
  let resourceSpans ← addEach arena (buildResourceSpans arena) none [v]
  return { resourceSpans }

/-! ### Entry point -/

/-- The payload in one write. -/
def deliver (sink : Sink) (bytes : Bytes) : Encoded :=
  match sink with
  | .write takes =>
      if takes [] bytes then ⟨.ok, bytes.length, [bytes]⟩ else ⟨.errEncode, 0, []⟩
  | .buffer cap =>
      if bytes.length > cap then ⟨.errBufferSmall, bytes.length, []⟩
      else ⟨.ok, bytes.length, [bytes]⟩

def encodeUpb (v : BatchView) (sink : Sink) : Encoded :=
  match buildRequest arena v 0 with
  | .error e => ⟨e, 0, []⟩
  | .ok (req, requests) =>
      match Wire.UpbEncode.encode arena requests req.toMessage with
      | .error _ => ⟨.errEncode, 0, []⟩
      | .ok b => deliver sink b.data

end

/-! ### What is built -/

variable {arena : Allocator UInt8} {α M : Type}

theorem builds_getOrCreate (arena : Allocator UInt8) (arr : Option (SubArray M)) :
    ∃ made : SubArray M, made.items = arr.elim [] SubArray.items ∧
      Builds arena .errEncode (getOrCreate arena arr) made := by
  cases arr with
  | none => exact ⟨_, rfl, builds_bind builds_request (builds_pure _)⟩
  | some arr => exact ⟨arr, rfl, builds_pure arr⟩

theorem builds_reserveCapacity (arena : Allocator UInt8) (size : Nat) (arr : SubArray M) :
    ∃ made : SubArray M, made.items = arr.items ∧
      Builds arena .errEncode (reserveCapacity arena size arr) made := by
  rw [reserveCapacity]
  split
  · refine ⟨{ arr with capacity := reallocCapacity arr.capacity size }, rfl, ?_⟩
    exact builds_bind builds_request (builds_pure _)
  · exact ⟨arr, rfl, builds_pure arr⟩

theorem builds_addMessage {fill : Building Status M} {m : M}
    (hfill : Builds arena .errEncode fill m) (arr : Option (SubArray M)) :
    ∃ made : SubArray M, made.items = arr.elim [] SubArray.items ++ [m] ∧
      Builds arena .errEncode (addMessage arena fill arr) made := by
  obtain ⟨first, hfirst, hcreate⟩ := builds_getOrCreate arena arr
  obtain ⟨second, hsecond, hresize⟩ :=
    builds_reserveCapacity arena (first.items.length + 1) first
  refine ⟨{ second with items := second.items ++ [m] }, by rw [hsecond, hfirst], ?_⟩
  exact builds_bind hcreate (builds_bind hresize
    (builds_bind builds_request (builds_bind hfill (builds_pure _))))

/-- A loop builds the messages of its items behind those that are there. -/
theorem builds_addEach {fill : α → Building Status M} {message : α → M} {items : List α}
    (h : ∀ x ∈ items, Builds arena .errEncode (fill x) (message x)) (arr : Option (SubArray M)) :
    Builds arena .errEncode (addEach arena fill arr items)
      (arr.elim [] SubArray.items ++ items.map message) := by
  induction items generalizing arr with
  | nil =>
      rw [List.map_nil, List.append_nil]
      exact builds_pure _
  | cons x xs ih =>
      obtain ⟨hx, hxs⟩ := List.forall_mem_cons.mp h
      obtain ⟨made, hmade, hadd⟩ := builds_addMessage hx arr
      have hrest := ih hxs (some made)
      have hitems : (some made).elim [] SubArray.items ++ xs.map message =
          arr.elim [] SubArray.items ++ (x :: xs).map message := by
        change made.items ++ _ = _
        rw [hmade, List.map_cons, List.append_assoc, List.singleton_append]
      rw [hitems] at hrest
      exact builds_bind hadd hrest

theorem builds_all {fill : α → Building Status M} {message : α → M} {items : List α}
    (h : ∀ x ∈ items, Builds arena .errEncode (fill x) (message x)) :
    Builds arena .errEncode (addEach arena fill none items) (items.map message) :=
  builds_addEach h none

theorem builds_setKv (kv : Attr) :
    Builds arena .errEncode (setKv arena kv) (Wire.leafAttribute kv) := by
  have hvalue : setValue kv.value = Wire.leafValue kv.value := by
    cases kv.value <;> rfl
  have hkv : Wire.leafAttribute kv = { key := kv.key, value := some (setValue kv.value) } := by
    rw [hvalue]
    rfl
  rw [hkv]
  exact builds_bind builds_request (builds_pure _)

theorem builds_attributes (attrs : List Attr) :
    Builds arena .errEncode (addEach arena (setKv arena) none attrs)
      (attrs.map Wire.leafAttribute) :=
  builds_all fun kv _ => builds_setKv kv

theorem builds_event (ev : EventView) :
    Builds arena .errEncode (buildEvent arena ev) (Wire.leafEvent ev) :=
  builds_bind (builds_attributes ev.attrs) (builds_pure _)

theorem builds_status (s : SpanView) :
    Builds arena .errEncode (buildStatus arena s) (Wire.leafStatus s) := by
  rw [buildStatus, Wire.leafStatus]
  split
  · exact builds_bind builds_request (builds_pure _)
  · exact builds_pure _

theorem builds_span (s : SpanView) :
    Builds arena .errEncode (buildSpan arena s) (Wire.leafSpan s) := by
  have hspan : Wire.leafSpan s =
      { spanScalars s with
        attributes := s.attrs.map Wire.leafAttribute
        events := s.events.map Wire.leafEvent
        status := Wire.leafStatus s } := by
    rw [Wire.leafSpan, spanScalars]
    cases s.parentSpanId <;> rfl
  have hevents : Builds arena .errEncode (addEach arena (buildEvent arena) none s.events)
      (s.events.map Wire.leafEvent) := builds_all fun ev _ => builds_event ev
  rw [hspan]
  exact builds_bind (builds_attributes s.attrs)
    (builds_bind hevents (builds_bind (builds_status s) (builds_pure _)))

theorem builds_scopeSpans (v : BatchView) :
    Builds arena .errEncode (buildScopeSpans arena v) (leafScopeSpans v) := by
  have hspans : Builds arena .errEncode (addEach arena (buildSpan arena) none v.spans)
      (v.spans.map Wire.leafSpan) := builds_all fun s _ => builds_span s
  exact builds_bind builds_request (builds_bind hspans (builds_pure _))

theorem builds_resourceSpans (v : BatchView) :
    Builds arena .errEncode (buildResourceSpans arena v) (leafResourceSpans v) := by
  have hresource : Builds arena .errEncode (buildResource arena v)
      (v.resource.map Wire.leafAttribute) :=
    builds_bind builds_request (builds_attributes v.resource)
  have hscopes : Builds arena .errEncode (addEach arena (buildScopeSpans arena) none [v])
      ([v].map leafScopeSpans) := builds_all fun w _ => builds_scopeSpans w
  exact builds_bind hresource (builds_bind hscopes (builds_pure _))

/-- The request is the message of the batch, or the arena refused. -/
theorem builds_request_of (v : BatchView) :
    Builds arena .errEncode (buildRequest arena v) (Wire.leafMessage v) := by
  have hresources : Builds arena .errEncode (addEach arena (buildResourceSpans arena) none [v])
      ([v].map leafResourceSpans) := builds_all fun w _ => builds_resourceSpans w
  exact builds_bind builds_request
    (builds_bind builds_request (builds_bind hresources (builds_pure _)))

/-! ### What the sink gets -/

/-- The attribute values of a leaf are scalars. -/
theorem leafMessage_levels (v : BatchView) : (Wire.leafMessage v).Levels 1 := by
  have hkv : ∀ attrs : List Attr, ∀ kv ∈ attrs.map Wire.leafAttribute, kv.Levels 1 := by
    intro attrs kv hkv value hvalue
    obtain ⟨a, -, rfl⟩ := List.mem_map.mp hkv
    obtain rfl := Option.some.inj hvalue
    cases a.value <;> exact Wire.Upb.fits_mk fun _ hm => absurd hm List.not_mem_nil
  have hevents : ∀ events : List EventView, ∀ e ∈ events.map Wire.leafEvent, e.Levels 1 := by
    intro events e he
    obtain ⟨ev, -, rfl⟩ := List.mem_map.mp he
    exact hkv ev.attrs
  have hspan : ∀ s : SpanView, (Wire.leafSpan s).Levels 1 := fun s =>
    ⟨hkv s.attrs, hevents s.events, fun _ hl => absurd hl List.not_mem_nil⟩
  refine List.forall_mem_singleton.mpr ⟨?_, List.forall_mem_singleton.mpr ?_⟩
  · intro kvs hkvs
    obtain rfl := Option.some.inj hkvs
    exact hkv v.resource
  · intro s hs
    obtain ⟨view, -, rfl⟩ := List.mem_map.mp hs
    exact hspan view

/-- The sink gets the text of the message, or the arena refused and the sink gets nothing. -/
theorem encodeUpb_spec {v : BatchView}
    (hlength : (Wire.leafMessage v).text.length + 10 ≤ 2 ^ 63) (sink : Sink) :
    encodeUpb arena v sink = deliver sink (Wire.leafMessage v).text ∨
      Refused arena 0 ∧ encodeUpb arena v sink = ⟨.errEncode, 0, []⟩ := by
  have htext := (Wire.leafMessage v).toMessage_text
  have hfits : Wire.UpbEncode.Fits Wire.UpbEncode.defaultDepthLimit
      (Wire.leafMessage v).toMessage :=
    (Wire.Upb.Request.fits (leafMessage_levels v)).mono (by decide)
  have hbuilds : Builds arena Status.errEncode _ _ := builds_request_of v
  replace hbuilds := hbuilds 0
  rw [encodeUpb]
  cases hrun : buildRequest arena v 0 with
  | error e =>
      rw [hrun] at hbuilds
      obtain ⟨rfl, hrefused⟩ := hbuilds
      exact .inr ⟨hrefused, rfl⟩
  | ok built =>
      obtain ⟨req, requests⟩ := built
      rw [hrun] at hbuilds
      obtain ⟨rfl, hgranted⟩ := hbuilds
      dsimp only
      rw [← htext] at hlength
      rcases Wire.UpbEncode.encode_outcome arena requests _ hlength with
        ⟨b, hencode, hdata, -, -⟩ | ⟨hencode, hrefused⟩ | ⟨-, hdeep⟩
      · rw [hencode, ← htext, ← hdata]
        exact .inl rfl
      · rw [hencode]
        exact .inr ⟨hgranted.refused hrefused, rfl⟩
      · exact absurd hfits hdeep

/-- An arena that never runs out. -/
theorem encodeUpb_generous (harena : Generous arena) {v : BatchView}
    (hlength : (Wire.leafMessage v).text.length + 10 ≤ 2 ^ 63) (sink : Sink) :
    encodeUpb arena v sink = deliver sink (Wire.leafMessage v).text :=
  (encodeUpb_spec hlength sink).resolve_right fun hrefused =>
    harena.not_refused 0 hrefused.1

theorem deliver_buffer_ok {bytes : Bytes} {cap : Nat} (h : bytes.length ≤ cap) :
    deliver (.buffer cap) bytes = ⟨.ok, bytes.length, [bytes]⟩ :=
  if_neg (Nat.not_lt.mpr h)

theorem deliver_buffer_small {bytes : Bytes} {cap : Nat} (h : cap < bytes.length) :
    deliver (.buffer cap) bytes = ⟨.errBufferSmall, bytes.length, []⟩ :=
  if_pos h

/-- A callback that was given the payload has all of it. -/
theorem deliver_write_ok {bytes : Bytes} {takes : List Bytes → Bytes → Bool}
    (h : (deliver (.write takes) bytes).status = .ok) :
    deliver (.write takes) bytes = ⟨.ok, bytes.length, [bytes]⟩ := by
  rw [deliver] at h ⊢
  by_cases htaken : takes [] bytes = true
  · exact if_pos htaken
  · rw [if_neg htaken] at h
    cases h

/-- The two backends make the same of a batch. -/
structure Agree (upb nanopb : Sink → Encoded) : Prop where
  /-- The same status and size for every buffer, and the same bytes in it. -/
  buffer : ∀ cap, (upb (.buffer cap)).status = (nanopb (.buffer cap)).status ∧
    (upb (.buffer cap)).written = (nanopb (.buffer cap)).written ∧
    ((upb (.buffer cap)).status = .ok →
      (upb (.buffer cap)).pieces.flatten = (nanopb (.buffer cap)).pieces.flatten)
  /-- Callbacks that are given a whole payload are given the same. -/
  write : ∀ takes takes', (upb (.write takes)).status = .ok →
    (nanopb (.write takes')).status = .ok →
      (upb (.write takes)).written = (nanopb (.write takes')).written ∧
      (upb (.write takes)).pieces.flatten = (nanopb (.write takes')).pieces.flatten
  /-- A callback that takes everything is given a whole payload by both. -/
  taken : ∀ takes, (∀ before piece, takes before piece = true) →
    (upb (.write takes)).status = .ok ∧ (nanopb (.write takes)).status = .ok

theorem encodeNanopb_written {sizeMax : Nat} (hsize : sizeMax ≤ 2 ^ 64) {v : BatchView}
    (h : v.Keyed) (hlength : (Wire.leafMessage v).text.length < sizeMax)
    {takes : List Bytes → Bytes → Bool}
    (hok : (encodeNanopb sizeMax v (.write takes)).status = .ok) :
    (encodeNanopb sizeMax v (.write takes)).written = (Wire.leafMessage v).text.length ∧
      (encodeNanopb sizeMax v (.write takes)).pieces.flatten = (Wire.leafMessage v).text := by
  obtain ⟨pieces, htext, -, hsink⟩ := encodeNanopb_write hsize h hlength
  obtain ⟨hall, hrefused⟩ := hsink takes
  by_cases htaken : OutStream.Taken takes [] pieces
  · rw [hall htaken]
    exact ⟨rfl, htext⟩
  · obtain ⟨part, piece, more, -, -, -, hencoded⟩ := hrefused htaken
    rw [hencoded] at hok
    cases hok

theorem agree {sizeMax : Nat} (hsize : sizeMax ≤ 2 ^ 64) (harena : Generous arena) {v : BatchView}
    (h : v.Keyed) (hlength : (Wire.leafMessage v).text.length < sizeMax)
    (hshort : (Wire.leafMessage v).text.length + 10 ≤ 2 ^ 63) :
    Agree (encodeUpb arena v) (encodeNanopb sizeMax v) where
  buffer cap := by
    obtain ⟨hwritten, hfits, hsmall⟩ := encodeNanopb_buffer hsize h hlength cap
    rw [encodeUpb_generous harena hshort]
    by_cases hcap : (Wire.leafMessage v).text.length ≤ cap
    · obtain ⟨hstatus, htext⟩ := hfits hcap
      rw [deliver_buffer_ok hcap]
      exact ⟨hstatus.symm, hwritten.symm, fun _ => by rw [htext]; exact List.append_nil _⟩
    · obtain ⟨hstatus, -, -⟩ := hsmall (by omega)
      rw [deliver_buffer_small (by omega)]
      exact ⟨hstatus.symm, hwritten.symm, fun hok => by cases hok⟩
  write takes takes' hupb hnanopb := by
    obtain ⟨hwritten, htext⟩ := encodeNanopb_written hsize h hlength hnanopb
    rw [encodeUpb_generous harena hshort] at hupb ⊢
    rw [deliver_write_ok hupb, hwritten, htext]
    exact ⟨rfl, List.append_nil _⟩
  taken takes htakes := by
    obtain ⟨pieces, -, -, hsink⟩ := encodeNanopb_write hsize h hlength
    have htaken := (hsink takes).1 (OutStream.taken_of_all htakes [] pieces)
    rw [encodeUpb_generous harena hshort, htaken, deliver, if_pos (htakes _ _)]
    exact ⟨rfl, rfl⟩

/-! ### After any run -/

section

variable {w : Word32} {leaf st₀ st : LeafState} {leafSize bufferSize : Nat} {config : Option Config}
  {buffer buffer' : Option ByteMemory.Mem} {calls : List (Callbacks × Call)} {os : List Outcome}

/-- Twice the buffer and a little more. -/
theorem text_of_run
    (hinit : init w leaf leafSize config buffer bufferSize = (.ok, st₀, buffer'))
    (hrun : run w st₀ calls = some (st, os)) (hlive : checkLeaf st = .ok) (env : Callbacks) :
    (Wire.leafMessage (batchView w st env)).text.length < 2 ^ 34 := by
  have hroom : 2 * st.bufSize.toNat + 512 < 2 ^ 34 := by
    have hbuf := st.bufSize.toNat_lt
    omega
  obtain ⟨-, hle, hless⟩ := batch_of_run hinit hrun hlive hroom env
  exact Nat.lt_of_le_of_lt hle hless

/-- After any run both backends make the same bytes of the batch and report the same status and
size, and the leaf goes on in the same state. -/
theorem backends_agree
    (hinit : init w leaf leafSize config buffer bufferSize = (.ok, st₀, buffer'))
    (hrun : run w st₀ calls = some (st, os)) (hlive : checkLeaf st = .ok) {sizeMax : Nat}
    (hsize : sizeMax ≤ 2 ^ 64) (hroom : 2 * st.bufSize.toNat + 512 < sizeMax) (env : Callbacks)
    (harena : Generous arena) :
    Agree (encodeUpb arena (batchView w st env)) (encodeNanopb sizeMax (batchView w st env)) ∧
      ∀ cap, (encode w st env true fun v => (encodeUpb arena v (.buffer cap)).status) =
        encode w st env true fun v => (encodeNanopb sizeMax v (.buffer cap)).status := by
  obtain ⟨hkeyed, hle, hless⟩ := batch_of_run hinit hrun hlive hroom env
  have hshort := text_of_run hinit hrun hlive env
  have hagree := agree hsize harena hkeyed (by omega) (by omega)
  refine ⟨hagree, fun cap => ?_⟩
  rw [encode_live hlive, encode_live hlive, (hagree.buffer cap).1]

/-- After any run, with any arena: the upb backend hands the whole text to the sink in one write,
or the arena refused a request, and then nothing is written and the leaf keeps its spans. -/
theorem encode_with_scratch
    (hinit : init w leaf leafSize config buffer bufferSize = (.ok, st₀, buffer'))
    (hrun : run w st₀ calls = some (st, os)) (hlive : checkLeaf st = .ok)
    (env : Callbacks) (arena : Allocator UInt8) (sink : Sink) :
    encodeUpb arena (batchView w st env) sink =
        deliver sink (Wire.leafMessage (batchView w st env)).text ∨
      Refused arena 0 ∧ encodeUpb arena (batchView w st env) sink = ⟨.errEncode, 0, []⟩ ∧
        (encode w st env true fun v => (encodeUpb arena v sink).status) = (st, .errEncode) := by
  have hlength := text_of_run hinit hrun hlive env
  have hshort : (Wire.leafMessage (batchView w st env)).text.length + 10 ≤ 2 ^ 63 := by omega
  rcases encodeUpb_spec hshort sink with hdelivered | ⟨hrefused, hencoded⟩
  · exact .inl hdelivered
  · refine .inr ⟨hrefused, hencoded, ?_⟩
    rw [encode_live hlive, hencoded]
    rfl

end

theorem backends_agree_pump :
    ∃ st os, run Word32.wrap pumpInit.2.1 pumpCalls = some (st, os) ∧
      Agree (encodeUpb Wire.UpbEncode.zeros (batchView Word32.wrap st pumpEnv))
        (encodeNanopb (2 ^ 64) (batchView Word32.wrap st pumpEnv)) := by
  obtain ⟨st, os, hrun, hlive, hroom⟩ := pump_reached
  exact ⟨st, os, hrun,
    (backends_agree pumpInit_ok hrun hlive (Nat.le_refl _) hroom pumpEnv
      Wire.UpbEncode.zeros_generous).1⟩

/-- The status of a buffer is never that of a failed encode. -/
theorem deliver_buffer_status (bytes : Bytes) (cap : Nat) :
    (deliver (.buffer cap) bytes).status ≠ .errEncode := by
  by_cases h : bytes.length ≤ cap
  · rw [deliver_buffer_ok h]
    exact Status.noConfusion
  · rw [deliver_buffer_small (Nat.lt_of_not_le h)]
    exact Status.noConfusion

/-- An arena in a scratch buffer that has no room for anything. -/
theorem encode_with_scratch_pump :
    ∃ st os, run Word32.wrap pumpInit.2.1 pumpCalls = some (st, os) ∧
      encodeUpb (fun _ => none) (batchView Word32.wrap st pumpEnv) (.buffer 4096) =
        ⟨.errEncode, 0, []⟩ ∧
      (encode Word32.wrap st pumpEnv true fun v =>
        (encodeUpb (fun _ => none) v (.buffer 4096)).status) = (st, .errEncode) := by
  obtain ⟨st, os, hrun, hlive, -⟩ := pump_reached
  refine ⟨st, os, hrun, ?_⟩
  rcases encode_with_scratch pumpInit_ok hrun hlive pumpEnv (fun _ => none) (.buffer 4096) with
    hdelivered | ⟨-, hencoded⟩
  · have hrefused : (encodeUpb (fun _ => none) (batchView Word32.wrap st pumpEnv)
        (.buffer 4096)).status = .errEncode := rfl
    rw [hdelivered] at hrefused
    exact absurd hrefused (deliver_buffer_status _ _)
  · exact hencoded

end Microtel.Leaf
