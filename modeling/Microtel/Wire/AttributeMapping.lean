import Microtel.Api.PropagatorLaws
import Microtel.Wire.OtlpTraceDecoder

/-!
What the trace decoder makes of attribute values, against the mapping its design
documents: scalars as they are, octets as hex text, an array when its elements are
of one scalar kind, nothing else. The decoder differs in one place. An array that
starts with a string is collected through the conversion of scalars, which has
turned octets into text before their kind is looked at.
-/

namespace Microtel.Wire

open Octets

/-! ### The documented mapping -/

def asString : Upb.AnyValue → Option Bytes
  | .string v => some v
  | _ => none

def asBool : Upb.AnyValue → Option Bool
  | .bool v => some v
  | _ => none

def asInt : Upb.AnyValue → Option Int64
  | .int v => some v
  | _ => none

def asDouble : Upb.AnyValue → Option UInt64
  | .double bits => some bits
  | _ => none

/-- An array of one kind of element, in order. The empty one is of strings. -/
def homogeneous (values : List Upb.AnyValue) : Option AttributeValue :=
  (values.mapM asString).map .strings <|> (values.mapM asBool).map .bools <|>
    (values.mapM asInt).map .ints <|> (values.mapM asDouble).map .doubles

def documented : Option Upb.AnyValue → Option AttributeValue
  | some (.string v) => some (.string v)
  | some (.bool v) => some (.bool v)
  | some (.int v) => some (.int v)
  | some (.double bits) => some (.double bits)
  | some (.bytes v) => some (.string (hex v))
  | some (.array values) => homogeneous values
  | _ => none

def IsText : Upb.AnyValue → Prop
  | .string _ | .bytes _ => True
  | _ => False

def IsBytes : Upb.AnyValue → Prop
  | .bytes _ => True
  | _ => False

/-- An array that starts with a string and goes on with strings and octets. -/
def OctetsAmongStrings : Option Upb.AnyValue → Prop
  | some (.array (.string _ :: values)) => (∀ v ∈ values, IsText v) ∧ ∃ v ∈ values, IsBytes v
  | _ => False

/-! ### One value -/

theorem OctetsAmongStrings.exists_array {value : Option Upb.AnyValue}
    (h : OctetsAmongStrings value) :
    ∃ s values, value = some (.array (.string s :: values)) := by
  cases value with
  | none => exact absurd h id
  | some v =>
      cases v with
      | array values =>
          cases values with
          | nil => exact absurd h id
          | cons v values =>
              cases v with
              | string s => exact ⟨s, values, rfl⟩
              | _ => exact absurd h id
      | _ => exact absurd h id

theorem toHex_eq (v : Bytes) : toHex v = hex v := by
  have hpair : ∀ b : UInt8, [hexDigit (b >>> 4), hexDigit (b &&& 15)] = pair b := by
    have hdigit : ∀ n < 16, hexDigit (UInt8.ofNat n) = digit n := by decide +kernel
    intro b
    rw [high_nibble, low_nibble, hdigit _ (high_lt b), hdigit _ (low_lt b)]
    rfl
  unfold toHex hex
  congr 1
  funext b
  exact hpair b

/-- What the scalar conversion reads as a string. -/
theorem bind_getString (v : Upb.AnyValue) :
    ((convertScalar v).bind getString).isSome ↔ IsText v := by
  cases v <;> simp [convertScalar, getString, IsText]

theorem bind_getBool : (fun v => (convertScalar v).bind getBool) = asBool := by
  funext v
  cases v <;> rfl

theorem bind_getInt : (fun v => (convertScalar v).bind getInt) = asInt := by
  funext v
  cases v <;> rfl

theorem bind_getDouble : (fun v => (convertScalar v).bind getDouble) = asDouble := by
  funext v
  cases v <;> rfl

theorem isSome_mapM {α β : Type} (f : α → Option β) (xs : List α) :
    (xs.mapM f).isSome ↔ ∀ x ∈ xs, (f x).isSome := by
  induction xs with
  | nil => simp
  | cons x xs ih =>
      rw [List.mapM_cons, List.forall_mem_cons, ← ih]
      cases hx : f x with
      | none => simp
      | some y =>
          cases hxs : xs.mapM f with
          | none => simp
          | some ys => simp

/-- A function that agrees with another where that one has a value. -/
theorem mapM_extends {α β : Type} {f g : α → Option β} (hfg : ∀ x y, f x = some y → g x = some y)
    {xs : List α} {ys : List β} (h : xs.mapM f = some ys) : xs.mapM g = some ys := by
  induction xs generalizing ys with
  | nil => exact h
  | cons x xs ih =>
      rw [List.mapM_cons] at h ⊢
      obtain ⟨y, hy, hrest⟩ := Option.bind_eq_some_iff.mp h
      obtain ⟨zs, hzs, hcons⟩ := Option.bind_eq_some_iff.mp hrest
      rw [hfg x y hy, ih hzs]
      exact hcons

theorem asString_isSome_iff (v : Upb.AnyValue) : (asString v).isSome ↔ IsText v ∧ ¬ IsBytes v := by
  cases v <;> simp [asString, IsText, IsBytes]

theorem homogeneous_string (s : Bytes) (values : List Upb.AnyValue) :
    homogeneous (.string s :: values) =
      ((Upb.AnyValue.string s :: values).mapM asString).map .strings := by
  simp [homogeneous, List.mapM_cons, asBool, asInt, asDouble]

/-- Only the arrays that start with a string are told apart. -/
theorem convertArray_string_iff (s : Bytes) (values : List Upb.AnyValue) :
    convertArray (.string s :: values) = homogeneous (.string s :: values) ↔
      ¬ OctetsAmongStrings (some (.array (.string s :: values))) := by
  let texts := (Upb.AnyValue.string s :: values).mapM fun v => (convertScalar v).bind getString
  have hcode : convertArray (.string s :: values) = texts.map .strings := rfl
  have hextends : ∀ x y, asString x = some y → (convertScalar x).bind getString = some y := by
    intro x y hxy
    cases x <;> simp_all [asString, convertScalar, getString]
  have htexts : texts.isSome ↔ ∀ v ∈ values, IsText v := by
    rw [isSome_mapM, List.forall_mem_cons]
    simp only [bind_getString]
    exact and_iff_right trivial
  rw [hcode, homogeneous_string]
  cases hstrings : (Upb.AnyValue.string s :: values).mapM asString with
  | some strings =>
      have hsame : texts = some strings := mapM_extends hextends hstrings
      have hall : ∀ v ∈ values, (asString v).isSome := by
        have hsome :=
          (isSome_mapM asString (Upb.AnyValue.string s :: values)).mp (by rw [hstrings]; rfl)
        exact (List.forall_mem_cons.mp hsome).2
      have hnone : ¬ OctetsAmongStrings (some (.array (.string s :: values))) := by
        rintro ⟨-, v, hv, hbytes⟩
        exact ((asString_isSome_iff v).mp (hall v hv)).2 hbytes
      rw [hsame]
      exact iff_of_true rfl hnone
  | none =>
      have hodd : ¬ ∀ v ∈ values, (asString v).isSome := by
        intro hall
        have hsome := (isSome_mapM asString (Upb.AnyValue.string s :: values)).mpr
          (List.forall_mem_cons.mpr ⟨rfl, hall⟩)
        rw [hstrings] at hsome
        exact absurd hsome (by decide)
      have hbad : OctetsAmongStrings (some (.array (.string s :: values))) ↔
          ∀ v ∈ values, IsText v := by
        constructor
        · exact fun h => h.1
        · intro htext
          refine ⟨htext, ?_⟩
          by_contra hbytes
          push Not at hbytes
          exact hodd fun v hv => (asString_isSome_iff v).mpr ⟨htext v hv, hbytes v hv⟩
      rw [hbad, ← htexts]
      cases texts <;> simp

theorem convertArray_other {values : List Upb.AnyValue} (h : ∀ s rest, values ≠ .string s :: rest) :
    convertArray values = homogeneous values := by
  cases values with
  | nil => rfl
  | cons v values =>
      cases v with
      | string s => exact absurd rfl (h s values)
      | bool v =>
          simp [convertArray, collectArray, bind_getBool, homogeneous, List.mapM_cons,
            asString, asInt, asDouble]
      | int v =>
          simp [convertArray, collectArray, bind_getInt, homogeneous, List.mapM_cons,
            asString, asBool, asDouble]
      | double bits =>
          simp [convertArray, collectArray, bind_getDouble, homogeneous, List.mapM_cons,
            asString, asBool, asInt]
      | _ => simp [convertArray, homogeneous, List.mapM_cons, asString, asBool, asInt, asDouble]

/-- A value is converted as documented unless it is an array of strings with
octets among them. -/
theorem convertValue_documented_iff (value : Option Upb.AnyValue) :
    convertValue value = documented value ↔ ¬ OctetsAmongStrings value := by
  cases value with
  | none => exact iff_of_true rfl id
  | some v =>
      cases v with
      | array values =>
          by_cases hstring : ∃ s rest, values = .string s :: rest
          · obtain ⟨s, rest, rfl⟩ := hstring
            exact convertArray_string_iff s rest
          · push Not at hstring
            refine iff_of_true (convertArray_other hstring) ?_
            intro hbad
            obtain ⟨s, rest, heq⟩ := hbad.exists_array
            rw [Option.some.injEq, Upb.AnyValue.array.injEq] at heq
            exact hstring s rest heq
      | bytes v => exact iff_of_true (congrArg (some ∘ AttributeValue.string) (toHex_eq v)) id
      | _ => exact iff_of_true rfl id

/-- The code keeps whatever is documented to be kept, with the same value. -/
theorem convertValue_of_documented {value : Option Upb.AnyValue} {v : AttributeValue}
    (h : documented value = some v) : convertValue value = some v := by
  by_cases hbad : OctetsAmongStrings value
  · obtain ⟨s, rest, rfl⟩ := hbad.exists_array
    obtain ⟨-, b, hb, hbytes⟩ := hbad
    have hodd : ¬ (asString b).isSome := fun h => ((asString_isSome_iff b).mp h).2 hbytes
    have hkept : homogeneous (.string s :: rest) = some v := h
    rw [homogeneous_string, Option.map_eq_some_iff] at hkept
    obtain ⟨strings, hstrings, -⟩ := hkept
    have hall := (isSome_mapM asString _).mp (by rw [hstrings]; rfl)
    exact absurd (hall b (List.mem_cons_of_mem _ hb)) hodd
  · rw [(convertValue_documented_iff value).mpr hbad, h]

/-! ### Lists of attributes, under any conversion -/

section
variable (f g : Option Upb.AnyValue → Option AttributeValue)

/-- The attributes with a value, in order and as often as they come. -/
def keptAttributes (kvs : List Upb.KeyValue) : List KeyValue :=
  kvs.filterMap fun kv => (f kv.value).map fun value => ⟨kv.key, value⟩

def lostAttributes (kvs : List Upb.KeyValue) : Nat := kvs.countP fun kv => (f kv.value).isNone

theorem convertAttributes_eq (kvs : List Upb.KeyValue) :
    convertAttributes kvs =
      (keptAttributes convertValue kvs, UInt64.ofNat (lostAttributes convertValue kvs)) := by
  unfold keptAttributes lostAttributes
  induction kvs with
  | nil => rfl
  | cons kv kvs ih =>
      rw [convertAttributes, ih, List.filterMap_cons, List.countP_cons]
      cases convertValue kv.value with
      | none => simp [UInt64.ofNat_add]
      | some value => simp

variable {f g}

theorem keptAttributes_cons (kv : Upb.KeyValue) (kvs : List Upb.KeyValue) :
    keptAttributes f (kv :: kvs) =
      ((f kv.value).map fun value => KeyValue.mk kv.key value).toList ++ keptAttributes f kvs := by
  unfold keptAttributes
  rw [List.filterMap_cons]
  cases f kv.value <;> rfl

/-- A conversion that keeps more keeps at least as many. -/
theorem keptAttributes_length_le (hfg : ∀ value v, g value = some v → f value = some v)
    (kvs : List Upb.KeyValue) : (keptAttributes g kvs).length ≤ (keptAttributes f kvs).length := by
  induction kvs with
  | nil => exact Nat.le_refl 0
  | cons kv kvs ih =>
      rw [keptAttributes_cons, keptAttributes_cons, List.length_append, List.length_append]
      cases hg : g kv.value with
      | none => exact Nat.le_trans (by simpa using ih) (Nat.le_add_left ..)
      | some v =>
          rw [hfg _ v hg]
          exact Nat.add_le_add_left ih _

/-- Two such conversions keep the same only where they agree on every value. -/
theorem keptAttributes_eq_iff (hfg : ∀ value v, g value = some v → f value = some v)
    (kvs : List Upb.KeyValue) :
    keptAttributes f kvs = keptAttributes g kvs ↔ ∀ kv ∈ kvs, f kv.value = g kv.value := by
  induction kvs with
  | nil => exact iff_of_true rfl (by simp)
  | cons kv kvs ih =>
      rw [List.forall_mem_cons, ← ih, keptAttributes_cons, keptAttributes_cons]
      cases hg : g kv.value with
      | some v =>
          rw [hfg _ v hg]
          simp
      | none =>
          cases hf : f kv.value with
          | none => simp
          | some v =>
              have hle := keptAttributes_length_le hfg kvs
              refine iff_of_false ?_ (by simp)
              intro heq
              have hlength := congrArg List.length heq
              simp only [Option.map_some, Option.toList_some, Option.map_none, Option.toList_none,
                List.cons_append, List.nil_append, List.length_cons] at hlength
              omega

theorem lostAttributes_congr {kvs : List Upb.KeyValue} (h : ∀ kv ∈ kvs, f kv.value = g kv.value) :
    lostAttributes f kvs = lostAttributes g kvs := by
  apply List.countP_congr
  intro kv hkv
  rw [h kv hkv]

end

/-! ### A decoded request -/

section
variable {ρ : Type} (f : Option Upb.AnyValue → Option AttributeValue)

def lostOfSpan (span : Upb.Span) : Nat :=
  lostAttributes f span.attributes
    + (span.events.map fun ev => lostAttributes f ev.attributes).sum
    + (span.links.map fun link => lostAttributes f link.attributes).sum

def lostOfScopes (scopes : List Upb.ScopeSpans) : Nat :=
  (scopes.map fun ss => (ss.spans.map (lostOfSpan f)).sum).sum

/-- The attributes of the record, of its events and of its links are those the
conversion keeps, each list in its place. -/
structure SpanMapped (span : Upb.Span) (record : SpanRecord ρ) : Prop where
  attributes : record.attributes = keptAttributes f span.attributes
  events : record.events.map (·.attributes) =
    span.events.map fun ev => keptAttributes f ev.attributes
  links : record.links.map (·.attributes) =
    span.links.map fun link => keptAttributes f link.attributes

/-- One resource with its spans under the conversion, and both counts. -/
structure ResourceMapped (rs : Upb.ResourceSpans) (out : DecodedResourceSpans ρ) : Prop where
  resource : out.resource = keptAttributes f (rs.resource.getD [])
  scopes : List.Forall₂ (fun ss s => List.Forall₂ (SpanMapped f) ss.spans s.spans)
    rs.scopeSpans out.scopes
  droppedResourceAttributes :
    out.droppedResourceAttributes = UInt64.ofNat (lostAttributes f (rs.resource.getD []))
  droppedSpanAttributes :
    out.droppedSpanAttributes = UInt64.ofNat (lostOfScopes f rs.scopeSpans)

def attributesOfSpan (span : Upb.Span) : List Upb.KeyValue :=
  span.attributes ++ span.events.flatMap (·.attributes) ++ span.links.flatMap (·.attributes)

def attributesOfScope (ss : Upb.ScopeSpans) : List Upb.KeyValue := ss.spans.flatMap attributesOfSpan

/-- Every attribute under a resource, wherever it stands. -/
def attributesOfResource (rs : Upb.ResourceSpans) : List Upb.KeyValue :=
  rs.resource.getD [] ++ rs.scopeSpans.flatMap attributesOfScope

end

/-! ### What the decoder does -/

section
variable {α β : Type} {xs : List α} {ys : List β}

theorem convertAll_spec {convert : α → Option (β × UInt64)} {R : α → β → Prop} {count : α → Nat}
    (h : ∀ x y dropped, convert x = some (y, dropped) → R x y ∧ dropped = UInt64.ofNat (count x))
    {dropped : UInt64} (hall : convertAll convert xs = some (ys, dropped)) :
    List.Forall₂ R xs ys ∧ dropped = UInt64.ofNat (xs.map count).sum := by
  induction xs generalizing ys dropped with
  | nil =>
      rw [convertAll, Option.some.injEq, Prod.mk.injEq] at hall
      obtain ⟨rfl, rfl⟩ := hall
      exact ⟨.nil, rfl⟩
  | cons x xs ih =>
      rw [convertAll] at hall
      obtain ⟨⟨y, ofHead⟩, hhead, hrest⟩ := Option.bind_eq_some_iff.mp hall
      obtain ⟨⟨zs, ofTail⟩, htail, hcons⟩ := Option.bind_eq_some_iff.mp hrest
      rw [Option.some.injEq, Prod.mk.injEq] at hcons
      obtain ⟨rfl, rfl⟩ := hcons
      obtain ⟨hy, hhead⟩ := h x y ofHead hhead
      obtain ⟨hzs, htail⟩ := ih htail
      refine ⟨.cons hy hzs, ?_⟩
      rw [hhead, htail, List.map_cons, List.sum_cons, UInt64.ofNat_add]

theorem map_eq_of_forall₂ {γ : Type} {left : α → γ} {right : β → γ}
    (h : List.Forall₂ (fun x y => right y = left x) xs ys) : ys.map right = xs.map left := by
  induction h with
  | nil => rfl
  | cons hhead _ ih => rw [List.map_cons, List.map_cons, hhead, ih]

theorem forall₂_of_mapM {convert : α → Option β} (h : xs.mapM convert = some ys) :
    List.Forall₂ (fun x y => convert x = some y) xs ys := by
  induction xs generalizing ys with
  | nil =>
      rw [List.mapM_nil, Option.pure_def, Option.some.injEq] at h
      rw [← h]
      exact .nil
  | cons x xs ih =>
      rw [List.mapM_cons] at h
      obtain ⟨y, hy, hrest⟩ := Option.bind_eq_some_iff.mp h
      obtain ⟨zs, hzs, hcons⟩ := Option.bind_eq_some_iff.mp hrest
      rw [Option.pure_def, Option.some.injEq] at hcons
      rw [← hcons]
      exact .cons hy (ih hzs)

/-- Of related lists, another relation that comes down to a property of the left side. -/
theorem forall₂_iff_forall_mem {R S : α → β → Prop} {P : α → Prop}
    (h : ∀ x y, R x y → (S x y ↔ P x)) (hR : List.Forall₂ R xs ys) :
    List.Forall₂ S xs ys ↔ ∀ x ∈ xs, P x := by
  induction hR with
  | nil => exact iff_of_true .nil (by simp)
  | cons hhead _ ih => rw [List.forall₂_cons, List.forall_mem_cons, ih, h _ _ hhead]

end

variable {ρ : Type}

theorem convertSpan_mapped {span : Upb.Span} {record : SpanRecord ρ} {dropped : UInt64}
    (h : convertSpan span = some (record, dropped)) :
    SpanMapped convertValue span record ∧
      dropped = UInt64.ofNat (lostOfSpan convertValue span) := by
  unfold convertSpan at h
  obtain ⟨header, -, hrest⟩ := Option.bind_eq_some_iff.mp h
  obtain ⟨⟨events, ofEvents⟩, hevents, hrest⟩ := Option.bind_eq_some_iff.mp hrest
  obtain ⟨⟨links, ofLinks⟩, hlinks, hrecord⟩ := Option.bind_eq_some_iff.mp hrest
  have hevent : ∀ ev e dropped, convertEvent ev = some (e, dropped) →
      e.attributes = keptAttributes convertValue ev.attributes ∧
        dropped = UInt64.ofNat (lostAttributes convertValue ev.attributes) := by
    intro ev e dropped hconvert
    obtain ⟨timestamp, -, heq⟩ := Option.bind_eq_some_iff.mp hconvert
    rw [convertAttributes_eq, Option.some.injEq, Prod.mk.injEq] at heq
    obtain ⟨rfl, rfl⟩ := heq
    exact ⟨rfl, rfl⟩
  have hlink : ∀ link l dropped, convertLink link = some (l, dropped) →
      l.attributes = keptAttributes convertValue link.attributes ∧
        dropped = UInt64.ofNat (lostAttributes convertValue link.attributes) := by
    intro link l dropped hconvert
    obtain ⟨traceId, -, hconvert⟩ := Option.bind_eq_some_iff.mp hconvert
    obtain ⟨spanId, -, heq⟩ := Option.bind_eq_some_iff.mp hconvert
    rw [convertAttributes_eq, Option.some.injEq, Prod.mk.injEq] at heq
    obtain ⟨rfl, rfl⟩ := heq
    exact ⟨rfl, rfl⟩
  obtain ⟨hevents, hofEvents⟩ := convertAll_spec hevent hevents
  obtain ⟨hlinks, hofLinks⟩ := convertAll_spec hlink hlinks
  rw [convertAttributes_eq, Option.some.injEq, Prod.mk.injEq] at hrecord
  obtain ⟨rfl, rfl⟩ := hrecord
  refine ⟨⟨rfl, map_eq_of_forall₂ hevents, map_eq_of_forall₂ hlinks⟩, ?_⟩
  rw [hofEvents, hofLinks, lostOfSpan, UInt64.ofNat_add, UInt64.ofNat_add]

theorem convertScopeSpans_mapped {ss : Upb.ScopeSpans} {s : DecodedScopeSpans ρ} {dropped : UInt64}
    (h : convertScopeSpans ss = some (s, dropped)) :
    List.Forall₂ (SpanMapped convertValue) ss.spans s.spans ∧
      dropped = UInt64.ofNat (ss.spans.map (lostOfSpan convertValue)).sum := by
  obtain ⟨⟨spans, ofSpans⟩, hspans, heq⟩ := Option.bind_eq_some_iff.mp h
  rw [Option.some.injEq, Prod.mk.injEq] at heq
  obtain ⟨rfl, rfl⟩ := heq
  exact convertAll_spec (fun _ _ _ => convertSpan_mapped) hspans

theorem convertResourceSpans_mapped {rs : Upb.ResourceSpans} {out : DecodedResourceSpans ρ}
    (h : convertResourceSpans rs = some out) : ResourceMapped convertValue rs out := by
  have heq : convertResourceSpans (ρ := ρ) rs =
      (convertAll convertScopeSpans rs.scopeSpans).bind fun converted =>
        some
          { resource := keptAttributes convertValue (rs.resource.getD [])
            scopes := converted.1
            droppedSpanAttributes := converted.2
            droppedResourceAttributes :=
              UInt64.ofNat (lostAttributes convertValue (rs.resource.getD [])) } := by
    unfold convertResourceSpans
    cases rs.resource with
    | none => rfl
    | some attributes =>
        simp only [convertAttributes_eq, Option.getD_some]
        rfl
  rw [heq] at h
  obtain ⟨⟨scopes, ofScopes⟩, hscopes, hout⟩ := Option.bind_eq_some_iff.mp h
  obtain ⟨hscopes, hofScopes⟩ := convertAll_spec (fun _ _ _ => convertScopeSpans_mapped) hscopes
  rw [Option.some.injEq] at hout
  rw [← hout]
  exact ⟨rfl, hscopes, rfl, hofScopes⟩

/-! ### Where the two mappings agree -/

section
variable {f g : Option Upb.AnyValue → Option AttributeValue}

theorem spanMapped_iff (hfg : ∀ value v, g value = some v → f value = some v) {span : Upb.Span}
    {record : SpanRecord ρ} (h : SpanMapped f span record) :
    SpanMapped g span record ↔ ∀ kv ∈ attributesOfSpan span, f kv.value = g kv.value := by
  have hevents : record.events.map (·.attributes) =
        (span.events.map fun ev => keptAttributes g ev.attributes) ↔
      ∀ kv ∈ span.events.flatMap (·.attributes), f kv.value = g kv.value := by
    rw [h.events, List.map_inj_left]
    simp only [keptAttributes_eq_iff hfg, List.mem_flatMap]
    grind
  have hlinks : record.links.map (·.attributes) =
        (span.links.map fun link => keptAttributes g link.attributes) ↔
      ∀ kv ∈ span.links.flatMap (·.attributes), f kv.value = g kv.value := by
    rw [h.links, List.map_inj_left]
    simp only [keptAttributes_eq_iff hfg, List.mem_flatMap]
    grind
  have hown : record.attributes = keptAttributes g span.attributes ↔
      ∀ kv ∈ span.attributes, f kv.value = g kv.value := by
    rw [h.attributes, keptAttributes_eq_iff hfg]
  unfold attributesOfSpan
  rw [List.forall_mem_append, List.forall_mem_append, ← hown, ← hevents, ← hlinks]
  constructor
  · exact fun hg => ⟨⟨hg.attributes, hg.events⟩, hg.links⟩
  · exact fun ⟨⟨hattributes, hevents⟩, hlinks⟩ => ⟨hattributes, hevents, hlinks⟩

theorem lostOfSpan_congr {span : Upb.Span}
    (h : ∀ kv ∈ attributesOfSpan span, f kv.value = g kv.value) :
    lostOfSpan f span = lostOfSpan g span := by
  unfold attributesOfSpan at h
  rw [List.forall_mem_append, List.forall_mem_append] at h
  obtain ⟨⟨hown, hevents⟩, hlinks⟩ := h
  have hofEvents : (span.events.map fun ev => lostAttributes f ev.attributes) =
      span.events.map fun ev => lostAttributes g ev.attributes :=
    List.map_congr_left fun ev hev => lostAttributes_congr fun kv hkv =>
      hevents kv (List.mem_flatMap.mpr ⟨ev, hev, hkv⟩)
  have hofLinks : (span.links.map fun link => lostAttributes f link.attributes) =
      span.links.map fun link => lostAttributes g link.attributes :=
    List.map_congr_left fun link hlink => lostAttributes_congr fun kv hkv =>
      hlinks kv (List.mem_flatMap.mpr ⟨link, hlink, hkv⟩)
  rw [lostOfSpan, lostAttributes_congr hown, hofEvents, hofLinks, lostOfSpan]

theorem lostOfScopes_congr {scopes : List Upb.ScopeSpans}
    (h : ∀ kv ∈ scopes.flatMap attributesOfScope, f kv.value = g kv.value) :
    lostOfScopes f scopes = lostOfScopes g scopes := by
  unfold lostOfScopes
  congr 1
  apply List.map_congr_left
  intro ss hss
  congr 1
  apply List.map_congr_left
  intro span hspan
  apply lostOfSpan_congr
  intro kv hkv
  exact h kv (List.mem_flatMap.mpr ⟨ss, hss, List.mem_flatMap.mpr ⟨span, hspan, hkv⟩⟩)

theorem resourceMapped_iff (hfg : ∀ value v, g value = some v → f value = some v)
    {rs : Upb.ResourceSpans} {out : DecodedResourceSpans ρ} (h : ResourceMapped f rs out) :
    ResourceMapped g rs out ↔ ∀ kv ∈ attributesOfResource rs, f kv.value = g kv.value := by
  have hresource : out.resource = keptAttributes g (rs.resource.getD []) ↔
      ∀ kv ∈ rs.resource.getD [], f kv.value = g kv.value := by
    rw [h.resource, keptAttributes_eq_iff hfg]
  have hscopes : List.Forall₂ (fun ss s => List.Forall₂ (SpanMapped g) ss.spans s.spans)
        rs.scopeSpans out.scopes ↔
      ∀ kv ∈ rs.scopeSpans.flatMap attributesOfScope, f kv.value = g kv.value := by
    have hscope : ∀ (ss : Upb.ScopeSpans) (s : DecodedScopeSpans ρ),
        List.Forall₂ (SpanMapped f) ss.spans s.spans →
          (List.Forall₂ (SpanMapped g) ss.spans s.spans ↔
            ∀ span ∈ ss.spans, ∀ kv ∈ attributesOfSpan span, f kv.value = g kv.value) :=
      fun ss s hspans => forall₂_iff_forall_mem (fun _ _ => spanMapped_iff hfg) hspans
    rw [forall₂_iff_forall_mem hscope h.scopes]
    simp only [attributesOfScope, List.mem_flatMap]
    grind
  unfold attributesOfResource
  rw [List.forall_mem_append]
  constructor
  · exact fun hg => ⟨hresource.mp hg.resource, hscopes.mp hg.scopes⟩
  · rintro ⟨hown, hspans⟩
    exact
      { resource := hresource.mpr hown
        scopes := hscopes.mpr hspans
        droppedResourceAttributes := by
          rw [h.droppedResourceAttributes, lostAttributes_congr hown]
        droppedSpanAttributes := by
          rw [h.droppedSpanAttributes, lostOfScopes_congr hspans] }

end

theorem decode_mapped {upb : UpbRuntime} {payload : Bytes} {limits : DecodeLimits}
    {req : Upb.Request} {out : List (DecodedResourceSpans ρ)}
    (hreq : upb.decode payload limits.maxDepth limits.maxArenaBytes = .ok req)
    (hout : decode upb payload limits = .ok out) :
    List.Forall₂ (ResourceMapped convertValue) req.resourceSpans out := by
  unfold decode at hout
  rw [hreq] at hout
  simp only at hout
  by_cases hspans : limits.maxSpans.toNat < countSpans req.resourceSpans
  · rw [if_pos hspans] at hout
    exact absurd hout (by simp)
  · rw [if_neg hspans] at hout
    cases hall : req.resourceSpans.mapM (convertResourceSpans (ρ := ρ)) with
    | none =>
        rw [hall] at hout
        exact absurd hout (by simp)
    | some converted =>
        rw [hall] at hout
        cases hout
        exact (forall₂_of_mapM hall).imp fun _ _ => convertResourceSpans_mapped

/-- The conversion is the documented one on every value but one kind, and a decoded
request is as documented, in what it keeps and in both counts, exactly when no
attribute under any of its resources has a value of that kind. -/
theorem conversion_documented_iff :
    (∀ value, convertValue value = documented value ↔ ¬ OctetsAmongStrings value) ∧
      ∀ (upb : UpbRuntime) (payload : Bytes) (limits : DecodeLimits) (req : Upb.Request)
        (out : List (DecodedResourceSpans ρ)),
        upb.decode payload limits.maxDepth limits.maxArenaBytes = .ok req →
        decode upb payload limits = .ok out →
        (List.Forall₂ (ResourceMapped documented) req.resourceSpans out ↔
          ∀ rs ∈ req.resourceSpans, ∀ kv ∈ attributesOfResource rs,
            ¬ OctetsAmongStrings kv.value) := by
  refine ⟨convertValue_documented_iff, ?_⟩
  intro upb payload limits req out hreq hout
  rw [forall₂_iff_forall_mem
    (fun _ _ => resourceMapped_iff fun _ _ => convertValue_of_documented) (decode_mapped hreq hout)]
  simp only [convertValue_documented_iff]

/-- The string `a` and one octet. -/
def stringThenOctets : Upb.AnyValue := .array [.string [97], .bytes [1]]

/-- The octet is kept as the text `01`; the mapping drops the array. -/
theorem convertValue_stringThenOctets :
    convertValue (some stringThenOctets) = some (.strings [[97], [48, 49]]) ∧
      documented (some stringThenOctets) = none := by
  decide

/-- A resource with two attributes under the key `k`: one octet, and an empty kvlist. -/
def octetAndKvlist : Upb.ResourceSpans where
  resource := some [⟨[107], some (.bytes [1])⟩, ⟨[107], some (.kvlist [])⟩]

def octetAndKvlistBytes : Bytes :=
  [0x0A, 21, 0x0A, 19, 0x0A, 8, 0x0A, 1, 107, 0x12, 3, 0x3A, 1, 1, 0x0A, 7, 0x0A, 1, 107, 0x12, 2,
    0x32, 0]

/-- A runtime that reads that payload. -/
def octetAndKvlistRuntime : UpbRuntime where
  serialize _ := octetAndKvlistBytes
  decode payload _ _ :=
    if payload = octetAndKvlistBytes then .ok ⟨[octetAndKvlist]⟩ else .error .malformed

theorem conversion_documented_octetAndKvlist :
    List.Forall₂ (ResourceMapped (ρ := Unit) documented) [octetAndKvlist]
      [{ resource := [⟨[107], .string [48, 49]⟩]
         scopes := []
         droppedResourceAttributes := 1 }] := by
  refine ((conversion_documented_iff (ρ := Unit)).2 octetAndKvlistRuntime octetAndKvlistBytes
    ⟨512, 16, 65536⟩ ⟨[octetAndKvlist]⟩ _ rfl rfl).mpr ?_
  intro rs hrs kv hkv hbad
  obtain ⟨s, values, heq⟩ := hbad.exists_array
  rw [List.mem_singleton] at hrs
  subst hrs
  simp only [attributesOfResource, octetAndKvlist, Option.getD_some, List.flatMap_nil,
    List.append_nil, List.mem_cons, List.not_mem_nil, or_false] at hkv
  rcases hkv with rfl | rfl
  · exact absurd heq (by simp)
  · exact absurd heq (by simp)

end Microtel.Wire
