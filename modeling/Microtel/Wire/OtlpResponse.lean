import Microtel.Wire.ProtoReader

/-!
The parser of the body that answers an OTLP export (`src/wire/otlp_response.cpp`),
and the messages it accepts.
-/

namespace Microtel.Wire.Proto

open ProtoWire

inductive PartialSuccessOutcome
  | absent
  | parsed
  | unparseable
  deriving DecidableEq

structure PartialSuccessResult where
  outcome : PartialSuccessOutcome := .absent
  rejected : UInt32 := 0
  deriving DecidableEq

def kFieldPartialSuccess : UInt32 := 1
def kFieldRejected : UInt32 := 1
def kMaxRejected : UInt64 := 0xFFFFFFFF

def readRejected (data : Bytes) : Option (UInt32 × Bytes) :=
  match readVarint data with
  | none => none
  | some (v, data) => some ((min v kMaxRejected).toUInt32, data)

/-- One round of `ParsePartialSuccess`. -/
def readPartialSuccessField (rejected : UInt32) (data : Bytes) : Option (UInt32 × Bytes) :=
  match readTag data with
  | none => none
  | some (tag, data) =>
      if tag.field = kFieldRejected ∧ tag.wireType = kWtVarint then readRejected data
      else (skipField data tag.wireType).map (rejected, ·)

/-! ### One field of a message -/

/-- A round that reads a tag, then the content by the tag, is exact for fields. -/
theorem field_exact {σ : Type} {g : Tag → Bytes → Option (σ × Bytes)} {step : Field → Option σ}
    (hg : ∀ tag, Walk.Exact (g tag) fun text s => ∃ content, ContentText text content ∧
      content.wireType = tag.wireType.toNat ∧ step ⟨tag.field.toNat, content⟩ = some s) :
    Walk.Exact (fun data => (readTag data).bind fun p => g p.1 p.2)
      fun text s => ∃ f, FieldText text f ∧ step f = some s := by
  refine (readTag_exact.bind hg).congr fun text s => ?_
  constructor
  · rintro ⟨tag, front, back, rfl, ⟨v, hfront, hv, -, hpos, hmax⟩, content, hback, hwire, hstep⟩
    refine ⟨⟨tag.field.toNat, content⟩, .field hfront ?_ hpos hmax hback, hstep⟩
    rw [hv, hwire]
  · rintro ⟨f, hf, hstep⟩
    cases hf with
    | @field front back v _ hfront hv hpos hmax hback =>
        have hbound : maxFieldNumber < 2 ^ 32 := by decide
        have hwire := f.content.wireType_lt
        have hfield : (UInt32.ofNat f.number).toNat = f.number := by
          rw [UInt32.toNat_ofNat', Nat.mod_eq_of_lt (by omega)]
        have htype : (UInt32.ofNat f.content.wireType).toNat = f.content.wireType := by
          rw [UInt32.toNat_ofNat', Nat.mod_eq_of_lt (by omega)]
        refine ⟨⟨UInt32.ofNat f.number, UInt32.ofNat f.content.wireType⟩, front, back, rfl,
          ⟨v, hfront, ?_, ?_, ?_, ?_⟩, f.content, hback, htype.symm, ?_⟩
        · rw [hfield, htype, hv]
        · rw [htype]
          exact hwire
        · rw [hfield]
          exact hpos
        · rw [hfield]
          exact hmax
        · rw [hfield]
          exact hstep

/-- A content that is skipped leaves the state. -/
theorem skip_exact {σ : Type} (s : σ) (wireType : UInt32) :
    Walk.Exact (fun data => (skipField data wireType).map (s, ·)) fun text t =>
      ∃ content, ContentText text content ∧ content.wireType = wireType.toNat ∧ s = t := by
  intro data t rest
  constructor
  · intro h
    obtain ⟨rest', hskip, hrest⟩ := Option.map_eq_some_iff.mp h
    cases hrest
    obtain ⟨text, content, hdata, htext, hwire⟩ := (skipField_iff _ _ _).mp hskip
    exact ⟨text, hdata, content, htext, hwire, rfl⟩
  · rintro ⟨text, hdata, content, htext, hwire, rfl⟩
    have hskip := (skipField_iff wireType data rest).mpr ⟨text, content, hdata, htext, hwire⟩
    exact Option.map_eq_some_iff.mpr ⟨rest, hskip, rfl⟩

/-- One round: the field `field` of type `wireType` has its own reader, and any other
is skipped. -/
theorem round_exact {σ : Type} {s : σ} {field wireType : UInt32}
    {special : Bytes → Option (σ × Bytes)} (step : Field → Option σ)
    (hspecial : Walk.Exact special fun text t => ∃ content, ContentText text content ∧
      content.wireType = wireType.toNat ∧ step ⟨field.toNat, content⟩ = some t)
    (hother : ∀ number content, ¬(number = field.toNat ∧ content.wireType = wireType.toNat) →
      step ⟨number, content⟩ = some s) :
    Walk.Exact (fun data => (readTag data).bind fun p =>
        if p.1.field = field ∧ p.1.wireType = wireType then special p.2
        else (skipField p.2 p.1.wireType).map (s, ·))
      fun text t => ∃ f, FieldText text f ∧ step f = some t := by
  apply field_exact (g := fun tag data =>
    if tag.field = field ∧ tag.wireType = wireType then special data
    else (skipField data tag.wireType).map (s, ·))
  rintro ⟨number, type⟩
  by_cases his : number = field ∧ type = wireType
  · obtain ⟨rfl, rfl⟩ := his
    simp only [and_self, if_true]
    exact hspecial
  · simp only [if_neg his]
    refine (skip_exact s type).congr fun text t => ?_
    refine exists_congr fun content => and_congr_right fun _ => and_congr_right fun hwire => ?_
    rw [hother, Option.some.injEq]
    rw [hwire]
    rintro ⟨hfield, htype⟩
    exact his ⟨UInt32.toNat_inj.mp hfield, UInt32.toNat_inj.mp htype⟩

/-! ### Export*PartialSuccess -/

/-- A count found on the way replaces the one before it. -/
def countRejected (rejected : UInt32) : Field → UInt32
  | ⟨1, .varint v⟩ => (min v kMaxRejected).toUInt32
  | _ => rejected

theorem countRejected_other {rejected : UInt32} {number : Nat} {content : Content}
    (h : ¬(number = 1 ∧ content.wireType = 0)) :
    countRejected rejected ⟨number, content⟩ = rejected := by
  unfold countRejected
  split
  · next heq =>
    cases heq
    exact absurd ⟨rfl, rfl⟩ h
  · rfl

theorem readRejected_exact : Walk.Exact readRejected fun text rejected =>
    ∃ v, IsVarint text v ∧ rejected = (min v kMaxRejected).toUInt32 := by
  intro data rejected rest
  rw [readRejected]
  constructor
  · intro h
    split at h
    · cases h
    · next v _ hread =>
      cases h
      obtain ⟨text, hdata, htext⟩ := (readVarint_exact _ _ _).mp hread
      exact ⟨text, hdata, v, htext, rfl⟩
  · rintro ⟨text, rfl, v, htext, rfl⟩
    rw [readVarint_exact.accepts htext]

theorem readPartialSuccessField_exact (rejected : UInt32) :
    Walk.Exact (readPartialSuccessField rejected) fun text t =>
      ∃ f, FieldText text f ∧ some (countRejected rejected f) = some t := by
  have hround : readPartialSuccessField rejected = fun data => (readTag data).bind fun p =>
      if p.1.field = kFieldRejected ∧ p.1.wireType = kWtVarint then readRejected p.2
      else (skipField p.2 p.1.wireType).map (rejected, ·) := by
    funext data
    rw [readPartialSuccessField]
    cases readTag data <;> rfl
  rw [hround]
  refine round_exact (fun f => some (countRejected rejected f))
    (readRejected_exact.congr fun text t => ?_)
    fun number content h => congrArg some (countRejected_other h)
  constructor
  · rintro ⟨v, htext, rfl⟩
    exact ⟨.varint v, .varint htext, rfl, rfl⟩
  · rintro ⟨content, htext, hwire, hstep⟩
    cases htext with
    | varint h => exact ⟨_, h, (Option.some.inj hstep).symm⟩
    | fixed64 | len | fixed32 => cases hwire

def partialSuccessReader : Walk.Reader UInt32 UInt8 where
  read := readPartialSuccessField
  shortens {rejected _ _ _} h := (readPartialSuccessField_exact rejected).shortens
    (fun _ _ ⟨_, hf, _⟩ => hf.ne_nil) h

def parsePartialSuccess (data : Bytes) (rejected : UInt32) : Option UInt32 :=
  Walk.walk partialSuccessReader rejected data

theorem parsePartialSuccess_iff (data : Bytes) (rejected t : UInt32) :
    parsePartialSuccess data rejected = some t ↔
      ∃ fields, MessageText data fields ∧ fields.foldl countRejected rejected = t := by
  rw [parsePartialSuccess, Walk.walk_iff FieldText (fun s f => some (countRejected s f))
    readPartialSuccessField_exact]
  refine exists_congr fun fields => and_congr_right fun _ => ?_
  rw [show (fields.foldlM (fun s f => some (countRejected s f)) rejected) =
    some (fields.foldl countRejected rejected) from List.foldlM_pure, Option.some.injEq]

/-! ### Export*ServiceResponse -/

def extractPartialSuccess (data : Bytes) (result : PartialSuccessResult) :
    Option (PartialSuccessResult × Bytes) :=
  match readLenDelim data with
  | none => none
  | some (inner, data) =>
      match parsePartialSuccess inner result.rejected with
      | none => none
      | some rejected => some ({ outcome := .parsed, rejected }, data)

/-- One round of `ParseResponse`. -/
def readResponseField (result : PartialSuccessResult) (data : Bytes) :
    Option (PartialSuccessResult × Bytes) :=
  match readTag data with
  | none => none
  | some (tag, data) =>
      if tag.field = kFieldPartialSuccess ∧ tag.wireType = kWtLenDelim then
        extractPartialSuccess data result
      else (skipField data tag.wireType).map (result, ·)

/-- What one field of the response does to the result. -/
def mergeField (result : PartialSuccessResult) : Field → Option PartialSuccessResult
  | ⟨1, .len inner⟩ =>
      (parsePartialSuccess inner result.rejected).map fun rejected =>
        { outcome := .parsed, rejected }
  | _ => some result

theorem mergeField_other {result : PartialSuccessResult} {number : Nat} {content : Content}
    (h : ¬(number = 1 ∧ content.wireType = 2)) :
    mergeField result ⟨number, content⟩ = some result := by
  unfold mergeField
  split
  · next heq =>
    cases heq
    exact absurd ⟨rfl, rfl⟩ h
  · rfl

theorem extractPartialSuccess_exact (result : PartialSuccessResult) :
    Walk.Exact (extractPartialSuccess · result) fun text t =>
      ∃ inner, LenText text inner ∧ mergeField result ⟨1, .len inner⟩ = some t := by
  intro data t rest
  simp only [extractPartialSuccess, mergeField]
  constructor
  · intro h
    split at h
    · cases h
    · next inner _ hread =>
      obtain ⟨text, hdata, htext⟩ := (readLenDelim_exact _ _ _).mp hread
      split at h
      · cases h
      · next hparse =>
        cases h
        exact ⟨text, hdata, inner, htext, by rw [hparse]; rfl⟩
  · rintro ⟨text, rfl, inner, htext, hmerge⟩
    obtain ⟨rejected, hparse, rfl⟩ := Option.map_eq_some_iff.mp hmerge
    rw [readLenDelim_exact.accepts htext]
    simp only [hparse]

theorem readResponseField_exact (result : PartialSuccessResult) :
    Walk.Exact (readResponseField result) fun text t =>
      ∃ f, FieldText text f ∧ mergeField result f = some t := by
  have hround : readResponseField result = fun data => (readTag data).bind fun p =>
      if p.1.field = kFieldPartialSuccess ∧ p.1.wireType = kWtLenDelim then
        extractPartialSuccess p.2 result
      else (skipField p.2 p.1.wireType).map (result, ·) := by
    funext data
    rw [readResponseField]
    cases readTag data <;> rfl
  rw [hround]
  refine round_exact _ ((extractPartialSuccess_exact result).congr fun text t => ?_)
    fun number content h => mergeField_other h
  constructor
  · rintro ⟨inner, ⟨size, n, rfl, hsize, hlen⟩, hmerge⟩
    exact ⟨.len inner, .len hsize hlen, rfl, hmerge⟩
  · rintro ⟨content, htext, hwire, hmerge⟩
    cases htext with
    | len hsize hlen => exact ⟨_, ⟨_, _, rfl, hsize, hlen⟩, hmerge⟩
    | varint | fixed64 | fixed32 => cases hwire

def responseReader : Walk.Reader PartialSuccessResult UInt8 where
  read := readResponseField
  shortens {result _ _ _} h := (readResponseField_exact result).shortens
    (fun _ _ ⟨_, hf, _⟩ => hf.ne_nil) h

def kUnparseable : PartialSuccessResult := { outcome := .unparseable, rejected := 0 }

def parseResponse (data : Bytes) : PartialSuccessResult :=
  match Walk.walk responseReader {} data with
  | none => kUnparseable
  | some result => result

def parseRejectedSpans (body : Bytes) : PartialSuccessResult :=
  if body = [] then {} else parseResponse body

/-! ### The messages accepted -/

/-- The `partial_success` a field is, if it is one. -/
def asPartialSuccess : Field → Option Bytes
  | ⟨1, .len inner⟩ => some inner
  | _ => none

/-- The count a field of a `partial_success` is, if it is one. -/
def asRejected : Field → Option UInt64
  | ⟨1, .varint v⟩ => some v
  | _ => none

/-- A sequence of fields whose `partial_success` messages are such sequences too. -/
def WellFormed (body : Bytes) : Prop :=
  ∃ fields, MessageText body fields ∧
    ∀ inner ∈ fields.filterMap asPartialSuccess, ∃ subs, MessageText inner subs

/-- The last count of a sequence of fields, capped; zero without one. -/
def lastRejected (fields : List Field) : Nat :=
  ((fields.filterMap asRejected).getLast?.map fun v => min v.toNat (2 ^ 32 - 1)).getD 0

theorem countRejected_eq (rejected : UInt32) (f : Field) : countRejected rejected f =
    ((asRejected f).map fun v => (min v kMaxRejected).toUInt32).getD rejected := by
  unfold countRejected asRejected
  split <;> rfl

theorem mergeField_eq (result : PartialSuccessResult) (f : Field) : mergeField result f =
    match asPartialSuccess f with
    | none => some result
    | some inner =>
        (parsePartialSuccess inner result.rejected).map
          ({ outcome := .parsed, rejected := · }) := by
  unfold mergeField asPartialSuccess
  split <;> rfl

theorem foldl_countRejected (rejected : UInt32) (fields : List Field) :
    fields.foldl countRejected rejected =
      ((fields.filterMap asRejected).getLast?.map fun v => (min v kMaxRejected).toUInt32).getD
        rejected := by
  induction fields generalizing rejected with
  | nil => rfl
  | cons f fields ih =>
      rw [List.foldl_cons, ih, countRejected_eq]
      cases hf : asRejected f with
      | none => rw [List.filterMap_cons_none hf]; rfl
      | some v =>
          rw [List.filterMap_cons_some hf, List.getLast?_cons]
          cases (fields.filterMap asRejected).getLast? <;> rfl

theorem toNat_capped (v : UInt64) :
    ((min v kMaxRejected).toUInt32).toNat = min v.toNat (2 ^ 32 - 1) := by
  have hmax : kMaxRejected.toNat = 2 ^ 32 - 1 := by decide
  have hmin : (min v kMaxRejected).toNat = min v.toNat (2 ^ 32 - 1) := by
    rw [← hmax]
    change (if v ≤ kMaxRejected then v else kMaxRejected).toNat = _
    split
    · next h => exact (min_eq_left (UInt64.le_iff_toNat_le.mp h)).symm
    · next h =>
      rw [UInt64.le_iff_toNat_le] at h
      exact (min_eq_right (by omega)).symm
  rw [UInt64.toNat_toUInt32, hmin]
  omega

theorem toNat_foldl_countRejected (fields : List Field) :
    (fields.foldl countRejected 0).toNat = lastRejected fields := by
  rw [foldl_countRejected, lastRejected]
  cases (fields.filterMap asRejected).getLast? with
  | none => rfl
  | some v => exact toNat_capped v

/-- Over the fields of a response: each `partial_success` has its own fields, and the
counts follow one another. -/
theorem foldlM_mergeField_iff (fields : List Field) (result t : PartialSuccessResult) :
    fields.foldlM mergeField result = some t ↔
      ∃ subs, List.Forall₂ MessageText (fields.filterMap asPartialSuccess) subs ∧
        t.rejected = subs.flatten.foldl countRejected result.rejected ∧
        t.outcome = if fields.filterMap asPartialSuccess = [] then result.outcome else .parsed := by
  induction fields generalizing result with
  | nil =>
      constructor
      · intro h
        cases h
        exact ⟨[], .nil, rfl, rfl⟩
      · rintro ⟨subs, hsubs, hrejected, houtcome⟩
        cases hsubs
        cases t
        cases hrejected
        cases houtcome
        rfl
  | cons f fields ih =>
      rw [List.foldlM_cons, mergeField_eq]
      cases hf : asPartialSuccess f with
      | none =>
          rw [List.filterMap_cons_none hf]
          exact ih result
      | some inner =>
          rw [List.filterMap_cons_some hf]
          constructor
          · intro h
            obtain ⟨mid, hmid, hrest⟩ := Option.bind_eq_some_iff.mp h
            obtain ⟨rejected, hparse, rfl⟩ := Option.map_eq_some_iff.mp hmid
            obtain ⟨sub, hsub, rfl⟩ := (parsePartialSuccess_iff _ _ _).mp hparse
            obtain ⟨subs, hsubs, hrejected, houtcome⟩ := (ih _).mp hrest
            refine ⟨sub :: subs, .cons hsub hsubs, ?_, ?_⟩
            · rw [List.flatten_cons, List.foldl_append]
              exact hrejected
            · rw [houtcome, if_neg (List.cons_ne_nil _ _)]
              split <;> rfl
          · rintro ⟨_, hall, hrejected, houtcome⟩
            cases hall with
            | @cons _ sub _ subs hsub hsubs =>
                have hparse :=
                  (parsePartialSuccess_iff inner result.rejected _).mpr ⟨sub, hsub, rfl⟩
                simp only [hparse]
                refine (ih _).mpr ⟨subs, hsubs, ?_, ?_⟩
                · rw [List.flatten_cons, List.foldl_append] at hrejected
                  exact hrejected
                · rw [houtcome, if_neg (List.cons_ne_nil _ _)]
                  split <;> rfl

theorem walk_responseReader_iff (body : Bytes) (t : PartialSuccessResult) :
    Walk.walk responseReader {} body = some t ↔ ∃ fields subs, MessageText body fields ∧
      List.Forall₂ MessageText (fields.filterMap asPartialSuccess) subs ∧
        t.rejected = subs.flatten.foldl countRejected 0 ∧
        t.outcome = if fields.filterMap asPartialSuccess = [] then .absent else .parsed := by
  rw [Walk.walk_iff FieldText _ readResponseField_exact]
  simp only [foldlM_mergeField_iff, exists_and_left]

theorem parseRejectedSpans_eq (body : Bytes) : parseRejectedSpans body =
    (Walk.walk responseReader {} body).getD kUnparseable := by
  rw [parseRejectedSpans]
  split
  · next hbody =>
    rw [hbody, Walk.walk_nil]
    rfl
  · rw [parseResponse]
    cases Walk.walk responseReader {} body <;> rfl

/-- Messages one by one have their fields together. -/
theorem exists_forall₂ {inners : List Bytes}
    (h : ∀ inner ∈ inners, ∃ fields, MessageText inner fields) :
    ∃ subs, List.Forall₂ MessageText inners subs := by
  induction inners with
  | nil => exact ⟨[], .nil⟩
  | cons inner inners ih =>
      obtain ⟨sub, hsub⟩ := h inner (List.mem_cons_self ..)
      obtain ⟨subs, hsubs⟩ := ih fun inner hmem => h inner (List.mem_cons_of_mem _ hmem)
      exact ⟨sub :: subs, .cons hsub hsubs⟩

theorem forall₂_exists {inners : List Bytes} {subs : List (List Field)}
    (h : List.Forall₂ MessageText inners subs) :
    ∀ inner ∈ inners, ∃ fields, MessageText inner fields := by
  induction h with
  | nil => nofun
  | cons hsub _ ih =>
      intro inner hmem
      rcases List.mem_cons.mp hmem with rfl | hmem
      · exact ⟨_, hsub⟩
      · exact ih inner hmem

theorem parse_of_fields {body : Bytes} {fields : List Field} {subs : List (List Field)}
    (hbody : MessageText body fields)
    (hsubs : List.Forall₂ MessageText (fields.filterMap asPartialSuccess) subs) :
    parseRejectedSpans body =
      { outcome := if fields.filterMap asPartialSuccess = [] then .absent else .parsed
        rejected := subs.flatten.foldl countRejected 0 } := by
  have hwalk := (walk_responseReader_iff body
    { outcome := if fields.filterMap asPartialSuccess = [] then .absent else .parsed
      rejected := subs.flatten.foldl countRejected 0 }).mpr ⟨fields, subs, hbody, hsubs, rfl, rfl⟩
  rw [parseRejectedSpans_eq, hwalk]
  rfl

theorem unparseable_iff (body : Bytes) :
    (parseRejectedSpans body).outcome = .unparseable ↔ ¬WellFormed body := by
  constructor
  · rintro hunparseable ⟨fields, hbody, hinners⟩
    obtain ⟨subs, hsubs⟩ := exists_forall₂ hinners
    rw [parse_of_fields hbody hsubs] at hunparseable
    simp only at hunparseable
    split at hunparseable <;> cases hunparseable
  · intro hnot
    rw [parseRejectedSpans_eq]
    cases hwalk : Walk.walk responseReader {} body with
    | none => rfl
    | some t =>
        obtain ⟨fields, subs, hbody, hsubs, -⟩ := (walk_responseReader_iff body t).mp hwalk
        exact absurd ⟨fields, hbody, forall₂_exists hsubs⟩ hnot

/-- A field of Export*PartialSuccess: the count, the error message, or one that
the parser does not know. -/
inductive PartialSuccessField : Field → Prop
  | rejected (v : UInt64) : PartialSuccessField ⟨1, .varint v⟩
  | errorMessage (text : Bytes) : PartialSuccessField ⟨2, .len text⟩
  | unknown {f : Field} (h : f.number ≠ 1 ∧ f.number ≠ 2) : PartialSuccessField f

/-- A field of Export*ServiceResponse. -/
inductive ResponseField : Field → Prop
  | partialSuccess {inner : Bytes} {fields : List Field} (h : MessageText inner fields)
      (hfields : ∀ f ∈ fields, PartialSuccessField f) : ResponseField ⟨1, .len inner⟩
  | unknown {f : Field} (h : f.number ≠ 1) : ResponseField f

theorem ResponseField.inner {f : Field} (h : ResponseField f) {inner : Bytes}
    (hf : asPartialSuccess f = some inner) : ∃ fields, MessageText inner fields := by
  cases h with
  | partialSuccess h _ =>
      cases hf
      exact ⟨_, h⟩
  | unknown hnumber =>
      unfold asPartialSuccess at hf
      split at hf
      · exact absurd rfl hnumber
      · cases hf

/-- The answer is Unparseable exactly for the bodies that are not well formed; for
the others it is Parsed exactly with a `partial_success`, with the last count of all
of them; and what an encoder of the response makes is well formed. -/
theorem parseRejectedSpans_exact (body : Bytes) :
    ((parseRejectedSpans body).outcome = .unparseable ↔ ¬WellFormed body) ∧
    (∀ fields subs, MessageText body fields →
      List.Forall₂ MessageText (fields.filterMap asPartialSuccess) subs →
        ((parseRejectedSpans body).outcome = .parsed ↔ fields.filterMap asPartialSuccess ≠ []) ∧
        (parseRejectedSpans body).rejected.toNat = lastRejected subs.flatten) ∧
    (∀ fields, MessageText body fields → (∀ f ∈ fields, ResponseField f) →
      (parseRejectedSpans body).outcome ≠ .unparseable) := by
  refine ⟨unparseable_iff body, ?_, ?_⟩
  · intro fields subs hbody hsubs
    rw [parse_of_fields hbody hsubs]
    refine ⟨?_, toNat_foldl_countRejected _⟩
    by_cases hnil : fields.filterMap asPartialSuccess = []
    · rw [if_pos hnil]
      exact ⟨nofun, fun hne => absurd hnil hne⟩
    · rw [if_neg hnil]
      exact ⟨fun _ => hnil, fun _ => rfl⟩
  · intro fields hbody hencoded hunparseable
    refine (unparseable_iff body).mp hunparseable ⟨fields, hbody, fun inner hinner => ?_⟩
    obtain ⟨f, hf, hinner⟩ := List.mem_filterMap.mp hinner
    exact (hencoded f hf).inner hinner

theorem parseRejectedSpans_exact_five :
    (parseRejectedSpans [0x0A, 0x02, 0x08, 0x05]).outcome = .parsed ∧
      (parseRejectedSpans [0x0A, 0x02, 0x08, 0x05]).rejected.toNat = 5 := by
  have octet : ∀ b : UInt8, b.toNat < 128 → IsVarint [b] (UInt64.ofNat b.toNat) := fun b hb =>
    ⟨b.toNat, .last hb, by rw [List.length_singleton]; omega, rfl⟩
  have hcount : FieldText [0x08, 0x05] ⟨1, .varint 5⟩ :=
    .field (octet 0x08 (by decide)) (by decide) (by decide) (by decide)
      (.varint (octet 0x05 (by decide)))
  have hsub : MessageText [0x08, 0x05] [⟨1, .varint 5⟩] := .cons hcount .nil
  have hfield : FieldText [0x0A, 0x02, 0x08, 0x05] ⟨1, .len [0x08, 0x05]⟩ :=
    .field (octet 0x0A (by decide)) (by decide) (by decide) (by decide)
      (.len (octet 0x02 (by decide)) (by decide))
  have hbody : MessageText [0x0A, 0x02, 0x08, 0x05] [⟨1, .len [0x08, 0x05]⟩] := .cons hfield .nil
  obtain ⟨houtcome, hrejected⟩ := (parseRejectedSpans_exact _).2.1 _ [_] hbody (.cons hsub .nil)
  exact ⟨houtcome.mpr (List.cons_ne_nil _ _), hrejected⟩

end Microtel.Wire.Proto
