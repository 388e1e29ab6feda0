import Microtel.Api.TraceState

/-!
`tracestate` headers by their grammar (W3C Trace Context §3.3, as quoted in
`src/api/trace_state.cpp`), and that the parser accepts exactly these.
-/

namespace Microtel.Api.TraceState

open Delimited

/-! ### The grammar -/

def LcAlpha (c : UInt8) : Prop := 0x61 ≤ c ∧ c ≤ 0x7A

def Digit (c : UInt8) : Prop := 0x30 ≤ c ∧ c ≤ 0x39

/-- Letters, digits, `_`, `-`, `*` and `/`. -/
def KeyChr (c : UInt8) : Prop :=
  LcAlpha c ∨ Digit c ∨ c = 0x5F ∨ c = 0x2D ∨ c = 0x2A ∨ c = 0x2F

def KeyTail (limit : Nat) (tail : Bytes) : Prop :=
  tail.length ≤ limit ∧ ∀ c ∈ tail, KeyChr c

/-- `simple-key` with 255 characters after the first, `system-id` with 13. -/
def AlphaLed (limit : Nat) (key : Bytes) : Prop :=
  ∃ c tail, key = c :: tail ∧ LcAlpha c ∧ KeyTail limit tail

def TenantId (key : Bytes) : Prop :=
  ∃ c tail, key = c :: tail ∧ (LcAlpha c ∨ Digit c) ∧ KeyTail 240 tail

inductive Key : Bytes → Prop
  | simple {key : Bytes} (h : AlphaLed 255 key) : Key key
  | multiTenant {tenant system : Bytes} (ht : TenantId tenant) (hs : AlphaLed 13 system) :
      Key (tenant ++ kTenantSeparator :: system)

def NblkChr (c : UInt8) : Prop :=
  (0x21 ≤ c ∧ c ≤ 0x2B) ∨ (0x2D ≤ c ∧ c ≤ 0x3C) ∨ (0x3E ≤ c ∧ c ≤ 0x7E)

def Chr (c : UInt8) : Prop := c = 0x20 ∨ NblkChr c

def Value (value : Bytes) : Prop :=
  ∃ chars last, value = chars ++ [last] ∧ chars.length ≤ 255 ∧ (∀ c ∈ chars, Chr c) ∧ NblkChr last

def Ows (text : Bytes) : Prop := ∀ c ∈ text, c = 0x20 ∨ c = 0x09

/-- A member with an entry, without the whitespace around it. -/
def text (e : Entry) : Bytes := e.key ++ kKeyValueSeparator :: e.value

/-- A list member as it stands in a header, and the entry it is, if any. -/
inductive Member : Bytes → Option Entry → Prop
  | blank {text : Bytes} (h : Ows text) : Member text none
  | entry {left right : Bytes} {e : Entry} (hleft : Ows left) (hright : Ows right)
      (hkey : Key e.key) (hvalue : Value e.value) :
      Member (left ++ text e ++ right) (some e)

/-- Members between commas, and the entries among them in order. -/
def Header (header : Bytes) (entries : List Entry) : Prop :=
  ∃ members : List (Bytes × Option Entry),
    header = [kListSeparator].intercalate (members.map Prod.fst) ∧
      (∀ m ∈ members, Member m.1 m.2) ∧ members.filterMap Prod.snd = entries

structure Accepted (header : Bytes) (entries : List Entry) : Prop where
  header : Header header entries
  some_entry : 1 ≤ entries.length
  few : entries.length ≤ kMaxEntries
  distinct : (entries.map Entry.key).Nodup

/-! ### Keys -/

theorem isLowerAlpha_iff (c : UInt8) : isLowerAlpha c = true ↔ LcAlpha c := by
  simp [isLowerAlpha, LcAlpha]

theorem isDigit_iff (c : UInt8) : isDigit c = true ↔ Digit c := by simp [isDigit, Digit]

theorem isKeyTailChar_iff (c : UInt8) : isKeyTailChar c = true ↔ KeyChr c := by
  simp [isKeyTailChar, KeyChr, isLowerAlpha_iff, isDigit_iff, or_assoc]

theorem isOptionalWhitespace_iff (c : UInt8) :
    isOptionalWhitespace c = true ↔ c = 0x20 ∨ c = 0x09 := by
  simp [isOptionalWhitespace]

theorem ows_iff (text : Bytes) : Ows text ↔ ∀ c ∈ text, isOptionalWhitespace c = true := by
  simp only [Ows, isOptionalWhitespace_iff]

theorem alphaLed_iff (component : Bytes) (limit : Nat) :
    isLowerAlphaLedComponent component (limit + 1) = true ↔ AlphaLed limit component := by
  cases component with
  | nil => simp [isLowerAlphaLedComponent, AlphaLed]
  | cons c tail =>
      unfold isLowerAlphaLedComponent AlphaLed KeyTail hasValidKeyTail
      by_cases hlen : limit < tail.length
      · have hno : ¬ tail.length ≤ limit := by omega
        simp [hlen, hno]
      · have hyes : tail.length ≤ limit := by omega
        simp [hlen, hyes, isLowerAlpha_iff, isKeyTailChar_iff]

theorem tenantId_iff (component : Bytes) : isTenantId component = true ↔ TenantId component := by
  cases component with
  | nil => simp [isTenantId, TenantId]
  | cons c tail =>
      have hcount : kMaxTenantIdChars < (c :: tail).length ↔ ¬ tail.length ≤ 240 := by
        rw [List.length_cons, kMaxTenantIdChars]
        omega
      unfold isTenantId TenantId KeyTail hasValidKeyTail
      simp only [hcount]
      by_cases hlen : tail.length ≤ 240
      · simp [hlen, isLowerAlpha_iff, isDigit_iff, isKeyTailChar_iff]
      · simp [hlen]

theorem isKeyTailChar_ne {c : UInt8} (h : isKeyTailChar c = true) :
    c ≠ kTenantSeparator ∧ c ≠ kKeyValueSeparator ∧ c ≠ kListSeparator ∧
      isOptionalWhitespace c = false := by
  refine ⟨?_, ?_, ?_, ?_⟩
  · rintro rfl
    exact absurd h (by decide)
  · rintro rfl
    exact absurd h (by decide)
  · rintro rfl
    exact absurd h (by decide)
  · rw [Bool.eq_false_iff]
    intro hws
    rcases (isOptionalWhitespace_iff c).mp hws with rfl | rfl
    · exact absurd h (by decide)
    · exact absurd h (by decide)

theorem AlphaLed.tail_char {limit : Nat} {key : Bytes} (h : AlphaLed limit key) :
    ∀ c ∈ key, isKeyTailChar c = true := by
  obtain ⟨first, tail, rfl, hfirst, -, htail⟩ := h
  intro c hc
  rw [isKeyTailChar_iff]
  rcases List.mem_cons.mp hc with rfl | hc
  · exact .inl hfirst
  · exact htail c hc

theorem TenantId.tail_char {key : Bytes} (h : TenantId key) :
    ∀ c ∈ key, isKeyTailChar c = true := by
  obtain ⟨first, tail, rfl, hfirst, -, htail⟩ := h
  intro c hc
  rw [isKeyTailChar_iff]
  rcases List.mem_cons.mp hc with rfl | hc
  · exact hfirst.elim .inl fun hdigit => .inr (.inl hdigit)
  · exact htail c hc

theorem isValidKey_iff (key : Bytes) : isValidKey key = true ↔ Key key := by
  unfold isValidKey
  constructor
  · intro h
    split at h
    · exact .simple ((alphaLed_iff key 255).mp h)
    · next tenant system hcut =>
      rw [Bool.and_eq_true] at h
      rw [cut_eq_some hcut]
      exact .multiTenant ((tenantId_iff tenant).mp h.1) ((alphaLed_iff system 13).mp h.2)
  · rintro (hkey | ⟨ht, hs⟩)
    · have hat : kTenantSeparator ∉ key := fun hmem =>
        (isKeyTailChar_ne (hkey.tail_char _ hmem)).1 rfl
      rw [cut_of_notMem hat]
      exact (alphaLed_iff key 255).mpr hkey
    · have hat : kTenantSeparator ∉ _ := fun hmem =>
        (isKeyTailChar_ne (ht.tail_char _ hmem)).1 rfl
      rw [cut_append hat]
      simp only [(tenantId_iff _).mpr ht, Bool.true_and]
      exact (alphaLed_iff _ 13).mpr hs

/-- What the delimiters of a header need to know about a key. -/
theorem Key.chars {key : Bytes} (h : Key key) :
    key ≠ [] ∧ ∀ c ∈ key, c ≠ kKeyValueSeparator ∧ c ≠ kListSeparator ∧
      isOptionalWhitespace c = false := by
  cases h with
  | simple h =>
      refine ⟨?_, fun c hc => (isKeyTailChar_ne (h.tail_char c hc)).2⟩
      obtain ⟨first, tail, rfl, -⟩ := h
      simp
  | multiTenant ht hs =>
      refine ⟨by simp, ?_⟩
      intro c hc
      rcases List.mem_append.mp hc with hc | hc
      · exact (isKeyTailChar_ne (ht.tail_char c hc)).2
      · rcases List.mem_cons.mp hc with rfl | hc
        · decide
        · exact (isKeyTailChar_ne (hs.tail_char c hc)).2

/-! ### Values -/

theorem isValueChar_iff (c : UInt8) : isValueChar c = true ↔ Chr c := by
  unfold isValueChar Chr NblkChr kValueLowestChar kValueHighestChar kListSeparator
    kKeyValueSeparator
  simp only [Bool.and_eq_true, decide_eq_true_eq, ne_eq, UInt8.le_iff_toNat_le, ← UInt8.toNat_inj]
  simp
  omega

theorem nblkChr_iff (c : UInt8) : NblkChr c ↔ Chr c ∧ c ≠ 0x20 := by
  unfold Chr NblkChr
  simp only [ne_eq, UInt8.le_iff_toNat_le, ← UInt8.toNat_inj]
  simp
  omega

theorem isValidValue_iff (value : Bytes) : isValidValue value = true ↔ Value value := by
  constructor
  · intro h
    unfold isValidValue at h
    split at h
    · simp at h
    · next hsize =>
      split at h
      · simp at h
      · next hlast =>
        rcases List.eq_nil_or_concat value with rfl | ⟨chars, last, rfl⟩
        · simp at hsize
        · have hall : ∀ c ∈ chars ++ [last], Chr c := fun c hc =>
            (isValueChar_iff c).mp (List.all_eq_true.mp h c (by simpa using hc))
          have hne : last ≠ 0x20 := by simpa [kValueLowestChar] using hlast
          have hlen : chars.length ≤ 255 := by
            simp [kMaxValueChars] at hsize
            omega
          exact ⟨chars, last, by simp, hlen, fun c hc => hall c (by simp [hc]),
            (nblkChr_iff last).mpr ⟨hall last (by simp), hne⟩⟩
  · rintro ⟨chars, last, rfl, hlen, hchars, hlast⟩
    obtain ⟨hchr, hne⟩ := (nblkChr_iff last).mp hlast
    have hsize : ¬ (chars ++ [last] = [] ∨ kMaxValueChars < (chars ++ [last]).length) := by
      simp [kMaxValueChars]
      omega
    have hend : ¬ (chars ++ [last]).getLast? = some kValueLowestChar := by
      simpa [kValueLowestChar] using hne
    unfold isValidValue
    rw [if_neg hsize, if_neg hend, List.all_eq_true]
    intro c hc
    rw [isValueChar_iff]
    rcases List.mem_append.mp hc with hc | hc
    · exact hchars c hc
    · rw [List.mem_singleton.mp hc]
      exact hchr

theorem Chr.ne_comma {c : UInt8} (h : Chr c) : c ≠ kListSeparator := by
  have hval := (isValueChar_iff c).mpr h
  rintro rfl
  exact absurd hval (by decide)

theorem Value.chars {value : Bytes} (h : Value value) :
    value ≠ [] ∧ (∀ c ∈ value, c ≠ kListSeparator) ∧
      ∀ c ∈ value.getLast?, isOptionalWhitespace c = false := by
  obtain ⟨chars, last, rfl, -, hchars, hlast⟩ := h
  obtain ⟨hchr, hne⟩ := (nblkChr_iff last).mp hlast
  refine ⟨by simp, ?_, ?_⟩
  · intro c hc
    rcases List.mem_append.mp hc with hc | hc
    · exact (hchars c hc).ne_comma
    · rw [List.mem_singleton.mp hc]
      exact hchr.ne_comma
  · intro c hc
    have hc : last = c := by simpa using hc
    subst hc
    rw [Bool.eq_false_iff]
    intro hws
    rcases (isOptionalWhitespace_iff last).mp hws with heq | rfl
    · exact hne heq
    · exact absurd ((isValueChar_iff 0x09).mpr hchr) (by decide)

/-! ### Members -/

theorem text_ne_nil (e : Entry) : text e ≠ [] := by simp [text]

theorem text_bare {e : Entry} (hkey : Key e.key) (hvalue : Value e.value) :
    Bare isOptionalWhitespace (text e) where
  head c hc := by
    rw [text, List.head?_append_of_ne_nil _ hkey.chars.1] at hc
    exact (hkey.chars.2 c (List.mem_of_head? hc)).2.2
  last c hc := by
    have hlast : (text e).getLast? = e.value.getLast? := by
      rw [text, List.append_cons, List.getLast?_append_of_ne_nil _ hvalue.chars.1]
    rw [hlast] at hc
    exact hvalue.chars.2.2 c hc

theorem parseMember_iff (member : Bytes) (e : Entry) :
    parseMember member = some e ↔ member = text e ∧ Key e.key ∧ Value e.value := by
  unfold parseMember
  constructor
  · intro h
    split at h
    · simp at h
    · next key value hcut =>
      split at h
      · simp at h
      · next hvalid =>
        obtain rfl := Option.some.inj h
        have hboth : isValidKey key = true ∧ isValidValue value = true := by simpa using hvalid
        exact ⟨cut_eq_some hcut, (isValidKey_iff key).mp hboth.1,
          (isValidValue_iff value).mp hboth.2⟩
  · rintro ⟨rfl, hkey, hvalue⟩
    have hsep : kKeyValueSeparator ∉ e.key := fun hmem => (hkey.chars.2 _ hmem).1 rfl
    rw [text, cut_append hsep]
    simp [(isValidKey_iff e.key).mpr hkey, (isValidValue_iff e.value).mpr hvalue]

/-- What the parser makes of one piece between commas. -/
def parsePiece (piece : Bytes) : Option (Option Entry) :=
  let member := trimOptionalWhitespace piece
  if member = [] then some none else (parseMember member).map some

theorem parsePiece_iff (piece : Bytes) (o : Option Entry) :
    parsePiece piece = some o ↔ Member piece o := by
  unfold parsePiece trimOptionalWhitespace
  constructor
  · intro h
    dsimp only at h
    split at h
    · next hblank =>
      obtain rfl := Option.some.inj h
      exact .blank ((ows_iff piece).mpr (trim_eq_nil_iff.mp hblank))
    · obtain ⟨e, he, rfl⟩ := Option.map_eq_some_iff.mp h
      obtain ⟨htext, hkey, hvalue⟩ := (parseMember_iff _ e).mp he
      obtain ⟨-, left, right, hpiece, hleft, hright⟩ := @trim_spec _ isOptionalWhitespace piece
      rw [hpiece, htext]
      exact .entry ((ows_iff left).mpr hleft) ((ows_iff right).mpr hright) hkey hvalue
  · rintro (hblank | ⟨hleft, hright, hkey, hvalue⟩)
    · simp only [trim_eq_nil_iff.mpr ((ows_iff piece).mp hblank), if_true]
    · next left right e =>
      have htrim : trim isOptionalWhitespace (left ++ text e ++ right) = text e :=
        trim_padded ((ows_iff left).mp hleft) ((ows_iff right).mp hright) (text_bare hkey hvalue)
      simp only [htrim]
      rw [if_neg (text_ne_nil e), (parseMember_iff _ e).mpr ⟨rfl, hkey, hvalue⟩]
      rfl

theorem Member.no_comma {piece : Bytes} {o : Option Entry} (h : Member piece o) :
    kListSeparator ∉ piece := by
  have hows : ∀ padding, Ows padding → kListSeparator ∉ padding := by
    intro padding hpadding hmem
    exact absurd (hpadding _ hmem) (by decide)
  cases h with
  | blank h => exact hows _ h
  | entry hleft hright hkey hvalue =>
      intro hmem
      rcases List.mem_append.mp hmem with hmem | hmem
      · rcases List.mem_append.mp hmem with hmem | hmem
        · exact hows _ hleft hmem
        · rcases List.mem_append.mp hmem with hmem | hmem
          · exact (hkey.chars.2 _ hmem).2.1 rfl
          · rcases List.mem_cons.mp hmem with hsep | hmem
            · exact absurd hsep (by decide)
            · exact hvalue.chars.2.1 _ hmem rfl
      · exact hows _ hright hmem

/-! ### Headers -/

theorem contains_iff (entries : List Entry) (key : Bytes) :
    contains entries key = true ↔ key ∈ entries.map Entry.key := by
  simp [contains]

theorem nodup_keys_concat (entries : List Entry) (e : Entry) :
    ((entries ++ [e]).map Entry.key).Nodup ↔
      e.key ∉ entries.map Entry.key ∧ (entries.map Entry.key).Nodup := by
  rw [List.map_append, List.nodup_append_comm, List.map_singleton, List.singleton_append,
    List.nodup_cons]

/-- One round of `ParseMembers`, by what the piece is. -/
theorem parseMembers_cons (piece : Bytes) (pieces : List Bytes) (entries : List Entry) :
    parseMembers (piece :: pieces) entries =
      match parsePiece piece with
      | none => none
      | some none => parseMembers pieces entries
      | some (some e) =>
          if entries.length = kMaxEntries ∨ e.key ∈ entries.map Entry.key then none
          else parseMembers pieces (entries ++ [e]) := by
  rw [parseMembers]
  unfold parsePiece
  dsimp only
  by_cases hblank : trimOptionalWhitespace piece = []
  · simp [hblank]
  · cases hparse : parseMember (trimOptionalWhitespace piece) with
    | none => simp [hblank]
    | some e =>
        simp only [hblank, if_false, Option.map_some, contains_iff]
        by_cases hfull : entries.length = kMaxEntries
        · simp [hfull]
        · simp [hfull]

/-- The parser accepts the pieces that are members with few, distinct keys. -/
theorem parseMembers_iff {pieces : List Bytes} {before es : List Entry}
    (hfew : before.length ≤ kMaxEntries) (hdistinct : (before.map Entry.key).Nodup) :
    parseMembers pieces before = some es ↔
      ∃ os, List.Forall₂ Member pieces os ∧ es = before ++ os.filterMap id ∧
        es.length ≤ kMaxEntries ∧ (es.map Entry.key).Nodup := by
  induction pieces generalizing before with
  | nil =>
      rw [parseMembers]
      constructor
      · intro h
        obtain rfl := Option.some.inj h
        exact ⟨[], .nil, by simp, hfew, hdistinct⟩
      · rintro ⟨os, hos, rfl, -⟩
        cases hos
        simp
  | cons piece pieces ih =>
      rw [parseMembers_cons]
      constructor
      · intro h
        split at h
        · simp at h
        · next hpiece =>
          obtain ⟨os, hos, hes⟩ := (ih hfew hdistinct).mp h
          exact ⟨none :: os, .cons ((parsePiece_iff _ _).mp hpiece) hos, hes⟩
        · next e hpiece =>
          split at h
          · simp at h
          · next hroom =>
            obtain ⟨hlt, hnew⟩ := not_or.mp hroom
            have hfew' : (before ++ [e]).length ≤ kMaxEntries := by
              rw [List.length_append, List.length_singleton]
              omega
            have hdistinct' : ((before ++ [e]).map Entry.key).Nodup :=
              (nodup_keys_concat before e).mpr ⟨hnew, hdistinct⟩
            obtain ⟨os, hos, hes, hlaws⟩ := (ih hfew' hdistinct').mp h
            refine ⟨some e :: os, .cons ((parsePiece_iff _ _).mp hpiece) hos, ?_, hlaws⟩
            rw [hes]
            simp
      · rintro ⟨os, hos, hes, hlen, hnodup⟩
        cases hos with
        | @cons _ o _ os hpiece hos =>
            rw [(parsePiece_iff _ _).mpr hpiece]
            cases o with
            | none => exact (ih hfew hdistinct).mpr ⟨os, hos, hes, hlen, hnodup⟩
            | some e =>
                have hes' : es = (before ++ [e]) ++ os.filterMap id := by
                  rw [hes]
                  simp
                have hsize : (before ++ [e]).length ≤ kMaxEntries := by
                  have heq := congrArg List.length hes'
                  rw [List.length_append] at heq
                  omega
                have hkeys : ((before ++ [e]).map Entry.key).Nodup := by
                  rw [hes', List.map_append] at hnodup
                  exact hnodup.of_append_left
                have hroom : ¬ (before.length = kMaxEntries ∨ e.key ∈ before.map Entry.key) := by
                  rintro (hfull | hmem)
                  · simp at hsize
                    omega
                  · exact ((nodup_keys_concat before e).mp hkeys).1 hmem
                dsimp only
                rw [if_neg hroom]
                exact (ih hsize hkeys).mpr ⟨os, hos, hes', hlen, hnodup⟩

theorem filterMap_forall₂ {pieces : List Bytes} {os : List (Option Entry)}
    (h : List.Forall₂ Member pieces os) :
    ∃ members : List (Bytes × Option Entry), members.map Prod.fst = pieces ∧
      members.map Prod.snd = os ∧ ∀ m ∈ members, Member m.1 m.2 := by
  induction h with
  | nil => exact ⟨[], rfl, rfl, by simp⟩
  | @cons piece o pieces os hm _ ih =>
      obtain ⟨members, hfst, hsnd, hall⟩ := ih
      refine ⟨(piece, o) :: members, by simp [hfst], by simp [hsnd], ?_⟩
      intro m hmem
      rcases List.mem_cons.mp hmem with rfl | hmem
      · exact hm
      · exact hall m hmem

/-- The pieces of a header, read by the grammar. -/
theorem header_iff (header : Bytes) (es : List Entry) :
    Header header es ↔
      ∃ os, List.Forall₂ Member (header.splitOn kListSeparator) os ∧ es = os.filterMap id := by
  constructor
  · rintro ⟨members, rfl, hall, rfl⟩
    cases members with
    | nil =>
        refine ⟨[none], ?_, rfl⟩
        have hblank : Member [] none := .blank (by simp [Ows])
        simpa using hblank
    | cons m members =>
        have hcomma : ∀ piece ∈ (m :: members).map Prod.fst, kListSeparator ∉ piece := by
          intro piece hpiece
          obtain ⟨x, hx, rfl⟩ := List.mem_map.mp hpiece
          exact (hall x hx).no_comma
        refine ⟨(m :: members).map Prod.snd, ?_, by simp [List.filterMap_map]⟩
        rw [List.splitOn_intercalate _ hcomma (by simp), List.forall₂_map_left_iff,
          List.forall₂_map_right_iff, List.forall₂_same]
        exact hall
  · rintro ⟨os, hos, rfl⟩
    obtain ⟨members, hfst, hsnd, hall⟩ := filterMap_forall₂ hos
    refine ⟨members, ?_, hall, ?_⟩
    · rw [hfst, List.intercalate_splitOn]
    · rw [← hsnd, List.filterMap_map]
      rfl

theorem fromHeader_of_accepted {header : Bytes} {es : List Entry} (h : Accepted header es) :
    fromHeader header = { entries := some es } := by
  obtain ⟨os, hos, hes⟩ := (header_iff header es).mp h.header
  have hparse : parseMembers (header.splitOn kListSeparator) [] = some es :=
    (parseMembers_iff (by simp) (by simp)).mpr ⟨os, hos, by simpa using hes, h.few, h.distinct⟩
  have hne : es ≠ [] := by
    rintro rfl
    exact absurd h.some_entry (by simp)
  unfold fromHeader
  rw [hparse]
  simp [hne]

theorem accepted_of_fromHeader {header : Bytes} (h : fromHeader header ≠ {}) :
    ∃ es, Accepted header es := by
  unfold fromHeader at h
  split at h
  · exact absurd rfl h
  · next es hparse =>
    split at h
    · exact absurd rfl h
    · next hne =>
      obtain ⟨os, hos, hes, hfew, hdistinct⟩ := (parseMembers_iff (by simp) (by simp)).mp hparse
      exact ⟨es, (header_iff header es).mpr ⟨os, hos, by simpa using hes⟩,
        List.length_pos_iff.mpr hne, hfew, hdistinct⟩

end Microtel.Api.TraceState
