import Microtel.Api.Baggage
import Microtel.Lib.Octets

/-!
The text of a baggage member: percent-coding and its inverse, the canonical form
of the properties, and that a member is read back as it was written.
-/

namespace Microtel.Api.Baggage

open Delimited

/-! ### Characters -/

theorem not_whitespace {c : UInt8} (hspace : c ≠ 0x20) (htab : c ≠ 0x09) :
    isOptionalWhitespace c = false := by
  simp [isOptionalWhitespace, hspace, htab]

theorem tokenChar_ne {c : UInt8} (h : isTokenChar c = true) :
    c ≠ kKeyValueSeparator ∧ c ≠ kPropertySeparator ∧ c ≠ kListSeparator ∧
      isOptionalWhitespace c = false := by
  refine ⟨?_, ?_, ?_, not_whitespace ?_ ?_⟩
  all_goals
    rintro rfl
    revert h
    decide

theorem baggageOctet_ne {c : UInt8} (h : isBaggageOctet c = true) :
    c ≠ kPropertySeparator ∧ c ≠ kListSeparator ∧ isOptionalWhitespace c = false := by
  refine ⟨?_, ?_, not_whitespace ?_ ?_⟩
  all_goals
    rintro rfl
    revert h
    decide

theorem isToken_iff (text : Bytes) :
    isToken text = true ↔ text ≠ [] ∧ ∀ c ∈ text, isTokenChar c = true := by
  simp [isToken]

theorem isWireValue_iff (text : Bytes) :
    isWireValue text = true ↔ ∀ c ∈ text, isBaggageOctet c = true := by
  simp [isWireValue]

/-- A text of neither delimiters nor whitespace, the form all parts have. -/
def Plain (text : Bytes) : Prop :=
  ∀ c ∈ text, c ≠ kPropertySeparator ∧ c ≠ kListSeparator ∧ isOptionalWhitespace c = false

namespace Plain

variable {text : Bytes}

theorem of_token (h : isToken text = true) : Plain text := fun c hc =>
  (tokenChar_ne (((isToken_iff text).mp h).2 c hc)).2

theorem of_wireValue (h : isWireValue text = true) : Plain text := fun c hc =>
  baggageOctet_ne ((isWireValue_iff text).mp h c hc)

theorem append {text' : Bytes} (h : Plain text) (h' : Plain text') : Plain (text ++ text') := by
  intro c hc
  rcases List.mem_append.mp hc with hc | hc
  · exact h c hc
  · exact h' c hc

theorem equals (h : Plain text) : Plain (kKeyValueSeparator :: text) := by
  intro c hc
  rcases List.mem_cons.mp hc with rfl | hc
  · decide
  · exact h c hc

theorem trim_eq (h : Plain text) : trimOptionalWhitespace text = text :=
  trim_bare (bare_of_forall fun c hc => (h c hc).2.2)

theorem no_semicolon (h : Plain text) : kPropertySeparator ∉ text := fun hmem => (h _ hmem).1 rfl

end Plain

theorem token_no_equals {text : Bytes} (h : isToken text = true) : kKeyValueSeparator ∉ text :=
  fun hmem => (tokenChar_ne (((isToken_iff text).mp h).2 _ hmem)).1 rfl

/-! ### Values -/

/-- What one octet of a value becomes on the wire. -/
def escaped (c : UInt8) : Bytes := appendOctet [] c

theorem appendOctet_eq (out : Bytes) (c : UInt8) : appendOctet out c = out ++ escaped c := by
  unfold escaped appendOctet
  split <;> simp

theorem appendEncoded_eq (decoded out : Bytes) :
    appendEncoded decoded out = out ++ decoded.flatMap escaped := by
  unfold appendEncoded
  induction decoded generalizing out with
  | nil => simp
  | cons c decoded ih =>
      rw [List.foldl_cons, ih, appendOctet_eq, List.flatMap_cons, List.append_assoc]

/-- The digits of an escape are octets of a value, and read back. -/
theorem upper_table {n : Nat} (h : n < 16) :
    isBaggageOctet (kUpperHexDigits.getD n 0) = true ∧
      isHexDigit (kUpperHexDigits.getD n 0) = true ∧
      hexDigitValue (kUpperHexDigits.getD n 0) = UInt8.ofNat n := by
  revert n
  decide

/-- The escape of an octet: written in octets of a value, with two digits that read back as
the octet. -/
theorem escape_table (c : UInt8) :
    isWireValue (escaped c) = true ∧
      let high := kUpperHexDigits.getD ((c >>> kNibbleShift) &&& kLowNibbleMask).toNat 0
      let low := kUpperHexDigits.getD (c &&& kLowNibbleMask).toNat 0
      isHexDigit high = true ∧ isHexDigit low = true ∧
        (hexDigitValue high <<< kNibbleShift) ||| hexDigitValue low = c := by
  obtain ⟨hhigh, hhighDigit, hhighValue⟩ := upper_table (Octets.high_lt c)
  obtain ⟨hlow, hlowDigit, hlowValue⟩ := upper_table (Octets.low_lt c)
  unfold escaped appendOctet kNibbleShift kLowNibbleMask
  rw [Octets.masked_nibble, Octets.low_nibble, Octets.toNat_nibble (Octets.high_lt c),
    Octets.toNat_nibble (Octets.low_lt c)]
  refine ⟨?_, hhighDigit, hlowDigit, ?_⟩
  · cases hescape : needsEscape c with
    | true =>
        have hprefix : isBaggageOctet kEscapePrefix = true := by decide
        change ([kEscapePrefix, _, _] : Bytes).all isBaggageOctet = true
        rw [List.all_cons, List.all_cons, List.all_cons, hprefix, hhigh, hlow]
        rfl
    | false =>
        obtain ⟨hplain, -⟩ := Bool.or_eq_false_iff.mp hescape
        rw [Bool.not_eq_false'] at hplain
        change ([c] : Bytes).all isBaggageOctet = true
        rw [List.all_cons, hplain]
        rfl
  · rw [hhighValue, hlowValue]
    exact Octets.or_nibbles c

theorem escaped_wire (c : UInt8) : isWireValue (escaped c) = true :=
  (escape_table c).1

theorem encoded_wire (decoded : Bytes) : isWireValue (decoded.flatMap escaped) = true := by
  rw [isWireValue_iff]
  intro c hc
  obtain ⟨octet, -, hc⟩ := List.mem_flatMap.mp hc
  exact (isWireValue_iff _).mp (escaped_wire octet) c hc

/-- The escape of an octet that needs one. -/
theorem escaped_pair (c : UInt8) (h : needsEscape c = true) :
    ∃ high low, escaped c = [kEscapePrefix, high, low] ∧ isHexDigit high = true ∧
      isHexDigit low = true ∧ (hexDigitValue high <<< kNibbleShift) ||| hexDigitValue low = c := by
  obtain ⟨-, hdigits⟩ := escape_table c
  refine ⟨_, _, ?_, hdigits⟩
  rw [escaped, appendOctet, h]
  rfl

theorem escaped_plain {c : UInt8} (h : needsEscape c = false) :
    escaped c = [c] ∧ isBaggageOctet c = true ∧ c ≠ kEscapePrefix := by
  have hparts : isBaggageOctet c = true ∧ c ≠ kEscapePrefix := by
    simpa [needsEscape] using h
  exact ⟨by simp [escaped, appendOctet, h], hparts⟩

theorem decodeValue_escaped (c : UInt8) (rest : Bytes) :
    decodeValue (escaped c ++ rest) = (decodeValue rest).map (c :: ·) := by
  by_cases hescape : needsEscape c = true
  · obtain ⟨high, low, heq, hhigh, hlow, hvalue⟩ := escaped_pair c hescape
    have hprefix : isBaggageOctet kEscapePrefix = true := by decide
    rw [heq]
    simp [decodeValue, hprefix, hhigh, hlow, hvalue]
  · rw [Bool.not_eq_true] at hescape
    obtain ⟨heq, hoctet, hne⟩ := escaped_plain hescape
    rw [heq, List.singleton_append]
    conv => lhs; unfold decodeValue
    simp [hoctet, hne]

theorem decodeValue_encoded (decoded : Bytes) :
    decodeValue (decoded.flatMap escaped) = some decoded := by
  induction decoded with
  | nil => rfl
  | cons c decoded ih => rw [List.flatMap_cons, decodeValue_escaped, ih, Option.map_some]

theorem encodedSize_eq (decoded : Bytes) :
    encodedSize decoded = (decoded.flatMap escaped).length := by
  have hfold : ∀ size,
    decoded.foldl (fun size c => size + if needsEscape c then kEscapeChars else 1)
      size = size + (decoded.flatMap escaped).length := by
    induction decoded with
    | nil => simp
    | cons c decoded ih =>
        intro size
        have hlen : (escaped c).length = if needsEscape c then kEscapeChars else 1 := by
          unfold escaped appendOctet
          cases needsEscape c <;> rfl
        rw [List.foldl_cons, ih, List.flatMap_cons, List.length_append, hlen, Nat.add_assoc]
  rw [encodedSize, hfold, Nat.zero_add]

/-! ### Properties -/

/-- A property in the form `AppendProperty` writes. -/
inductive Property : Bytes → Prop
  | name {name : Bytes} (h : isToken name = true) : Property name
  | pair {name value : Bytes} (h : isToken name = true) (hvalue : isWireValue value = true) :
      Property (name ++ kKeyValueSeparator :: value)

namespace Property

variable {property : Bytes}

theorem plain (h : Property property) : Plain property := by
  cases h with
  | name h => exact .of_token h
  | pair h hvalue => exact (Plain.of_token h).append (Plain.of_wireValue hvalue).equals

theorem ne_nil (h : Property property) : property ≠ [] := by
  cases h with
  | name h => exact ((isToken_iff _).mp h).1
  | pair h hvalue => simp

end Property

/-- What `AppendProperty` writes is a property. -/
theorem property_of_appendProperty {text out out' : Bytes}
    (h : appendProperty text out = some out') :
    ∃ property, Property property ∧ out' = push kPropertySeparator out property := by
  unfold appendProperty at h
  dsimp only at h
  split at h
  · cases h
  · next htoken =>
    rw [Bool.not_eq_true, Bool.not_eq_false'] at htoken
    split at h
    · exact ⟨_, .name htoken, (Option.some.inj h).symm⟩
    · split at h
      · cases h
      · next hvalue =>
        rw [Bool.not_eq_true, Bool.not_eq_false'] at hvalue
        refine ⟨_, .pair htoken hvalue, ?_⟩
        rw [← Option.some.inj h, push]
        simp

/-- And a property is written as it is. -/
theorem Property.appendProperty {property : Bytes} (h : Property property) (out : Bytes) :
    Baggage.appendProperty property out = some (push kPropertySeparator out property) := by
  cases h with
  | name h =>
      simp [Baggage.appendProperty, cut_of_notMem (token_no_equals h), (Plain.of_token h).trim_eq,
        h, push]
  | pair h hvalue =>
      simp [Baggage.appendProperty, cut_append (token_no_equals h), (Plain.of_token h).trim_eq, h,
        (Plain.of_wireValue hvalue).trim_eq, hvalue, push]

theorem properties_of_parseProperties {pieces : List Bytes} {out out' : Bytes}
    (h : parseProperties pieces out = some out') :
    ∃ properties : List Bytes, (∀ property ∈ properties, Property property) ∧
      out' = properties.foldl (push kPropertySeparator) out := by
  induction pieces generalizing out with
  | nil => exact ⟨[], by simp, (Option.some.inj h).symm⟩
  | cons piece pieces ih =>
      unfold parseProperties at h
      split at h
      · cases h
      · next out₁ hfirst =>
        obtain ⟨property, hproperty, rfl⟩ := property_of_appendProperty hfirst
        obtain ⟨properties, hall, rfl⟩ := ih h
        refine ⟨property :: properties, ?_, rfl⟩
        intro p hp
        rcases List.mem_cons.mp hp with rfl | hp
        · exact hproperty
        · exact hall p hp

theorem parseProperties_properties {properties : List Bytes}
    (h : ∀ property ∈ properties, Property property) (out : Bytes) :
    parseProperties properties out = some (properties.foldl (push kPropertySeparator) out) := by
  induction properties generalizing out with
  | nil => rfl
  | cons property properties ih =>
      have hfirst : Property property := h property (by simp)
      rw [parseProperties, hfirst.plain.trim_eq, hfirst.appendProperty]
      exact ih (fun p hp => h p (by simp [hp])) _

/-- A property tail as an entry holds it. -/
def Tail (tail : Bytes) : Prop :=
  ∃ properties : List Bytes, (∀ property ∈ properties, Property property) ∧
    tail = properties.foldl (push kPropertySeparator) []

namespace Tail

variable {tail : Bytes}

theorem parse (h : Tail tail) (hne : tail ≠ []) :
    parseProperties (tail.splitOn kPropertySeparator) [] = some tail := by
  obtain ⟨properties, hall, rfl⟩ := h
  have hsome : properties ≠ [] := by
    rintro rfl
    exact hne rfl
  rw [splitOn_foldl_push hsome (fun p hp => (hall p hp).ne_nil)
    (fun p hp => (hall p hp).plain.no_semicolon)]
  exact parseProperties_properties hall []

theorem chars (h : Tail tail) :
    ∀ c ∈ tail, c ≠ kListSeparator ∧ isOptionalWhitespace c = false := by
  obtain ⟨properties, hall, rfl⟩ := h
  intro c hc
  rcases mem_foldl_push hc with hc | rfl | ⟨property, hproperty, hc⟩
  · simp at hc
  · decide
  · exact ((hall property hproperty).plain c hc).2

end Tail

/-! ### Members -/

/-- A member as `ToHeader` writes it. -/
def text (e : Entry) : Bytes :=
  e.key ++ kKeyValueSeparator :: (e.value.flatMap escaped ++
    if e.properties = [] then [] else kPropertySeparator :: e.properties)

structure Formed (e : Entry) : Prop where
  key : isToken e.key = true
  tail : Tail e.properties
  cached : e = makeEntry e.key e.value e.properties

theorem appendMember_eq (header : Bytes) (e : Entry) :
    appendMember header e = push kListSeparator header (text e) := by
  unfold appendMember push text
  dsimp only
  rw [appendEncoded_eq]
  split <;> simp

theorem text_ne_nil (e : Entry) : text e ≠ [] := by
  simp [text]

theorem formed_makeEntry {key value tail : Bytes} (hkey : isToken key = true) (htail : Tail tail) :
    Formed (makeEntry key value tail) where
  key := hkey
  tail := htail
  cached := rfl

theorem formed_of_parseMember {member : Bytes} {e : Entry} (h : parseMember member = some e) :
    Formed e := by
  unfold parseMember at h
  dsimp only at h
  split at h
  · cases h
  · split at h
    · cases h
    · next hkey =>
      rw [Bool.not_eq_true, Bool.not_eq_false'] at hkey
      split at h
      · cases h
      · split at h
        · rw [← Option.some.inj h]
          exact formed_makeEntry hkey ⟨[], by simp, rfl⟩
        · obtain ⟨tail, htail, rfl⟩ := Option.map_eq_some_iff.mp h
          obtain ⟨properties, hall, rfl⟩ := properties_of_parseProperties htail
          exact formed_makeEntry hkey ⟨properties, hall, rfl⟩

namespace Formed

variable {e : Entry}

theorem length_text (h : Formed e) : (text e).length = e.memberBytes := by
  rw [h.cached]
  unfold text makeEntry
  rw [encodedSize_eq]
  dsimp only
  split
  · simp [kKeyValueSeparatorChars]
    omega
  · simp [kKeyValueSeparatorChars, kPropertySeparatorChars]
    omega

theorem chars (h : Formed e) :
    ∀ c ∈ text e, c ≠ kListSeparator ∧ isOptionalWhitespace c = false := by
  intro c hc
  have hhead : Plain (e.key ++ kKeyValueSeparator :: e.value.flatMap escaped) :=
    (Plain.of_token h.key).append (Plain.of_wireValue (encoded_wire e.value)).equals
  unfold text at hc
  split at hc
  · rw [List.append_nil] at hc
    exact (hhead c hc).2
  · rw [← List.cons_append, ← List.append_assoc] at hc
    rcases List.mem_append.mp hc with hc | hc
    · exact (hhead c hc).2
    · rcases List.mem_cons.mp hc with rfl | hc
      · decide
      · exact h.tail.chars c hc

/-- The parser reads a member back as it was written. -/
theorem parseMember_text (h : Formed e) : parseMember (text e) = some e := by
  have hkey : Plain e.key := .of_token h.key
  have hvalue : Plain (e.value.flatMap escaped) := .of_wireValue (encoded_wire e.value)
  have hhead : kPropertySeparator ∉ e.key ++ kKeyValueSeparator :: e.value.flatMap escaped :=
    (hkey.append hvalue.equals).no_semicolon
  have hcut : cut kPropertySeparator (text e) =
      (e.key ++ kKeyValueSeparator :: e.value.flatMap escaped,
        if e.properties = [] then none else some e.properties) := by
    unfold text
    split
    · rw [List.append_nil]
      exact cut_of_notMem hhead
    · rw [← List.cons_append, ← List.append_assoc]
      exact cut_append hhead _
  unfold parseMember
  rw [hcut]
  dsimp only
  rw [cut_append (token_no_equals h.key)]
  dsimp only
  rw [hkey.trim_eq, h.key, hvalue.trim_eq, decodeValue_encoded]
  have hsame : makeEntry e.key e.value e.properties = e := h.cached.symm
  by_cases hnil : e.properties = []
  · rw [hnil] at hsame
    simp [hnil, hsame]
  · simp [hnil, h.tail.parse hnil, hsame]

theorem parsePiece_text (h : Formed e) : parsePiece (text e) = some e := by
  have htrim : trimOptionalWhitespace (text e) = text e :=
    trim_bare (bare_of_forall fun c hc => (h.chars c hc).2)
  unfold parsePiece
  rw [htrim]
  dsimp only
  rw [if_neg (text_ne_nil e)]
  exact h.parseMember_text

end Formed

theorem formed_of_parsePiece {piece : Bytes} {e : Entry} (h : parsePiece piece = some e) :
    Formed e := by
  unfold parsePiece at h
  dsimp only at h
  split at h
  · cases h
  · exact formed_of_parseMember h

end Microtel.Api.Baggage
