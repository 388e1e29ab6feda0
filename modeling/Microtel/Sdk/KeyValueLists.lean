import Microtel.Sdk.ResourceBuilder
import Microtel.Lib.Octets

/-!
The key=value lists of the environment (`src/common/config/env_resolver.cpp`). How such
a list may be written is a relation, since neither the case of the hex digits nor what
is escaped beyond the necessary nor the whitespace is fixed; every way to write a list
is read back as that list, and what is refused is told from the members alone.
-/

namespace Microtel.Configuration

open Concentrator Delimited

/-! ### How a list is written -/

/-- Space and tab. -/
def isOws (c : UInt8) : Bool := c = 0x20 || c = 0x09

theorem trimOws_eq (text : Bytes) : trimOws text = trim isOws text := rfl

def hexDigits (upper : Bool) : Bytes :=
  if upper then ascii "0123456789ABCDEF" else ascii "0123456789abcdef"

def hexDigit (upper : Bool) (nibble : Nat) : UInt8 := (hexDigits upper).getD nibble 0

/-- A value's byte that has to be escaped. -/
def needsPercent (c : UInt8) : Bool := c = kPercent || c = kListSeparator || isOws c

/-- The text is a percent-encoding of the value; the two digits of an escape need not
have the same case. -/
inductive PercentEncodes : Bytes → Bytes → Prop
  | nil : PercentEncodes [] []
  | literal {c : UInt8} {value text : Bytes} (hplain : needsPercent c = false)
      (hrest : PercentEncodes value text) : PercentEncodes (c :: value) (c :: text)
  | escaped {c : UInt8} {value text : Bytes} (upperHigh upperLow : Bool)
      (hrest : PercentEncodes value text) :
      PercentEncodes (c :: value)
        (kPercent :: hexDigit upperHigh (c.toNat / 16) :: hexDigit upperLow (c.toNat % 16) :: text)

/-- A key that can be written without an encoding. -/
structure PlainKey (key : Bytes) : Prop where
  nonempty : key ≠ []
  comma : kListSeparator ∉ key
  equals : kKeyValueSeparator ∉ key
  bare : Bare isOws key

def IsOws (padding : Bytes) : Prop := ∀ c ∈ padding, isOws c = true

/-- The texts between the commas, for a list of pairs: one text for each pair, and any
number of empty ones. -/
inductive WritesMembers : List (Bytes × Bytes) → List Bytes → Prop
  | nil : WritesMembers [] []
  | empty {pairs : List (Bytes × Bytes)} {members : List Bytes} {padding : Bytes}
      (hpadding : IsOws padding) (hrest : WritesMembers pairs members) :
      WritesMembers pairs (padding :: members)
  | pair {pairs : List (Bytes × Bytes)} {members : List Bytes} {key value text : Bytes}
      {before afterKey beforeValue after : Bytes} (hkey : PlainKey key)
      (hvalue : PercentEncodes value text) (hbefore : IsOws before) (hafterKey : IsOws afterKey)
      (hbeforeValue : IsOws beforeValue) (hafter : IsOws after)
      (hrest : WritesMembers pairs members) :
      WritesMembers ((key, value) :: pairs)
        ((before ++ key ++ afterKey ++ kKeyValueSeparator :: (beforeValue ++ text ++ after)) ::
          members)

def joinMembers (members : List Bytes) : Bytes := [kListSeparator].intercalate members

/-! ### Percent-encoded values -/

theorem hexDigit_table (upper : Bool) {n : Nat} (h : n < 16) :
    Api.Baggage.isHexDigit (hexDigit upper n) = true ∧
      Api.Baggage.hexDigitValue (hexDigit upper n) = UInt8.ofNat n := by
  revert upper
  revert n
  decide +kernel

theorem hexByte_hexDigit (c : UInt8) (upperHigh upperLow : Bool) :
    hexByte (hexDigit upperHigh (c.toNat / 16)) (hexDigit upperLow (c.toNat % 16)) = some c := by
  obtain ⟨hhigh, hhighValue⟩ := hexDigit_table upperHigh (Octets.high_lt c)
  obtain ⟨hlow, hlowValue⟩ := hexDigit_table upperLow (Octets.low_lt c)
  rw [hexByte, hhigh, hlow, hhighValue, hlowValue, Octets.add_nibbles]
  rfl

theorem hexDigit_plain {n : Nat} (h : n < 16) (upper : Bool) :
    needsPercent (hexDigit upper n) = false := by
  revert upper
  revert n
  decide

theorem needsPercent_eq_false {c : UInt8} (h : needsPercent c = false) :
    c ≠ kPercent ∧ c ≠ kListSeparator ∧ isOws c = false := by
  simpa [needsPercent, and_assoc] using h

theorem percentDecode_literal {c : UInt8} (h : c ≠ kPercent) (text : Bytes) :
    percentDecode (c :: text) = (percentDecode text).map (c :: ·) := by
  conv => lhs; unfold percentDecode
  exact if_pos h

theorem percentDecode_escape (high low : UInt8) (text : Bytes) :
    percentDecode (kPercent :: high :: low :: text) =
      (hexByte high low).bind fun c => (percentDecode text).map (c :: ·) := by
  rw [percentDecode, if_neg (by simp)]
  cases hexByte high low with
  | none => rfl
  | some c => rfl

namespace PercentEncodes

variable {value text : Bytes}

theorem decode (h : PercentEncodes value text) : percentDecode text = some value := by
  induction h with
  | nil => rfl
  | literal hplain _ ih =>
      rw [percentDecode_literal (needsPercent_eq_false hplain).1, ih]
      rfl
  | escaped upperHigh upperLow _ ih =>
      rw [percentDecode_escape, hexByte_hexDigit, ih]
      rfl

/-- Of the bytes that need an escape only the percent sign is left in the text. -/
theorem mem (h : PercentEncodes value text) :
    ∀ c ∈ text, c = kPercent ∨ needsPercent c = false := by
  induction h with
  | nil => simp
  | literal hplain _ ih =>
      intro c hc
      rcases List.mem_cons.mp hc with rfl | hc
      · exact .inr hplain
      · exact ih c hc
  | @escaped d _ _ upperHigh upperLow _ ih =>
      have hd := d.toNat_lt
      intro c hc
      simp only [List.mem_cons] at hc
      rcases hc with rfl | rfl | rfl | hc
      · exact .inl rfl
      · exact .inr (hexDigit_plain (by omega) upperHigh)
      · exact .inr (hexDigit_plain (by omega) upperLow)
      · exact ih c hc

theorem not_ows (h : PercentEncodes value text) : ∀ c ∈ text, isOws c = false := by
  intro c hc
  rcases h.mem c hc with rfl | hplain
  · decide
  · exact (needsPercent_eq_false hplain).2.2

theorem comma_notMem (h : PercentEncodes value text) : kListSeparator ∉ text := by
  intro hc
  rcases h.mem _ hc with heq | hplain
  · revert heq
    decide
  · exact (needsPercent_eq_false hplain).2.1 rfl

end PercentEncodes

/-! ### Members -/

theorem bare_of_all {text : Bytes} (h : (text.all fun c => !isOws c) = true) : Bare isOws text := by
  apply bare_of_forall
  intro c hc
  have hnot := List.all_eq_true.mp h c hc
  simpa using hnot

theorem IsOws.append {left right : Bytes} (hleft : IsOws left) (hright : IsOws right) :
    IsOws (left ++ right) := by
  intro c hc
  rcases List.mem_append.mp hc with hc | hc
  · exact hleft c hc
  · exact hright c hc

theorem IsOws.notMem {padding : Bytes} (h : IsOws padding) {c : UInt8} (hc : isOws c = false) :
    c ∉ padding := by
  intro hmem
  rw [h c hmem] at hc
  cases hc

theorem IsOws.nil : IsOws [] := by
  intro c hc
  cases hc

/-- What is left of a member once the whitespace around it is gone: of the whitespace
before the value only what a value follows. -/
theorem trim_member {key text before beforeValue after : Bytes} (afterKey : Bytes)
    (hkey : PlainKey key) (htext : ∀ c ∈ text, isOws c = false) (hbefore : IsOws before)
    (hbeforeValue : IsOws beforeValue) (hafter : IsOws after) :
    ∃ kept, trimOws (before ++ key ++ afterKey ++
        kKeyValueSeparator :: (beforeValue ++ text ++ after)) =
          key ++ afterKey ++ kKeyValueSeparator :: kept ∧ trimOws kept = text := by
  have hhead : ∀ rest, ∀ c ∈ (key ++ rest).head?, isOws c = false := by
    intro rest c hc
    rw [List.head?_append_of_ne_nil _ hkey.nonempty] at hc
    exact hkey.bare.head c hc
  cases hnil : text with
  | nil =>
      refine ⟨[], ?_, rfl⟩
      have hbare : Bare isOws (key ++ (afterKey ++ [kKeyValueSeparator])) := by
        refine ⟨hhead _, ?_⟩
        intro c hc
        have heq : kKeyValueSeparator = c := by simpa using hc
        rw [← heq]
        decide
      have htrim := trim_padded hbefore (hbeforeValue.append hafter) hbare
      rw [trimOws_eq]
      simpa using htrim
  | cons c rest =>
      rw [← hnil]
      have hlast : ∀ c ∈ text.getLast?, isOws c = false :=
        fun c hc => htext c (List.mem_of_getLast? hc)
      refine ⟨beforeValue ++ text, ?_, ?_⟩
      · have hbare : Bare isOws
            (key ++ (afterKey ++ kKeyValueSeparator :: (beforeValue ++ text))) := by
          refine ⟨hhead _, ?_⟩
          intro d hd
          apply hlast d
          have hne : text ≠ [] := by simp [hnil]
          rwa [← List.append_assoc, List.getLast?_append_of_ne_nil _ (by simp),
            List.getLast?_cons_of_ne_nil (by simp [hne]),
            List.getLast?_append_of_ne_nil _ hne] at hd
        have htrim := trim_padded hbefore hafter hbare
        rw [trimOws_eq]
        simpa using htrim
      · have htrim := trim_padded hbeforeValue IsOws.nil (bare_of_forall htext)
        rw [trimOws_eq]
        simpa using htrim

theorem parseEntry_eq (varName : Bytes) (entry : Nat) (piece : Bytes) :
    parseEntry varName entry piece =
      if trimOws piece = [] then .ok none
      else
        match cut kKeyValueSeparator (trimOws piece) with
        | (_, none) => .error (missingEqualsError varName entry)
        | (before, some after) =>
            match percentDecode (trimOws after) with
            | none => .error (malformedEscapeError varName (trimOws before))
            | some value => .ok (some ⟨trimOws before, .string value⟩) := by
  unfold parseEntry
  exact if_congr List.isEmpty_iff rfl rfl

theorem parseEntry_pair {key value text before afterKey beforeValue after : Bytes}
    (hkey : PlainKey key) (hvalue : PercentEncodes value text) (hbefore : IsOws before)
    (hafterKey : IsOws afterKey) (hbeforeValue : IsOws beforeValue) (hafter : IsOws after)
    (varName : Bytes) (entry : Nat) :
    parseEntry varName entry (before ++ key ++ afterKey ++
        kKeyValueSeparator :: (beforeValue ++ text ++ after)) =
      .ok (some ⟨key, .string value⟩) := by
  obtain ⟨kept, htoken, hkept⟩ :=
    trim_member afterKey hkey hvalue.not_ows hbefore hbeforeValue hafter
  have hequals : kKeyValueSeparator ∉ key ++ afterKey := by
    intro hmem
    rcases List.mem_append.mp hmem with hmem | hmem
    · exact hkey.equals hmem
    · exact hafterKey.notMem (by decide) hmem
  have hname : trimOws (key ++ afterKey) = key := by
    have htrim := trim_padded IsOws.nil hafterKey hkey.bare
    rw [trimOws_eq]
    simpa using htrim
  rw [parseEntry_eq, htoken, if_neg (by simp), cut_append hequals]
  simp only [hname, hkept, hvalue.decode]

theorem parseEntry_empty {padding : Bytes} (h : IsOws padding) (varName : Bytes) (entry : Nat) :
    parseEntry varName entry padding = .ok none := by
  have htoken : trimOws padding = [] := trim_eq_nil_iff.mpr h
  rw [parseEntry_eq, if_pos htoken]

theorem parseEntries_cons {varName : Bytes} {entry : Nat} {piece : Bytes} {kv : Option KeyValue}
    (h : parseEntry varName entry piece = .ok kv) (pieces : List Bytes) :
    parseEntries varName entry (piece :: pieces) =
      (parseEntries varName (entry + 1) pieces).map (kv.toList ++ ·) := by
  rw [parseEntries, h]
  cases parseEntries varName (entry + 1) pieces with
  | error e => rfl
  | ok rest => rfl

theorem parseEntries_cons_error {varName : Bytes} {entry : Nat} {piece : Bytes} {e : ConfigError}
    (h : parseEntry varName entry piece = .error e) (pieces : List Bytes) :
    parseEntries varName entry (piece :: pieces) = .error e := by
  rw [parseEntries, h]
  rfl

/-! ### Lists -/

namespace WritesMembers

variable {pairs : List (Bytes × Bytes)} {members : List Bytes}

theorem parse (h : WritesMembers pairs members) (varName : Bytes) :
    ∀ entry, parseEntries varName entry members =
      .ok (pairs.map fun pair => ⟨pair.1, .string pair.2⟩) := by
  induction h with
  | nil =>
      intro entry
      rfl
  | empty hpadding _ ih =>
      intro entry
      rw [parseEntries_cons (parseEntry_empty hpadding varName entry), ih]
      rfl
  | pair hkey hvalue hbefore hafterKey hbeforeValue hafter _ ih =>
      intro entry
      have hentry :=
        parseEntry_pair hkey hvalue hbefore hafterKey hbeforeValue hafter varName entry
      rw [parseEntries_cons hentry, ih]
      rfl

theorem comma_notMem (h : WritesMembers pairs members) :
    ∀ member ∈ members, kListSeparator ∉ member := by
  have hows : isOws kListSeparator = false := by decide
  induction h with
  | nil => simp
  | empty hpadding _ ih =>
      intro member hmember
      rcases List.mem_cons.mp hmember with rfl | hmember
      · exact hpadding.notMem hows
      · exact ih member hmember
  | pair hkey hvalue hbefore hafterKey hbeforeValue hafter _ ih =>
      intro member hmember
      rcases List.mem_cons.mp hmember with rfl | hmember
      · have hne : kListSeparator ≠ kKeyValueSeparator := by decide
        simp [hkey.comma, hvalue.comma_notMem, hne, hbefore.notMem hows, hafterKey.notMem hows,
          hbeforeValue.notMem hows, hafter.notMem hows]
      · exact ih member hmember

end WritesMembers

theorem splitOn_joinMembers {members : List Bytes} (hsome : members ≠ [])
    (h : ∀ member ∈ members, kListSeparator ∉ member) :
    (joinMembers members).splitOn kListSeparator = members :=
  List.splitOn_intercalate kListSeparator h hsome

/-- Any way to write a list is read as that list. -/
theorem parseKeyValueList_written {pairs : List (Bytes × Bytes)} {members : List Bytes}
    (h : WritesMembers pairs members) (varName : Bytes) :
    parseKeyValueList (joinMembers members) varName =
      .ok (pairs.map fun pair => ⟨pair.1, .string pair.2⟩) := by
  unfold parseKeyValueList
  cases hmembers : members with
  | nil =>
      subst hmembers
      cases h
      rfl
  | cons member rest =>
      rw [← hmembers, splitOn_joinMembers (by simp [hmembers]) h.comma_notMem]
      exact h.parse varName 1

/-! ### What is refused -/

/-- A percent sign that two hex digits do not follow. -/
def BadEscape (value : Bytes) : Prop :=
  ∃ before after, value = before ++ kPercent :: after ∧
    ¬ ∃ high low rest, after = high :: low :: rest ∧ Api.Baggage.isHexDigit high = true ∧
      Api.Baggage.isHexDigit low = true

/-- A member that is neither empty nor a pair: no equals sign, or a bad escape in what
follows the first one. -/
def BadMember (member : Bytes) : Prop :=
  trimOws member ≠ [] ∧
    (kKeyValueSeparator ∉ trimOws member ∨
      ∃ before after, trimOws member = before ++ kKeyValueSeparator :: after ∧
        kKeyValueSeparator ∉ before ∧ BadEscape (trimOws after))

theorem hexByte_eq_none {high low : UInt8} :
    hexByte high low = none ↔
      ¬ (Api.Baggage.isHexDigit high = true ∧ Api.Baggage.isHexDigit low = true) := by
  unfold hexByte
  split
  · next h => simpa using h
  · next h => simpa using h

theorem percent_not_hexDigit {c : UInt8} (h : Api.Baggage.isHexDigit c = true) :
    c ≠ kPercent := by
  intro heq
  rw [heq] at h
  revert h
  decide

theorem BadEscape.cons_iff {c : UInt8} (hc : c ≠ kPercent) {value : Bytes} :
    BadEscape (c :: value) ↔ BadEscape value := by
  constructor
  · rintro ⟨before, after, heq, hbad⟩
    cases before with
    | nil => exact absurd (List.cons.inj heq).1 hc
    | cons d before => exact ⟨before, after, (List.cons.inj heq).2, hbad⟩
  · rintro ⟨before, after, heq, hbad⟩
    exact ⟨c :: before, after, by rw [heq, List.cons_append], hbad⟩

theorem BadEscape.percent_iff {text : Bytes} :
    BadEscape (kPercent :: text) ↔
      (¬ ∃ high low rest, text = high :: low :: rest ∧ Api.Baggage.isHexDigit high = true ∧
        Api.Baggage.isHexDigit low = true) ∨ BadEscape text := by
  constructor
  · rintro ⟨before, after, heq, hbad⟩
    cases before with
    | nil =>
        rw [(List.cons.inj heq).2]
        exact .inl hbad
    | cons d before => exact .inr ⟨before, after, (List.cons.inj heq).2, hbad⟩
  · rintro (hbad | ⟨before, after, heq, hbad⟩)
    · exact ⟨[], text, rfl, hbad⟩
    · exact ⟨kPercent :: before, after, by rw [heq, List.cons_append], hbad⟩

/-- A percent sign is never one of the two digits of an escape, so what follows a good
escape decides. -/
theorem percentDecode_eq_none_iff (value : Bytes) :
    percentDecode value = none ↔ BadEscape value := by
  fun_induction percentDecode value with
  | case1 =>
      refine ⟨nofun, ?_⟩
      rintro ⟨before, after, heq, -⟩
      simp at heq
  | case2 c text hc ih =>
      rw [BadEscape.cons_iff hc, ← ih]
      simp
  | case3 c hc high low rest byte hbyte ih =>
      have hdigits : Api.Baggage.isHexDigit high = true ∧ Api.Baggage.isHexDigit low = true := by
        by_contra hnot
        rw [hexByte_eq_none.mpr hnot] at hbyte
        cases hbyte
      rw [not_not.mp hc, BadEscape.percent_iff, BadEscape.cons_iff (percent_not_hexDigit hdigits.1),
        BadEscape.cons_iff (percent_not_hexDigit hdigits.2), ← ih]
      simp [hdigits]
  | case4 c hc high low rest hnone =>
      rw [not_not.mp hc, BadEscape.percent_iff]
      refine iff_of_true rfl (.inl ?_)
      rintro ⟨high', low', rest', heq, hdigits⟩
      obtain ⟨rfl, hrest⟩ := List.cons.inj heq
      obtain ⟨rfl, -⟩ := List.cons.inj hrest
      exact hexByte_eq_none.mp hnone hdigits
  | case5 c text hc hshort =>
      rw [not_not.mp hc, BadEscape.percent_iff]
      refine iff_of_true rfl (.inl ?_)
      rintro ⟨high, low, rest, heq, -⟩
      exact hshort high low rest heq

theorem parseEntry_error_iff (varName : Bytes) (entry : Nat) (piece : Bytes) :
    (∃ e, parseEntry varName entry piece = .error e) ↔ BadMember piece := by
  rw [parseEntry_eq]
  by_cases hempty : trimOws piece = []
  · rw [if_pos hempty]
    exact iff_of_false (fun ⟨e, he⟩ => by cases he) fun hbad => hbad.1 hempty
  · rw [if_neg hempty]
    by_cases hequals : kKeyValueSeparator ∈ trimOws piece
    · obtain ⟨before, after, htoken, hbefore⟩ := List.eq_append_cons_of_mem hequals
      have hbad : BadMember piece ↔ BadEscape (trimOws after) := by
        constructor
        · rintro ⟨-, hnone | ⟨before', after', htoken', hbefore', hescape⟩⟩
          · exact absurd hequals hnone
          · have hcut := cut_append hbefore after
            rw [← htoken, htoken', cut_append hbefore'] at hcut
            obtain ⟨-, hafter⟩ := Prod.mk.inj hcut
            rwa [Option.some.inj hafter] at hescape
        · intro hescape
          exact ⟨hempty, .inr ⟨before, after, htoken, hbefore, hescape⟩⟩
      rw [hbad, ← percentDecode_eq_none_iff, htoken, cut_append hbefore]
      cases hdecode : percentDecode (trimOws after) with
      | none => simp [hdecode]
      | some value => simp [hdecode]
    · rw [cut_of_notMem hequals]
      exact iff_of_true ⟨_, rfl⟩ ⟨hempty, .inl hequals⟩

theorem parseEntries_error_iff (varName : Bytes) (members : List Bytes) :
    ∀ entry, (∃ e, parseEntries varName entry members = .error e) ↔
      ∃ member ∈ members, BadMember member := by
  induction members with
  | nil =>
      intro entry
      simp [parseEntries]
  | cons member members ih =>
      intro entry
      have hmember := parseEntry_error_iff varName entry member
      cases hentry : parseEntry varName entry member with
      | error e =>
          rw [parseEntries_cons_error hentry]
          exact iff_of_true ⟨e, rfl⟩ ⟨member, by simp, hmember.mp ⟨e, hentry⟩⟩
      | ok kv =>
          have hgood : ¬ BadMember member := by
            rw [← hmember, hentry]
            rintro ⟨e, he⟩
            cases he
          have htail := ih (entry + 1)
          rw [parseEntries_cons hentry]
          simp only [List.exists_mem_cons_iff, hgood, false_or]
          rw [← htail]
          cases parseEntries varName (entry + 1) members with
          | error e => exact iff_of_true ⟨e, rfl⟩ ⟨e, rfl⟩
          | ok rest =>
              exact iff_of_false (fun ⟨e, he⟩ => by cases he) fun ⟨e, he⟩ => by cases he

/-! ### Main results -/

/-- Every way to write a list of pairs is read back as that list, in order, and a text is
refused exactly for a member that is no pair or holds a bad escape. -/
theorem parseKeyValueList_round_trip :
    (∀ (pairs : List (Bytes × Bytes)) (members : List Bytes) (varName : Bytes),
      WritesMembers pairs members →
        parseKeyValueList (joinMembers members) varName =
          .ok (pairs.map fun pair => ⟨pair.1, .string pair.2⟩)) ∧
      ∀ text varName : Bytes, (∃ e, parseKeyValueList text varName = .error e) ↔
        ∃ member ∈ text.splitOn kListSeparator, BadMember member := by
  refine ⟨fun pairs members varName h => parseKeyValueList_written h varName, ?_⟩
  intro text varName
  exact parseEntries_error_iff varName _ 1

/-- A comma and a space inside a value, in lower case hex, an empty member and an escaped
percent sign. -/
theorem parseKeyValueList_round_trip_escapes :
    parseKeyValueList (ascii " k =a%2cb%20 , ,q=%25") kResourceAttributesVar =
      .ok [⟨ascii "k", .string (ascii "a,b ")⟩, ⟨ascii "q", .string (ascii "%")⟩] := by
  have hspace : IsOws (ascii " ") := List.all_eq_true.mp (by decide)
  have hk : PlainKey (ascii "k") :=
    ⟨by decide, by decide, by decide, bare_of_all (by decide)⟩
  have hq : PlainKey (ascii "q") :=
    ⟨by decide, by decide, by decide, bare_of_all (by decide)⟩
  have hfirst : PercentEncodes (ascii "a,b ") (ascii "a%2cb%20") := by
    apply PercentEncodes.literal (by decide)
    apply PercentEncodes.escaped false false
    apply PercentEncodes.literal (by decide)
    exact PercentEncodes.escaped false false .nil
  have hsecond : PercentEncodes (ascii "%") (ascii "%25") := .escaped false false .nil
  have hmembers := (WritesMembers.pair hk hfirst hspace hspace .nil hspace <| .empty hspace <|
    .pair hq hsecond .nil .nil .nil .nil .nil)
  have hread := parseKeyValueList_round_trip.1 _ _ kResourceAttributesVar hmembers
  have htext : joinMembers
      [ascii " " ++ ascii "k" ++ ascii " " ++
          kKeyValueSeparator :: ([] ++ ascii "a%2cb%20" ++ ascii " "), ascii " ",
        [] ++ ascii "q" ++ [] ++ kKeyValueSeparator :: ([] ++ ascii "%25" ++ [])] =
      ascii " k =a%2cb%20 , ,q=%25" := by
    decide +kernel
  rw [htext] at hread
  exact hread

end Microtel.Configuration
