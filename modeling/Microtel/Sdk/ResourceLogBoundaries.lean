import Microtel.Sdk.ResourceLogEscapes

/-!
Where an attribute ends in the line that logs the resolved Resource. A key is printed
without quotes, and so are numbers and truth values, so that a key with `=1, ` inside
reads as the end of one attribute and the start of another. Two lists have the same line
just where they are two ways to join the same pieces.
-/

namespace Microtel.ResourceLog

open Concentrator Microtel.Configuration Delimited

variable {formatDouble : DoubleFormat}

/-! ### Lists that can be told apart by more than their length -/

/-- Strings, truth values and integers. -/
def IsScalar : AttributeValue → Prop
  | .bool _ | .int _ | .string _ => True
  | _ => False

instance : DecidablePred IsScalar
  | .bool _ | .int _ | .string _ => .isTrue trivial
  | .double _ | .bools _ | .ints _ | .doubles _ | .strings _ => .isFalse id

variable (formatDouble) in
/-- A list of scalars with distinct keys that the line shows whole. -/
structure Shown (attributes : List KeyValue) : Prop where
  distinct : (attributes.map KeyValue.key).Nodup
  count : attributes.length ≤ kMaxLoggedResourceAttributes
  scalar : ∀ kv ∈ attributes, IsScalar kv.value
  notSecret : ∀ kv ∈ attributes, isSecretKey kv.key = false
  short : ∀ kv ∈ attributes,
    (render formatDouble kv.value).length ≤ kMaxLoggedResourceValueChars

theorem shown_of_all {attributes : List KeyValue}
    (hdistinct : (attributes.map KeyValue.key).Nodup)
    (hcount : attributes.length ≤ kMaxLoggedResourceAttributes)
    (hall : (attributes.all fun kv => IsScalar kv.value && !isSecretKey kv.key &&
      (render formatDouble kv.value).length ≤ kMaxLoggedResourceValueChars) = true) :
    Shown formatDouble attributes := by
  have heach : ∀ kv ∈ attributes, (IsScalar kv.value ∧ isSecretKey kv.key = false) ∧
      (render formatDouble kv.value).length ≤ kMaxLoggedResourceValueChars := by
    intro kv hkv
    simpa using List.all_eq_true.mp hall kv hkv
  exact ⟨hdistinct, hcount, fun kv hkv => (heach kv hkv).1.1, fun kv hkv => (heach kv hkv).1.2,
    fun kv hkv => (heach kv hkv).2⟩

/-- The text of a value that is printed without quotes or brackets. -/
def bare : AttributeValue → Option Bytes
  | .bool v => some (renderBool v)
  | .int v => some (renderInt v)
  | _ => none

/-- Attributes made of pieces: each is a piece, or has in front of its key one or more
earlier pieces as the line prints them. -/
inductive Joins : List KeyValue → List KeyValue → Prop
  | nil : Joins [] []
  | whole {pieces attributes : List KeyValue} (kv : KeyValue) (hrest : Joins pieces attributes) :
      Joins (kv :: pieces) (kv :: attributes)
  | joined {pieces attributes : List KeyValue} {key text : Bytes} {value : AttributeValue}
      (piece : KeyValue) (htext : bare piece.value = some text)
      (hrest : Joins pieces (⟨key, value⟩ :: attributes)) :
      Joins (piece :: pieces)
        (⟨piece.key ++ ascii "=" ++ text ++ kSeparator ++ key, value⟩ :: attributes)

/-- Two lists of one length that are different ways to join the same pieces. -/
structure Regrouped (a b : List KeyValue) : Prop where
  length : a.length = b.length
  pieces : ∃ pieces, Joins pieces (sortByKey a) ∧ Joins pieces (sortByKey b)
  different : ¬ a.Perm b

/-- A key without a piece inside. -/
def CleanKey (key : Bytes) : Prop :=
  ∀ value text before after, bare value = some text →
    key ≠ before ++ ascii "=" ++ text ++ kSeparator ++ after

/-! ### Values -/

def kEquals : UInt8 := 0x3D
def kComma : UInt8 := 0x2C

theorem ascii_equals : ascii "=" = [kEquals] := by decide +kernel

theorem kSeparator_eq : kSeparator = [kComma, 0x20] := by decide +kernel

/-- What a bare value is made of. -/
structure BareText (text : Bytes) : Prop where
  nonempty : text ≠ []
  isPlain : ∀ c ∈ text, IsPlain c
  equals : kEquals ∉ text
  comma : kComma ∉ text
  quote : kQuote ∉ text

theorem bareText_renderBool (v : Bool) : BareText (renderBool v) := by
  cases v with
  | true => exact ⟨by decide, isPlain_renderBool true, by decide, by decide, by decide⟩
  | false => exact ⟨by decide, isPlain_renderBool false, by decide, by decide, by decide⟩

theorem bareText_renderInt (v : Int64) : BareText (renderInt v) := by
  have hnot : ∀ d : UInt8, d ≠ Decimal.kMinus → ¬ (0x30 ≤ d.toNat ∧ d.toNat ≤ 0x39) →
      d ∉ renderInt v := by
    intro d hminus hdigit hmem
    rcases Decimal.intText_octets v.toInt d hmem with heq | hrange
    · exact hminus heq
    · exact hdigit hrange
  refine ⟨Decimal.intText_ne_nil v.toInt, isPlain_renderInt v, ?_, ?_, ?_⟩
  · exact hnot kEquals (by decide) (by decide)
  · exact hnot kComma (by decide) (by decide)
  · exact hnot kQuote (by decide) (by decide)

theorem bareText_of_bare {value : AttributeValue} {text : Bytes} (h : bare value = some text) :
    BareText text := by
  cases value with
  | bool v =>
      obtain rfl := Option.some.inj h
      exact bareText_renderBool v
  | int v =>
      obtain rfl := Option.some.inj h
      exact bareText_renderInt v
  | _ => cases h

theorem render_of_bare {value : AttributeValue} {text : Bytes} (h : bare value = some text) :
    render formatDouble value = text := by
  cases value with
  | bool v => exact Option.some.inj h
  | int v => exact Option.some.inj h
  | _ => cases h

theorem renderBool_ne_renderInt (v : Bool) (i : Int64) : renderBool v ≠ renderInt i := by
  intro h
  have hletter : ∃ c ∈ renderBool v, c ≠ Decimal.kMinus ∧ ¬ (0x30 ≤ c.toNat ∧ c.toNat ≤ 0x39) := by
    cases v with
    | true => exact ⟨0x65, by decide, by decide, by decide⟩
    | false => exact ⟨0x65, by decide, by decide, by decide⟩
  obtain ⟨c, hc, hminus, hdigit⟩ := hletter
  rw [h] at hc
  rcases Decimal.intText_octets i.toInt c hc with heq | hrange
  · exact hminus heq
  · exact hdigit hrange

theorem bare_injective {value value' : AttributeValue} {text : Bytes}
    (h : bare value = some text) (h' : bare value' = some text) : value = value' := by
  cases value with
  | bool v =>
      cases value' with
      | bool v' =>
          have heq := Option.some.inj (h.trans h'.symm)
          cases v <;> cases v' <;> first | rfl | exact absurd heq (by decide)
      | int i' => exact absurd (Option.some.inj (h.trans h'.symm)) (renderBool_ne_renderInt v i')
      | _ => cases h'
  | int i =>
      cases value' with
      | bool v' =>
          exact absurd (Option.some.inj (h'.trans h.symm)) (renderBool_ne_renderInt v' i)
      | int i' =>
          have heq := Decimal.intText_injective (Option.some.inj (h.trans h'.symm))
          rw [Int64.toInt_inj.mp heq]
      | _ => cases h'
  | _ => cases h

theorem scalar_cases {value : AttributeValue} (h : IsScalar value) :
    (∃ s, value = .string s) ∨ ∃ text, bare value = some text := by
  cases value with
  | string s => exact .inl ⟨s, rfl⟩
  | bool v => exact .inr ⟨_, rfl⟩
  | int v => exact .inr ⟨_, rfl⟩
  | _ => cases h

/-- The end of the line, or the next separator. -/
def IsTail (rest : Bytes) : Prop := rest = [] ∨ ∃ rest', rest = kComma :: rest'

theorem bare_append_unique {text text' rest rest' : Bytes} (h : BareText text)
    (h' : BareText text') (hrest : IsTail rest) (hrest' : IsTail rest')
    (heq : text ++ rest = text' ++ rest') : text = text' ∧ rest = rest' := by
  have hcut : ∀ {text rest : Bytes}, BareText text → IsTail rest →
      (cut kComma (text ++ rest)).1 = text := by
    intro text rest h hrest
    rcases hrest with rfl | ⟨rest', rfl⟩
    · rw [List.append_nil, cut_of_notMem h.comma]
    · rw [cut_append h.comma]
  have htext : text = text' := by rw [← hcut h hrest, heq, hcut h' hrest']
  subst htext
  exact ⟨rfl, List.append_cancel_left heq⟩

theorem quote_ne_bare {text rest rest' : Bytes} (h : BareText text) :
    kQuote :: rest ≠ text ++ rest' := by
  intro heq
  cases text with
  | nil => exact h.nonempty rfl
  | cons c text =>
      apply h.quote
      rw [(List.cons.inj heq).1]
      exact List.mem_cons_self

theorem render_string (s : Bytes) :
    render formatDouble (.string s) = kQuote :: (s.flatMap escaped ++ [kQuote]) := by
  rw [render, renderString, escape_eq]
  rfl

/-- A printed scalar tells where it ends. -/
theorem render_append_unique {value value' : AttributeValue} (h : IsScalar value)
    (h' : IsScalar value') {rest rest' : Bytes} (hrest : IsTail rest) (hrest' : IsTail rest')
    (heq : render formatDouble value ++ rest = render formatDouble value' ++ rest') :
    value = value' ∧ rest = rest' := by
  rcases scalar_cases h with ⟨s, rfl⟩ | ⟨text, htext⟩
  · rcases scalar_cases h' with ⟨s', rfl⟩ | ⟨text', htext'⟩
    · rw [render_string, render_string, List.cons_append, List.cons_append] at heq
      have hbody := (List.cons.inj heq).2
      rw [List.append_assoc, List.append_assoc, List.singleton_append,
        List.singleton_append] at hbody
      obtain ⟨rfl, hsame⟩ :=
        escapes.flatMap_of_end escaped_ne_quote (by simp) (by simp) hbody
      exact ⟨rfl, hsame⟩
    · rw [render_string, render_of_bare htext', List.cons_append] at heq
      exact absurd heq (quote_ne_bare (bareText_of_bare htext'))
  · rcases scalar_cases h' with ⟨s', rfl⟩ | ⟨text', htext'⟩
    · rw [render_string, render_of_bare htext, List.cons_append] at heq
      exact absurd heq.symm (quote_ne_bare (bareText_of_bare htext))
    · rw [render_of_bare htext, render_of_bare htext'] at heq
      obtain ⟨rfl, hsame⟩ := bare_append_unique (bareText_of_bare htext)
        (bareText_of_bare htext') hrest hrest' heq
      exact ⟨bare_injective htext htext', hsame⟩

/-! ### Lists -/

variable (formatDouble) in
def plainText (kv : KeyValue) : Bytes :=
  escape kv.key ++ kEquals :: render formatDouble kv.value

variable (formatDouble) in
/-- Attributes behind a lead, nothing redacted and nothing cut. -/
def plainTexts (lead : Bytes) (attributes : List KeyValue) : Bytes :=
  separated lead (attributes.map (plainText formatDouble))

theorem plainTexts_nil (lead : Bytes) : plainTexts formatDouble lead [] = [] := rfl

theorem plainTexts_cons (lead : Bytes) (kv : KeyValue) (attributes : List KeyValue) :
    plainTexts formatDouble lead (kv :: attributes) =
      lead ++ plainText formatDouble kv ++ plainTexts formatDouble kSeparator attributes := by
  rw [plainTexts, List.map_cons, separated_cons]
  rfl

theorem plainTexts_lead {attributes : List KeyValue} (h : attributes ≠ []) (lead : Bytes) :
    plainTexts formatDouble lead attributes = lead ++ plainTexts formatDouble [] attributes := by
  cases attributes with
  | nil => exact absurd rfl h
  | cons kv attributes => simp [plainTexts_cons]

theorem plainTexts_ne_nil {attributes : List KeyValue} (h : attributes ≠ []) (lead : Bytes) :
    plainTexts formatDouble lead attributes ≠ [] := by
  cases attributes with
  | nil => exact absurd rfl h
  | cons kv attributes => simp [plainTexts_cons, plainText]

theorem isTail_plainTexts (attributes : List KeyValue) :
    IsTail (plainTexts formatDouble kSeparator attributes) := by
  cases attributes with
  | nil => exact .inl rfl
  | cons kv attributes =>
      refine .inr ⟨0x20 :: (plainTexts formatDouble [] (kv :: attributes)), ?_⟩
      rw [plainTexts_lead (List.cons_ne_nil _ _), kSeparator_eq]
      rfl

theorem escape_plain {text : Bytes} (h : ∀ c ∈ text, IsPlain c) : escape text = text := by
  rw [escape_eq]
  induction text with
  | nil => rfl
  | cons c text ih =>
      have hc : escaped c = [c] := h c (by simp)
      rw [List.flatMap_cons, hc, ih fun d hd => h d (by simp [hd]), List.singleton_append]

theorem isPlain_equals : IsPlain kEquals := by
  have hfixed : ascii "=" ∈ fixedTexts := by simp [fixedTexts]
  apply isPlain_fixed hfixed
  rw [ascii_equals]
  exact List.mem_singleton_self kEquals

/-- An equals sign in an escaped text is one of the text. -/
theorem escape_equals {text rest : Bytes} (h : escape text = kEquals :: rest) :
    ∃ more, text = kEquals :: more ∧ rest = escape more := by
  have hequals : escape [kEquals] = [kEquals] := escape_plain (by simpa using isPlain_equals)
  have hprefix : escape text = escape [kEquals] ++ rest := by rw [hequals, h]; rfl
  obtain ⟨more, hmore, hrest⟩ := escape_prefix hprefix
  exact ⟨more, hmore, hrest⟩

/-- The text between the key of a piece and the key it is joined to. -/
theorem escape_joined {text : Bytes} (h : BareText text) (key key' : Bytes) :
    escape (key ++ ascii "=" ++ text ++ kSeparator ++ key') =
      escape key ++ kEquals :: (text ++ kSeparator ++ escape key') := by
  have hequals : escape (ascii "=") = [kEquals] := by
    rw [ascii_equals]
    exact escape_plain (by simpa using isPlain_equals)
  rw [escape_append, escape_append, escape_append, escape_append, hequals,
    escape_plain h.isPlain, escape_plain isPlain_separator]
  simp

/-- Joined or not, the pieces print alike. -/
theorem Joins.plainTexts {pieces attributes : List KeyValue} (h : Joins pieces attributes) :
    ∀ lead, plainTexts formatDouble lead pieces = plainTexts formatDouble lead attributes := by
  induction h with
  | nil => exact fun _ => rfl
  | whole kv _ ih =>
      intro lead
      rw [plainTexts_cons, plainTexts_cons, ih]
  | joined piece htext _ ih =>
      intro lead
      rw [plainTexts_cons, ih, plainTexts_cons, plainTexts_cons, plainText, plainText, plainText,
        escape_joined (bareText_of_bare htext), render_of_bare htext]
      simp

/-- Where one of two keys is longer, the other's attribute is a piece of it: its value is
bare, and the line goes on inside the longer key. -/
theorem piece_of_longer {kv : KeyValue} {attributes : List KeyValue} {key more rest : Bytes}
    (hscalar : IsScalar kv.value) (hkey : escape key = escape kv.key ++ kEquals :: more)
    (htail : render formatDouble kv.value ++ plainTexts formatDouble kSeparator attributes =
      more ++ kEquals :: rest) :
    ∃ text key', bare kv.value = some text ∧ attributes ≠ [] ∧
      key = kv.key ++ ascii "=" ++ text ++ kSeparator ++ key' ∧
      plainTexts formatDouble [] attributes = escape key' ++ kEquals :: rest := by
  obtain ⟨after, hafter, hmore⟩ := escape_prefix hkey
  obtain ⟨inner, rfl, rfl⟩ := escape_equals hmore.symm
  rcases scalar_cases hscalar with ⟨s, hs⟩ | ⟨text, htext⟩
  · -- A quote never follows an equals sign inside a key.
    rw [hs, render_string, List.cons_append] at htail
    cases inner with
    | nil => exact absurd (List.cons.inj htail).1 (by decide)
    | cons c inner =>
        rw [escape_eq, List.flatMap_cons] at htail
        simp only [List.append_assoc] at htail
        exact absurd htail.symm (escaped_ne_quote c _ _)
  · have hbare := bareText_of_bare htext
    rw [render_of_bare htext] at htail
    have hsome : attributes ≠ [] := by
      rintro rfl
      rw [plainTexts_nil, List.append_nil] at htail
      apply hbare.equals
      rw [htail]
      simp
    rw [plainTexts_lead hsome, ← List.append_assoc] at htail
    -- The text and the separator hold no equals sign, so they lie inside the key.
    have hequals : kEquals ∉ text ++ kSeparator := by
      rw [List.mem_append]
      rintro (hmem | hmem)
      · exact hbare.equals hmem
      · rw [kSeparator_eq] at hmem
        revert hmem
        decide
    have hinside : ∃ suffix, escape inner = text ++ kSeparator ++ suffix ∧
        plainTexts formatDouble [] attributes = suffix ++ kEquals :: rest := by
      rcases List.append_eq_append_iff.mp htail with ⟨suffix, hin, hout⟩ | ⟨suffix, hin, hout⟩
      · exact ⟨suffix, hin, hout⟩
      · cases suffix with
        | nil =>
            refine ⟨[], by simpa using hin.symm, ?_⟩
            simpa using hout.symm
        | cons c suffix =>
            obtain ⟨rfl, -⟩ := List.cons.inj hout
            exact absurd (by rw [hin]; simp) hequals
    obtain ⟨suffix, hin, hout⟩ := hinside
    have hplain : escape (text ++ kSeparator) = text ++ kSeparator := by
      rw [escape_append, escape_plain hbare.isPlain, escape_plain isPlain_separator]
    rw [← hplain] at hin
    obtain ⟨key', rfl, rfl⟩ := escape_prefix hin
    refine ⟨text, key', htext, hsome, ?_, hout⟩
    rw [hafter, ascii_equals]
    simp

theorem plainTexts_nil_lead {X Y : List KeyValue} {lead : Bytes}
    (h : plainTexts formatDouble lead X = plainTexts formatDouble lead Y) :
    plainTexts formatDouble [] X = plainTexts formatDouble [] Y := by
  by_cases hX : X = []
  · by_cases hY : Y = []
    · rw [hX, hY]
    · rw [hX, plainTexts_nil] at h
      exact absurd h.symm (plainTexts_ne_nil hY _)
  · by_cases hY : Y = []
    · rw [hY, plainTexts_nil] at h
      exact absurd h (plainTexts_ne_nil hX _)
    · rw [plainTexts_lead hX, plainTexts_lead hY] at h
      exact List.append_cancel_left h

/-- Attributes with one key have one value, and what follows them prints alike. -/
theorem same_of_same_key {kv kv' : KeyValue} {X Y : List KeyValue} (h : IsScalar kv.value)
    (h' : IsScalar kv'.value) (hkey : escape kv.key = escape kv'.key)
    (htail : render formatDouble kv.value ++ plainTexts formatDouble kSeparator X =
      render formatDouble kv'.value ++ plainTexts formatDouble kSeparator Y) :
    kv = kv' ∧ plainTexts formatDouble [] X = plainTexts formatDouble [] Y := by
  obtain ⟨hvalue, hrest⟩ :=
    render_append_unique h h' (isTail_plainTexts X) (isTail_plainTexts Y) htail
  refine ⟨?_, plainTexts_nil_lead hrest⟩
  have hname := escape_injective hkey
  cases kv
  cases kv'
  dsimp only at hname hvalue
  rw [hname, hvalue]

/-- An attribute with the longer key is joined from the other one and a shorter one. -/
theorem shorter_of_longer {kv kv' : KeyValue} {X Y : List KeyValue} {more : Bytes}
    (h : IsScalar kv.value) (hkey : escape kv'.key = escape kv.key ++ kEquals :: more)
    (htail : render formatDouble kv.value ++ plainTexts formatDouble kSeparator X =
      more ++ kEquals ::
        (render formatDouble kv'.value ++ plainTexts formatDouble kSeparator Y)) :
    ∃ key', plainTexts formatDouble [] X = plainTexts formatDouble [] (⟨key', kv'.value⟩ :: Y) ∧
      ∀ pieces, Joins pieces (⟨key', kv'.value⟩ :: Y) → Joins (kv :: pieces) (kv' :: Y) := by
  obtain ⟨text, key', htext, -, hjoined, hrest⟩ := piece_of_longer h hkey htail
  refine ⟨key', ?_, ?_⟩
  · rw [hrest, plainTexts_cons, plainText]
    simp
  · intro pieces hpieces
    have hpiece := Joins.joined kv htext hpieces
    rwa [← hjoined] at hpiece

/-- Lists that print alike are joined from the same pieces. The induction is on both
lists; where one key is longer only the other list gets shorter. -/
theorem exists_pieces (n : Nat) : ∀ {X Y : List KeyValue}, X.length + Y.length ≤ n →
    (∀ kv ∈ X, IsScalar kv.value) → (∀ kv ∈ Y, IsScalar kv.value) →
    plainTexts formatDouble [] X = plainTexts formatDouble [] Y →
    ∃ pieces, Joins pieces X ∧ Joins pieces Y := by
  induction n with
  | zero =>
      intro X Y hlength _ _ _
      cases X with
      | nil =>
          cases Y with
          | nil => exact ⟨[], .nil, .nil⟩
          | cons kv' Y => simp at hlength
      | cons kv X => simp at hlength
  | succ n ih =>
      -- The first key of `X` is the beginning of the first key of `Y`.
      have hstep : ∀ {kv kv' : KeyValue} {X Y : List KeyValue} {more : Bytes},
          (kv :: X).length + (kv' :: Y).length ≤ n + 1 →
          (∀ e ∈ kv :: X, IsScalar e.value) → (∀ e ∈ kv' :: Y, IsScalar e.value) →
          escape kv'.key = escape kv.key ++ more →
          kEquals :: (render formatDouble kv.value ++ plainTexts formatDouble kSeparator X) =
            more ++ kEquals ::
              (render formatDouble kv'.value ++ plainTexts formatDouble kSeparator Y) →
          ∃ pieces, Joins pieces (kv :: X) ∧ Joins pieces (kv' :: Y) := by
        intro kv kv' X Y more hlength hX hY hkey htail
        obtain ⟨hkv, hXrest⟩ := List.forall_mem_cons.mp hX
        obtain ⟨hkv', hYrest⟩ := List.forall_mem_cons.mp hY
        simp only [List.length_cons] at hlength
        cases more with
        | nil =>
            rw [List.append_nil] at hkey
            obtain ⟨rfl, hrest⟩ := same_of_same_key hkv hkv' hkey.symm (List.cons.inj htail).2
            obtain ⟨pieces, hleft, hright⟩ := ih (by omega) hXrest hYrest hrest
            exact ⟨kv :: pieces, .whole kv hleft, .whole kv hright⟩
        | cons c more =>
            obtain ⟨hc, hmore⟩ := List.cons.inj htail
            rw [← hc] at hkey
            obtain ⟨key', hrest, hjoin⟩ := shorter_of_longer hkv hkey hmore
            have hshorter : ∀ e ∈ (⟨key', kv'.value⟩ :: Y : List KeyValue), IsScalar e.value :=
              List.forall_mem_cons.mpr ⟨hkv', hYrest⟩
            obtain ⟨pieces, hleft, hright⟩ :=
              ih (by simp only [List.length_cons]; omega) hXrest hshorter hrest
            exact ⟨kv :: pieces, .whole kv hleft, hjoin pieces hright⟩
      intro X Y hlength hX hY heq
      cases X with
      | nil =>
          cases Y with
          | nil => exact ⟨[], .nil, .nil⟩
          | cons kv' Y => exact absurd heq.symm (plainTexts_ne_nil (List.cons_ne_nil _ _) _)
      | cons kv X =>
          cases Y with
          | nil => exact absurd heq (plainTexts_ne_nil (List.cons_ne_nil _ _) _)
          | cons kv' Y =>
              rw [plainTexts_cons, plainTexts_cons, plainText, plainText] at heq
              simp only [List.nil_append, List.append_assoc, List.cons_append] at heq
              rcases List.append_eq_append_iff.mp heq with
                ⟨more, hkey, htail⟩ | ⟨more, hkey, htail⟩
              · exact hstep hlength hX hY hkey htail
              · rw [Nat.add_comm] at hlength
                obtain ⟨pieces, hright, hleft⟩ := hstep hlength hY hX hkey htail
                exact ⟨pieces, hleft, hright⟩

/-! ### Lines -/

section Lines

variable {a b : List KeyValue}

theorem sortByKey_perm (attributes : List KeyValue) : (sortByKey attributes).Perm attributes :=
  List.perm_insertionSort Metrics.keyOrder attributes

theorem mem_sortByKey {kv : KeyValue} : kv ∈ sortByKey a ↔ kv ∈ a := (sortByKey_perm a).mem_iff

theorem loggedValue_shown {kv : KeyValue} (hsecret : isSecretKey kv.key = false)
    (hshort : (render formatDouble kv.value).length ≤ kMaxLoggedResourceValueChars) :
    loggedValue formatDouble kv = render formatDouble kv.value := by
  rw [loggedValue, if_neg (by simp [hsecret])]
  exact if_neg (Nat.not_lt.mpr hshort)

theorem lineBody_shown (h : Shown formatDouble a) :
    lineBody formatDouble a = plainTexts formatDouble (ascii " ") (sortByKey a) := by
  have htake : (sortByKey a).take kMaxLoggedResourceAttributes = sortByKey a := by
    apply List.take_of_length_le
    rw [length_sortByKey]
    exact h.count
  have htexts : (sortByKey a).map (attributeText formatDouble) =
      (sortByKey a).map (plainText formatDouble) := by
    apply List.map_congr_left
    intro kv hkv
    rw [mem_sortByKey] at hkv
    rw [attributeText, loggedValue_shown (h.notSecret kv hkv) (h.short kv hkv), ascii_equals,
      List.append_assoc, plainText]
    rfl
  rw [lineBody, htake, htexts, if_neg (Nat.not_lt.mpr h.count), List.append_nil, plainTexts]

/-- The size is read off the head. -/
theorem lineHead_append_inj {profileName body body' : Bytes} {n m : Nat}
    (h : lineHead profileName n ++ body = lineHead profileName m ++ body') :
    n = m ∧ body = body' := by
  have hspace : ∀ k, (0x20 : UInt8) ∉ decimal k := by
    intro k hmem
    have hdigit := (Decimal.natText_digits k _ hmem).1
    revert hdigit
    decide
  have hend : ascii " attributes):" = 0x20 :: ascii "attributes):" := by decide +kernel
  rw [lineHead, lineHead, hend] at h
  simp only [List.append_assoc, List.cons_append] at h
  have hrest := List.append_cancel_left (List.append_cancel_left h)
  have hcut := congrArg (cut 0x20) hrest
  rw [cut_append (hspace n), cut_append (hspace m)] at hcut
  obtain ⟨hnumber, htail⟩ := Prod.mk.inj hcut
  refine ⟨Decimal.natText_injective hnumber, ?_⟩
  exact List.append_cancel_left (Option.some.inj htail)

theorem resolvedLine_eq_iff (ha : Shown formatDouble a) (hb : Shown formatDouble b)
    (profileName : Bytes) :
    resolvedLine formatDouble a profileName = resolvedLine formatDouble b profileName ↔
      a.length = b.length ∧ ∃ pieces, Joins pieces (sortByKey a) ∧ Joins pieces (sortByKey b) := by
  rw [resolvedLine_eq, resolvedLine_eq, lineBody_shown ha, lineBody_shown hb]
  constructor
  · intro h
    obtain ⟨hlength, hbody⟩ := lineHead_append_inj h
    refine ⟨hlength, ?_⟩
    apply exists_pieces _ le_rfl
    · intro kv hkv
      exact ha.scalar kv (mem_sortByKey.mp hkv)
    · intro kv hkv
      exact hb.scalar kv (mem_sortByKey.mp hkv)
    · exact plainTexts_nil_lead hbody
  · rintro ⟨hlength, pieces, hleft, hright⟩
    rw [hlength, ← hleft.plainTexts, ← hright.plainTexts]

theorem perm_of_sortByKey (h : sortByKey a = sortByKey b) : a.Perm b := by
  have hperm := sortByKey_perm a
  rw [h] at hperm
  exact hperm.symm.trans (sortByKey_perm b)

/-- Equal lines tell two lists apart unless one is a regrouping of the other. -/
theorem line_perm_iff (ha : Shown formatDouble a) (hb : Shown formatDouble b)
    (profileName : Bytes) :
    (resolvedLine formatDouble a profileName = resolvedLine formatDouble b profileName →
      a.Perm b) ↔ ¬ Regrouped a b := by
  rw [resolvedLine_eq_iff ha hb]
  constructor
  · intro h hregrouped
    exact hregrouped.different (h ⟨hregrouped.length, hregrouped.pieces⟩)
  · rintro h ⟨hlength, hpieces⟩
    by_contra hdifferent
    exact h ⟨hlength, hpieces, hdifferent⟩

end Lines

/-! ### Keys without a piece inside -/

namespace Joins

variable {pieces attributes : List KeyValue}

theorem length_le (h : Joins pieces attributes) : attributes.length ≤ pieces.length := by
  induction h with
  | nil => exact Nat.le_refl 0
  | whole kv _ ih => exact Nat.succ_le_succ ih
  | joined piece _ _ ih => exact Nat.le_succ_of_le ih

theorem eq_of_length (h : Joins pieces attributes) (hlength : attributes.length = pieces.length) :
    pieces = attributes := by
  induction h with
  | nil => rfl
  | whole kv _ ih => rw [ih (Nat.succ.inj hlength)]
  | joined piece _ hrest _ =>
      have hle := hrest.length_le
      simp only [List.length_cons] at hle hlength
      omega

theorem eq_of_clean (h : Joins pieces attributes) (hclean : ∀ kv ∈ attributes, CleanKey kv.key) :
    pieces = attributes := by
  induction h with
  | nil => rfl
  | whole kv _ ih => rw [ih fun e he => hclean e (by simp [he])]
  | @joined _ _ key text _ piece htext _ _ =>
      exact absurd rfl (hclean _ List.mem_cons_self piece.value text piece.key key htext)

end Joins

theorem cleanKey_of_notMem {key : Bytes} (h : kEquals ∉ key) : CleanKey key := by
  rintro value text before after - rfl
  apply h
  rw [ascii_equals]
  simp

/-- With clean keys on one side there is nothing to regroup. -/
theorem not_regrouped_of_clean {a b : List KeyValue} (hclean : ∀ kv ∈ a, CleanKey kv.key) :
    ¬ Regrouped a b := by
  rintro ⟨hlength, ⟨pieces, hleft, hright⟩, hdifferent⟩
  have hpieces := hleft.eq_of_clean fun kv hkv => hclean kv (mem_sortByKey.mp hkv)
  subst hpieces
  have hsame := hright.eq_of_length (by rw [length_sortByKey, length_sortByKey, hlength])
  exact hdifferent (perm_of_sortByKey hsame)

/-! ### Main results -/

/-- The text behind the head of the line holds no control character; a long value is cut
at the longest beginning that splits no escape; and equal lines mean equal lists, up to
order, exactly for lists that are no regrouping of each other, as none is where the keys
of one hold no `=`, bare value and separator in a row. -/
theorem resolvedLine_boundaries {formatDouble : DoubleFormat} (hformat : PlainFormat formatDouble) :
    (∀ (minLogLevel : LogLevel) (attributes : List KeyValue) (profileName line : Bytes),
      logResolvedResource formatDouble minLogLevel attributes profileName = some line →
        ∃ body, line = lineHead profileName attributes.length ++ body ∧
          ∀ c ∈ body, isControl c = false) ∧
      (∀ kv : KeyValue, isSecretKey kv.key = false →
        kMaxLoggedResourceValueChars < (render formatDouble kv.value).length →
          ∃ cut, loggedValue formatDouble kv = cut ++ kEllipsis ∧
            (atoms formatDouble kv.value).flatten = render formatDouble kv.value ∧
            LongestWhole (atoms formatDouble kv.value) kMaxLoggedResourceValueChars cut) ∧
      (∀ (a b : List KeyValue) (profileName : Bytes), Shown formatDouble a →
        Shown formatDouble b →
          ((resolvedLine formatDouble a profileName = resolvedLine formatDouble b profileName →
            a.Perm b) ↔ ¬ Regrouped a b)) ∧
      ∀ a b : List KeyValue, (∀ kv ∈ a, CleanKey kv.key) → ¬ Regrouped a b := by
  refine ⟨?_, ?_, ?_, ?_⟩
  · intro minLogLevel attributes profileName line h
    refine ⟨lineBody formatDouble attributes, ?_, lineBody_printable hformat attributes⟩
    unfold logResolvedResource at h
    split at h
    · cases h
    · rw [← Option.some.inj h, resolvedLine_eq]
  · intro kv hsecret hlong
    obtain ⟨cut, hlogged, hwhole⟩ := loggedValue_cut hformat hsecret hlong
    exact ⟨cut, hlogged, atoms_flatten kv.value, hwhole⟩
  · intro a b profileName ha hb
    exact line_perm_iff ha hb profileName
  · intro a b hclean
    exact not_regrouped_of_clean hclean

/-- A value of line feeds over the cap, and a key that holds a separator but no piece. -/
theorem resolvedLine_boundaries_one :
    (∃ cut, loggedValue (fun _ => ascii "0") ⟨ascii "k", .string (List.replicate 200 0x0A)⟩ =
        cut ++ kEllipsis ∧
      (atoms (fun _ => ascii "0") (.string (List.replicate 200 0x0A))).flatten =
        render (fun _ => ascii "0") (.string (List.replicate 200 0x0A)) ∧
      LongestWhole (atoms (fun _ => ascii "0") (.string (List.replicate 200 0x0A)))
        kMaxLoggedResourceValueChars cut) ∧
      (resolvedLine (fun _ => ascii "0") [⟨ascii "a, b", .int 1⟩] [] =
          resolvedLine (fun _ => ascii "0") [⟨ascii "a, b", .int 2⟩] [] →
        [(⟨ascii "a, b", .int 1⟩ : KeyValue)].Perm [⟨ascii "a, b", .int 2⟩]) := by
  have hformat : PlainFormat fun _ => ascii "0" := by
    constructor
    intro _ c hc
    have heq : c = 0x30 := by
      have hzero : ascii "0" = [0x30] := by decide +kernel
      rwa [hzero, List.mem_singleton] at hc
    rw [heq]
    decide +kernel
  have hshown : ∀ i : Int64, i = 1 ∨ i = 2 →
      Shown (fun _ => ascii "0") [⟨ascii "a, b", .int i⟩] := by
    rintro i (rfl | rfl)
    · exact shown_of_all (by decide +kernel) (by decide) (by decide +kernel)
    · exact shown_of_all (by decide +kernel) (by decide) (by decide +kernel)
  have hboundaries := resolvedLine_boundaries hformat
  refine ⟨hboundaries.2.1 ⟨ascii "k", _⟩ (by decide +kernel) (by decide +kernel), ?_⟩
  apply (hboundaries.2.2.1 _ _ [] (hshown 1 (.inl rfl)) (hshown 2 (.inr rfl))).mpr
  apply hboundaries.2.2.2
  intro kv hkv
  rw [List.mem_singleton.mp hkv]
  exact cleanKey_of_notMem (by decide +kernel)

/-- Three pieces as two attributes, in two ways. -/
theorem resolvedLine_blurred :
    ¬ ∀ a b : List KeyValue, Shown (fun _ => ascii "0") a → Shown (fun _ => ascii "0") b →
      resolvedLine (fun _ => ascii "0") a [] = resolvedLine (fun _ => ascii "0") b [] →
        a.Perm b := by
  intro h
  have hperm := h [⟨ascii "a=1, b", .int 2⟩, ⟨ascii "c", .int 3⟩]
    [⟨ascii "a", .int 1⟩, ⟨ascii "b=2, c", .int 3⟩]
    (shown_of_all (by decide +kernel) (by decide) (by decide +kernel))
    (shown_of_all (by decide +kernel) (by decide) (by decide +kernel)) (by decide +kernel)
  revert hperm
  decide +kernel

end Microtel.ResourceLog
