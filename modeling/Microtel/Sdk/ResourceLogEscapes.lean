import Microtel.Lib.SelfDelimiting
import Microtel.Sdk.ResourceLog

/-!
The escapes of the line that logs the resolved Resource. A printed value is a sequence of
atoms, single bytes and escape sequences; none of them holds a control character, none is
the beginning of another, and the cut of a long value falls between two of them.
-/

namespace Microtel.ResourceLog

open Concentrator Microtel.Configuration Delimited

/-! ### What an escape is -/

def isControl (c : UInt8) : Bool := c < kFirstPrintable || c = kDelete

/-- A byte for itself, or an escape sequence. -/
inductive IsAtom : Bytes → Prop
  | plain {c : UInt8} (h : c ≠ kBackslash) : IsAtom [c]
  | simple {c : UInt8} (h : c ≠ 0x78) : IsAtom [kBackslash, c]
  | hex (high low : UInt8) : IsAtom [kBackslash, 0x78, high, low]

theorem isAtom_escaped (c : UInt8) : IsAtom (escaped c) := by
  unfold escaped appendEscaped
  split_ifs with hbackslash hquote hnewline hreturn htab hcontrol
  · exact .simple (by decide)
  · exact .simple (by decide)
  · exact .simple (by decide)
  · exact .simple (by decide)
  · exact .simple (by decide)
  · exact .hex _ _
  · exact .plain hbackslash

/-- The byte an atom stands for. -/
def unescaped : Bytes → Option UInt8
  | [c] => some c
  | [_, c] =>
      if c = 0x6E then some 0x0A
      else if c = 0x72 then some 0x0D
      else if c = 0x74 then some 0x09
      else some c
  | [_, _, high, low] => hexByte high low
  | _ => none

/-- Read off the table of octets: no control character, the octet back, no quote in front,
and a digit for itself. -/
theorem escaped_octet (c : UInt8) :
    ((escaped c).all fun b => !isControl b) = true ∧ unescaped (escaped c) = some c ∧
      (escaped c).head? ≠ some kQuote ∧
      (0x30 ≤ c.toNat ∧ c.toNat ≤ 0x39 → escaped c = [c]) := by
  revert c
  apply Octets.forall_octet
  decide +kernel

theorem escaped_printable (c : UInt8) : ∀ b ∈ escaped c, isControl b = false := by
  obtain ⟨hall, -⟩ := escaped_octet c
  intro b hb
  simpa using List.all_eq_true.mp hall b hb

theorem unescaped_escaped (c : UInt8) : unescaped (escaped c) = some c :=
  (escaped_octet c).2.1

theorem escape_printable (text : Bytes) : ∀ b ∈ escape text, isControl b = false := by
  intro b hb
  rw [escape_eq] at hb
  obtain ⟨c, -, hb⟩ := List.mem_flatMap.mp hb
  exact escaped_printable c b hb

/-- Of two atoms at one place neither can be longer. -/
theorem atom_unique {a b rest rest' : Bytes} (ha : IsAtom a) (hb : IsAtom b)
    (h : a ++ rest = b ++ rest') : a = b ∧ rest = rest' := by
  cases ha with
  | plain hc =>
      cases hb with
      | plain _ => simpa using h
      | simple _ => exact absurd (List.cons.inj h).1 hc
      | hex _ _ => exact absurd (List.cons.inj h).1 hc
  | simple hc =>
      cases hb with
      | plain hd => exact absurd (List.cons.inj h).1.symm hd
      | simple _ => simpa using h
      | hex _ _ => exact absurd (List.cons.inj (List.cons.inj h).2).1 hc
  | hex high low =>
      cases hb with
      | plain hd => exact absurd (List.cons.inj h).1.symm hd
      | simple hd => exact absurd (List.cons.inj (List.cons.inj h).2).1.symm hd
      | hex _ _ => simpa [and_assoc] using h

theorem escapes : SelfDelimiting (fun _ => True) escaped := by
  intro c d _ _ rest rest' h
  obtain ⟨hatom, hrest⟩ := atom_unique (isAtom_escaped c) (isAtom_escaped d) h
  have hsome := unescaped_escaped c
  rw [hatom, unescaped_escaped] at hsome
  exact ⟨(Option.some.inj hsome).symm, hrest⟩

theorem escaped_ne_nil (c : UInt8) : escaped c ≠ [] := by
  intro h
  have hatom := isAtom_escaped c
  rw [h] at hatom
  cases hatom

theorem escape_injective {s t : Bytes} (h : escape s = escape t) : s = t := by
  rw [escape_eq, escape_eq] at h
  exact escapes.flatMap_injective escaped_ne_nil (by simp) (by simp) h

theorem escape_prefix {s t rest : Bytes} (h : escape t = escape s ++ rest) :
    ∃ more, t = s ++ more ∧ rest = escape more := by
  rw [escape_eq, escape_eq] at h
  obtain ⟨more, hmore, hrest⟩ := escapes.flatMap_prefix escaped_ne_nil (by simp) (by simp) h
  exact ⟨more, hmore, by rw [hrest, escape_eq]⟩

/-- A quote of the text is printed behind a backslash. -/
theorem escaped_ne_quote (c : UInt8) (rest rest' : Bytes) :
    escaped c ++ rest ≠ kQuote :: rest' := by
  obtain ⟨-, -, hquote, -⟩ := escaped_octet c
  intro h
  apply hquote
  have hhead := congrArg List.head? h
  rwa [List.head?_append_of_ne_nil _ (escaped_ne_nil c)] at hhead

/-! ### The atoms of a value -/

def singles (text : Bytes) : List Bytes := text.map fun c => [c]

def stringAtoms (text : Bytes) : List Bytes := [kQuote] :: text.map escaped ++ [[kQuote]]

def arrayAtoms {α : Type} (atoms : α → List Bytes) (values : List α) : List Bytes :=
  singles (ascii "[") ++ (singles kSeparator).intercalate (values.map atoms) ++
    singles (ascii "]")

variable {formatDouble : DoubleFormat}

variable (formatDouble) in
/-- The escape sequences of a printed value, and its other bytes one by one. -/
def atoms : AttributeValue → List Bytes
  | .bool v => singles (renderBool v)
  | .int v => singles (renderInt v)
  | .double v => singles (formatDouble v)
  | .string v => stringAtoms v
  | .bools v => arrayAtoms (fun b => singles (renderBool b)) v
  | .ints v => arrayAtoms (fun i => singles (renderInt i)) v
  | .doubles v => arrayAtoms (fun d => singles (formatDouble d)) v
  | .strings v => arrayAtoms stringAtoms v

theorem singles_flatten (text : Bytes) : (singles text).flatten = text := by
  induction text with
  | nil => rfl
  | cons c text ih => rw [singles, List.map_cons, List.flatten_cons, ← singles, ih]; rfl

theorem stringAtoms_flatten (text : Bytes) : (stringAtoms text).flatten = renderString text := by
  simp [stringAtoms, renderString, escape_eq, List.flatMap_def]

theorem flatten_intercalate (sep : List Bytes) (items : List (List Bytes)) :
    (sep.intercalate items).flatten = sep.flatten.intercalate (items.map List.flatten) := by
  induction items with
  | nil => rfl
  | cons item items ih =>
      cases items with
      | nil => simp
      | cons item' items =>
          rw [List.intercalate_cons_cons, List.flatten_append, List.flatten_append, ih]
          simp only [List.map_cons, List.intercalate_cons_cons]

theorem separated_nil_lead (items : List Bytes) :
    separated [] items = kSeparator.intercalate items := by
  unfold separated
  split
  · next h => rw [h]; rfl
  · rfl

theorem arrayAtoms_flatten {α : Type} {atoms : α → List Bytes} {text : α → Bytes}
    (h : ∀ x, (atoms x).flatten = text x) (values : List α) :
    (arrayAtoms atoms values).flatten = renderArray text values := by
  have hitems : (values.map atoms).map List.flatten = values.map text := by
    rw [List.map_map]
    apply List.map_congr_left
    intro x _
    exact h x
  rw [renderArray_eq, separated_nil_lead, arrayAtoms, List.flatten_append, List.flatten_append,
    flatten_intercalate, hitems, singles_flatten, singles_flatten, singles_flatten]

theorem atoms_flatten (value : AttributeValue) :
    (atoms formatDouble value).flatten = render formatDouble value := by
  cases value with
  | bool v => exact singles_flatten _
  | int v => exact singles_flatten _
  | double v => exact singles_flatten _
  | string v => exact stringAtoms_flatten v
  | bools v => exact arrayAtoms_flatten (fun b => singles_flatten _) v
  | ints v => exact arrayAtoms_flatten (fun i => singles_flatten _) v
  | doubles v => exact arrayAtoms_flatten (fun d => singles_flatten _) v
  | strings v => exact arrayAtoms_flatten stringAtoms_flatten v

theorem forall_mem_intercalate {α : Type} {P : α → Prop} {sep : List α} {items : List (List α)}
    (hsep : ∀ x ∈ sep, P x) (h : ∀ item ∈ items, ∀ x ∈ item, P x) :
    ∀ x ∈ sep.intercalate items, P x := by
  induction items with
  | nil =>
      intro x hx
      cases hx
  | cons item items ih =>
      have hrest : ∀ item' ∈ items, ∀ x ∈ item', P x :=
        fun item' hitem' => h item' (by simp [hitem'])
      cases items with
      | nil => simpa using h item (by simp)
      | cons item' items =>
          intro x hx
          rw [List.intercalate_cons_cons, List.mem_append, List.mem_append] at hx
          rcases hx with (hx | hx) | hx
          · exact h item (by simp) x hx
          · exact hsep x hx
          · exact ih hrest x hx

/-- What the standard library prints for a `double`: digits, signs, a point, an exponent,
`inf` and `nan`. -/
structure PlainFormat (formatDouble : DoubleFormat) : Prop where
  octets : ∀ bits, ∀ c ∈ formatDouble bits, c ∈ ascii "0123456789+-.einfa"

/-- A byte that prints as itself and is no control character. -/
def IsPlain (c : UInt8) : Prop := escaped c = [c]

instance (c : UInt8) : Decidable (IsPlain c) := inferInstanceAs (Decidable (escaped c = [c]))

/-- An atom without control characters. -/
structure Printed (a : Bytes) : Prop where
  atom : IsAtom a
  printable : ∀ c ∈ a, isControl c = false

theorem printed_escaped (c : UInt8) : Printed (escaped c) :=
  ⟨isAtom_escaped c, escaped_printable c⟩

theorem IsPlain.printed {c : UInt8} (h : IsPlain c) : Printed [c] := by
  have hprinted := printed_escaped c
  rwa [h] at hprinted

theorem isPlain_digit {c : UInt8} (h : Decimal.IsDigit c) : IsPlain c :=
  (escaped_octet c).2.2.2 h

/-- The texts that stand in a line whatever the attributes are, and the octets of a number. -/
def fixedTexts : List Bytes :=
  [renderBool true, renderBool false, [Decimal.kMinus], ascii "0123456789+-.einfa", kSeparator,
    ascii "[", ascii "]", kRedacted, kEllipsis, ascii "=", ascii " ", ascii "and ", ascii " more"]

theorem isPlain_fixed {text : Bytes} (h : text ∈ fixedTexts) : ∀ c ∈ text, IsPlain c := by
  have hall : (fixedTexts.all fun text => text.all fun c => IsPlain c) = true := by
    decide +kernel
  intro c hc
  exact of_decide_eq_true (List.all_eq_true.mp (List.all_eq_true.mp hall text h) c hc)

theorem IsPlain.printable {c : UInt8} (h : IsPlain c) : isControl c = false :=
  h.printed.printable c (List.mem_singleton_self c)

theorem fixed_printable {text : Bytes} (h : text ∈ fixedTexts) :
    ∀ c ∈ text, isControl c = false := by
  intro c hc
  exact (isPlain_fixed h c hc).printable

theorem isPlain_renderBool (v : Bool) : ∀ c ∈ renderBool v, IsPlain c := by
  cases v with
  | true => exact isPlain_fixed (by simp [fixedTexts])
  | false => exact isPlain_fixed (by simp [fixedTexts])

theorem isPlain_renderInt (v : Int64) : ∀ c ∈ renderInt v, IsPlain c := by
  intro c hc
  rcases Decimal.intText_octets v.toInt c hc with rfl | hdigit
  · have hminus : [Decimal.kMinus] ∈ fixedTexts := by simp [fixedTexts]
    exact isPlain_fixed hminus _ (List.mem_singleton_self _)
  · exact isPlain_digit hdigit

theorem isPlain_format (hformat : PlainFormat formatDouble) (bits : UInt64) :
    ∀ c ∈ formatDouble bits, IsPlain c := by
  have hoctets : ascii "0123456789+-.einfa" ∈ fixedTexts := by simp [fixedTexts]
  intro c hc
  exact isPlain_fixed hoctets c (hformat.octets bits c hc)

theorem isPlain_separator : ∀ c ∈ kSeparator, IsPlain c := isPlain_fixed (by simp [fixedTexts])

theorem printed_singles {text : Bytes} (h : ∀ c ∈ text, IsPlain c) :
    ∀ a ∈ singles text, Printed a := by
  intro a ha
  obtain ⟨c, hc, rfl⟩ := List.mem_map.mp ha
  exact (h c hc).printed

theorem printed_string (text : Bytes) : ∀ a ∈ stringAtoms text, Printed a := by
  have hquote : Printed [kQuote] := ⟨.plain (by decide), by simp; decide⟩
  intro a ha
  simp only [stringAtoms, List.cons_append, List.mem_cons, List.mem_append, List.mem_map,
    List.not_mem_nil, or_false] at ha
  rcases ha with rfl | ⟨c, -, rfl⟩ | rfl
  · exact hquote
  · exact printed_escaped c
  · exact hquote

theorem printed_array {α : Type} {atoms : α → List Bytes} (h : ∀ x, ∀ a ∈ atoms x, Printed a)
    (values : List α) : ∀ a ∈ arrayAtoms atoms values, Printed a := by
  have hopen : ∀ a ∈ singles (ascii "["), Printed a :=
    printed_singles (isPlain_fixed (by simp [fixedTexts]))
  have hclose : ∀ a ∈ singles (ascii "]"), Printed a :=
    printed_singles (isPlain_fixed (by simp [fixedTexts]))
  have hitems : ∀ a ∈ (singles kSeparator).intercalate (values.map atoms), Printed a := by
    apply forall_mem_intercalate (printed_singles isPlain_separator)
    intro item hitem
    obtain ⟨x, -, rfl⟩ := List.mem_map.mp hitem
    exact h x
  intro a ha
  rw [arrayAtoms, List.mem_append, List.mem_append] at ha
  rcases ha with (ha | ha) | ha
  · exact hopen a ha
  · exact hitems a ha
  · exact hclose a ha

theorem printed_atoms (hformat : PlainFormat formatDouble) (value : AttributeValue) :
    ∀ a ∈ atoms formatDouble value, Printed a := by
  cases value with
  | bool v => exact printed_singles (isPlain_renderBool v)
  | int v => exact printed_singles (isPlain_renderInt v)
  | double v => exact printed_singles (isPlain_format hformat v)
  | string v => exact printed_string v
  | bools v => exact printed_array (fun b => printed_singles (isPlain_renderBool b)) v
  | ints v => exact printed_array (fun i => printed_singles (isPlain_renderInt i)) v
  | doubles v => exact printed_array (fun d => printed_singles (isPlain_format hformat d)) v
  | strings v => exact printed_array printed_string v

/-! ### Nothing ends the line -/

theorem render_printable (hformat : PlainFormat formatDouble) (value : AttributeValue) :
    ∀ c ∈ render formatDouble value, isControl c = false := by
  intro c hc
  rw [← atoms_flatten, List.mem_flatten] at hc
  obtain ⟨a, ha, hc⟩ := hc
  exact (printed_atoms hformat value a ha).printable c hc

theorem loggedValue_printable (hformat : PlainFormat formatDouble) (kv : KeyValue) :
    ∀ c ∈ loggedValue formatDouble kv, isControl c = false := by
  have hredacted : ∀ c ∈ kRedacted, isControl c = false := fixed_printable (by simp [fixedTexts])
  have hellipsis : ∀ c ∈ kEllipsis, isControl c = false := fixed_printable (by simp [fixedTexts])
  intro c hc
  unfold loggedValue at hc
  split at hc
  · exact hredacted c hc
  · dsimp only at hc
    split at hc
    · rcases List.mem_append.mp hc with hc | hc
      · exact render_printable hformat _ c (List.mem_of_mem_take hc)
      · exact hellipsis c hc
    · exact render_printable hformat _ c hc

theorem attributeText_printable (hformat : PlainFormat formatDouble) (kv : KeyValue) :
    ∀ c ∈ attributeText formatDouble kv, isControl c = false := by
  have hequals : ∀ c ∈ ascii "=", isControl c = false := fixed_printable (by simp [fixedTexts])
  intro c hc
  rw [attributeText, List.mem_append, List.mem_append] at hc
  rcases hc with (hc | hc) | hc
  · exact escape_printable _ c hc
  · exact hequals c hc
  · exact loggedValue_printable hformat kv c hc

theorem separated_printable {lead : Bytes} {items : List Bytes}
    (hlead : ∀ c ∈ lead, isControl c = false)
    (h : ∀ item ∈ items, ∀ c ∈ item, isControl c = false) :
    ∀ c ∈ separated lead items, isControl c = false := by
  have hseparator : ∀ c ∈ kSeparator, isControl c = false := fixed_printable (by simp [fixedTexts])
  intro c hc
  unfold separated at hc
  split at hc
  · cases hc
  · rcases List.mem_append.mp hc with hc | hc
    · exact hlead c hc
    · exact forall_mem_intercalate hseparator h c hc

theorem decimal_printable (n : Nat) : ∀ c ∈ decimal n, isControl c = false := by
  intro c hc
  exact (isPlain_digit (Decimal.natText_digits n c hc)).printable

/-- Nothing behind the head of the line is a control character. -/
theorem lineBody_printable (hformat : PlainFormat formatDouble) (attributes : List KeyValue) :
    ∀ c ∈ lineBody formatDouble attributes, isControl c = false := by
  have hspace : ∀ c ∈ ascii " ", isControl c = false := fixed_printable (by simp [fixedTexts])
  have hmore : ∀ c ∈ kSeparator ++ kEllipsis ++ ascii "and ", isControl c = false := by
    intro c hc
    rw [List.mem_append, List.mem_append] at hc
    rcases hc with (hc | hc) | hc
    · exact fixed_printable (by simp [fixedTexts]) c hc
    · exact fixed_printable (by simp [fixedTexts]) c hc
    · exact fixed_printable (by simp [fixedTexts]) c hc
  have hend : ∀ c ∈ ascii " more", isControl c = false := fixed_printable (by simp [fixedTexts])
  intro c hc
  unfold lineBody at hc
  rcases List.mem_append.mp hc with hc | hc
  · apply separated_printable hspace ?_ c hc
    intro item hitem
    obtain ⟨kv, -, rfl⟩ := List.mem_map.mp hitem
    exact attributeText_printable hformat kv
  · split at hc
    · rw [List.mem_append, List.mem_append] at hc
      rcases hc with (hc | hc) | hc
      · exact hmore c hc
      · exact decimal_printable _ c hc
      · exact hend c hc
    · cases hc

/-! ### The cut -/

theorem cutFrom_atom {a : Bytes} (ha : IsAtom a) (cap pos : Nat) (rest : Bytes) :
    cutFrom cap pos (a ++ rest) =
      if cap < pos + a.length then pos else cutFrom cap (pos + a.length) rest := by
  have hx : ascii "x" = [0x78] := by decide +kernel
  cases ha with
  | plain hc =>
      rw [List.singleton_append, cutFrom, hx]
      simp [hc, Ne.symm hc]
  | simple hc =>
      rw [List.cons_append, cutFrom, hx]
      simp [Ne.symm hc, kSimpleEscapeLen]
  | hex high low =>
      rw [List.cons_append, cutFrom, hx]
      simp [kHexEscapeLen]

/-- The longest of the beginnings that end between two atoms and fit. -/
structure LongestWhole (atoms : List Bytes) (cap : Nat) (cut : Bytes) : Prop where
  whole : ∃ n, cut = (atoms.take n).flatten
  fits : cut.length ≤ cap
  longest : ∀ n, (atoms.take n).flatten.length ≤ cap →
    (atoms.take n).flatten.length ≤ cut.length

/-- From any place between two atoms that fits, the loop takes atoms while they fit. -/
theorem cutFrom_atoms {atoms : List Bytes} (h : ∀ a ∈ atoms, IsAtom a) (cap : Nat) :
    ∀ pos ≤ cap, ∃ n, cutFrom cap pos atoms.flatten = pos + (atoms.take n).flatten.length ∧
      pos + (atoms.take n).flatten.length ≤ cap ∧
      ∀ m, pos + (atoms.take m).flatten.length ≤ cap →
        (atoms.take m).flatten.length ≤ (atoms.take n).flatten.length := by
  induction atoms with
  | nil =>
      intro pos hpos
      exact ⟨0, by simp [cutFrom], by simpa using hpos, by simp⟩
  | cons a atoms ih =>
      intro pos hpos
      have hrest : ∀ b ∈ atoms, IsAtom b := fun b hb => h b (by simp [hb])
      rw [List.flatten_cons, cutFrom_atom (h a (by simp))]
      by_cases hcap : cap < pos + a.length
      · rw [if_pos hcap]
        refine ⟨0, by simp, by simpa using hpos, ?_⟩
        intro m hm
        cases m with
        | zero => simp
        | succ m =>
            rw [List.take_succ_cons, List.flatten_cons, List.length_append] at hm
            omega
      · rw [if_neg hcap]
        obtain ⟨n, hcut, hfits, hlongest⟩ := ih hrest (pos + a.length) (by omega)
        refine ⟨n + 1, ?_, ?_, ?_⟩
        · rw [hcut, List.take_succ_cons, List.flatten_cons, List.length_append]
          omega
        · rw [List.take_succ_cons, List.flatten_cons, List.length_append]
          omega
        · intro m hm
          cases m with
          | zero => simp
          | succ m =>
              rw [List.take_succ_cons, List.flatten_cons, List.length_append] at hm ⊢
              rw [List.take_succ_cons, List.flatten_cons, List.length_append]
              have hle := hlongest m (by omega)
              omega

theorem take_safeCutPoint {atoms : List Bytes} (h : ∀ a ∈ atoms, IsAtom a) (cap : Nat) :
    LongestWhole atoms cap (atoms.flatten.take (safeCutPoint atoms.flatten cap)) := by
  obtain ⟨n, hcut, hfits, hlongest⟩ := cutFrom_atoms h cap 0 (Nat.zero_le cap)
  simp only [Nat.zero_add] at hcut hfits hlongest
  have htake : atoms.flatten.take (safeCutPoint atoms.flatten cap) = (atoms.take n).flatten := by
    have hsplit : atoms.flatten = (atoms.take n).flatten ++ (atoms.drop n).flatten := by
      rw [← List.flatten_append, List.take_append_drop]
    rw [safeCutPoint, hcut]
    conv => lhs; arg 2; rw [hsplit]
    exact List.take_left
  rw [htake]
  exact ⟨⟨n, rfl⟩, hfits, hlongest⟩

theorem loggedValue_cut (hformat : PlainFormat formatDouble) {kv : KeyValue}
    (hsecret : isSecretKey kv.key = false)
    (hlong : kMaxLoggedResourceValueChars < (render formatDouble kv.value).length) :
    ∃ cut, loggedValue formatDouble kv = cut ++ kEllipsis ∧
      LongestWhole (atoms formatDouble kv.value) kMaxLoggedResourceValueChars cut := by
  have hatoms : ∀ a ∈ atoms formatDouble kv.value, IsAtom a :=
    fun a ha => (printed_atoms hformat kv.value a ha).atom
  have hwhole := take_safeCutPoint hatoms kMaxLoggedResourceValueChars
  rw [atoms_flatten] at hwhole
  refine ⟨_, ?_, hwhole⟩
  rw [loggedValue, if_neg (by simp [hsecret])]
  exact if_pos hlong

end Microtel.ResourceLog
