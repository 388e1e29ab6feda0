import Microtel.Lib.Decimal
import Microtel.Lib.Octets
import Microtel.Metrics.AttributeSet
import Microtel.Sdk.ConfigValidator

/-!
The line that logs the resolved Resource (`src/sdk/resource_builder.cpp`): sorted by key,
secrets redacted, keys and strings escaped, and the number of attributes and the length
of a value capped. How a `double` prints is the standard library's and a parameter here.
-/

namespace Microtel.ResourceLog

open Concentrator Microtel.Configuration

def kMaxLoggedResourceAttributes : Nat := 32
def kMaxLoggedResourceValueChars : Nat := 128

def kRedacted : Bytes := ascii "<redacted>"
def kEllipsis : Bytes := ascii "..."

def kSecretKeyFragments : List Bytes :=
  [ascii "authorization", ascii "secret", ascii "token", ascii "password", ascii "passwd",
    ascii "credential", ascii "api_key", ascii "apikey"]

def isSecretKey (key : Bytes) : Bool :=
  kSecretKeyFragments.any fun fragment => fragment <:+: key.map toLower

/-! ### Escapes -/

def kBackslash : UInt8 := 0x5C
def kQuote : UInt8 := 0x22
def kFirstPrintable : UInt8 := 0x20
def kDelete : UInt8 := 0x7F
def kSimpleEscapeLen : Nat := 2
def kHexEscapeLen : Nat := 4

/-- A digit of the format `02X`. -/
def upperHexDigit (nibble : Nat) : UInt8 := (ascii "0123456789ABCDEF").getD nibble 0

def appendEscaped (out : Bytes) (c : UInt8) : Bytes :=
  if c = kBackslash then out ++ [kBackslash, kBackslash]
  else if c = kQuote then out ++ [kBackslash, kQuote]
  else if c = 0x0A then out ++ kBackslash :: ascii "n"
  else if c = 0x0D then out ++ kBackslash :: ascii "r"
  else if c = 0x09 then out ++ kBackslash :: ascii "t"
  else if c < kFirstPrintable ∨ c = kDelete then
    out ++ kBackslash :: ascii "x" ++
      [upperHexDigit (c.toNat / 16), upperHexDigit (c.toNat % 16)]
  else out ++ [c]

def escape (text : Bytes) : Bytes := text.foldl appendEscaped []

/-- The loop of `SafeCutPoint`, at `pos` in front of `rest`. -/
def cutFrom (cap pos : Nat) : Bytes → Nat
  | [] => pos
  | c :: rest =>
      let len :=
        if kBackslash :: ascii "x" <+: c :: rest then kHexEscapeLen
        else if c = kBackslash then kSimpleEscapeLen
        else 1
      if cap < pos + len then pos else cutFrom cap (pos + len) (rest.drop (len - 1))
termination_by text => text.length
decreasing_by
  rw [List.length_drop, List.length_cons]
  omega

def safeCutPoint (rendered : Bytes) (cap : Nat) : Nat := cutFrom cap 0 rendered

/-! ### Values -/

def renderBool (value : Bool) : Bytes := if value then ascii "true" else ascii "false"

def renderInt (value : Int64) : Bytes := ascii (toString value.toInt)

def renderString (value : Bytes) : Bytes := kQuote :: escape value ++ [kQuote]

def kSeparator : Bytes := ascii ", "

/-- The loop over a vector. -/
def renderArray {α : Type} (render : α → Bytes) (values : List α) : Bytes :=
  (values.foldl (fun (out, separator) value => (out ++ separator ++ render value, kSeparator))
    (ascii "[", [])).1 ++ ascii "]"

/-- How `std::format` prints a `double`. -/
abbrev DoubleFormat := UInt64 → Bytes

variable (formatDouble : DoubleFormat)

def render : AttributeValue → Bytes
  | .bool v => renderBool v
  | .int v => renderInt v
  | .double v => formatDouble v
  | .string v => renderString v
  | .bools v => renderArray renderBool v
  | .ints v => renderArray renderInt v
  | .doubles v => renderArray formatDouble v
  | .strings v => renderArray renderString v

def loggedValue (kv : KeyValue) : Bytes :=
  if isSecretKey kv.key then kRedacted
  else
    let rendered := render formatDouble kv.value
    if kMaxLoggedResourceValueChars < rendered.length then
      rendered.take (safeCutPoint rendered kMaxLoggedResourceValueChars) ++ kEllipsis
    else rendered

/-! ### The line -/

inductive LogLevel
  | trace | debug | info | warn | error
  deriving DecidableEq, Repr

def LogLevel.value : LogLevel → Nat
  | .trace => 0
  | .debug => 1
  | .info => 2
  | .warn => 3
  | .error => 4

def decimal (n : Nat) : Bytes := ascii (toString n)

/-- `std::ranges::sort` by key; the keys of a merged Resource are distinct. -/
def sortByKey (attributes : List KeyValue) : List KeyValue :=
  attributes.insertionSort Metrics.keyOrder

/-- What stands before the first attribute. -/
def lineHead (profileName : Bytes) (size : Nat) : Bytes :=
  ascii "resolved resource (" ++
    (if profileName = [] then []
      else ascii "profile " ++ kQuote :: profileName ++ kQuote :: kSeparator) ++
    decimal size ++ ascii " attributes):"

/-- One round of the loop over the attributes shown. -/
def appendAttribute (line : Bytes × Bytes) (kv : KeyValue) : Bytes × Bytes :=
  (line.1 ++ line.2 ++ escape kv.key ++ ascii "=" ++ loggedValue formatDouble kv, kSeparator)

def resolvedLine (attributes : List KeyValue) (profileName : Bytes) : Bytes :=
  let sorted := sortByKey attributes
  let line := lineHead profileName sorted.length
  let shown := min sorted.length kMaxLoggedResourceAttributes
  let line := ((sorted.take shown).foldl (appendAttribute formatDouble) (line, ascii " ")).1
  if shown < sorted.length then
    line ++ kSeparator ++ kEllipsis ++ ascii "and " ++ decimal (sorted.length - shown) ++
      ascii " more"
  else line

/-- The record handed to the log, if the level lets it through. -/
def logResolvedResource (minLogLevel : LogLevel) (attributes : List KeyValue)
    (profileName : Bytes) : Option Bytes :=
  if LogLevel.info.value < minLogLevel.value then none
  else some (resolvedLine formatDouble attributes profileName)

/-! ### The loops -/

/-- What the loop over the bytes adds for one. -/
def escaped (c : UInt8) : Bytes := appendEscaped [] c

theorem appendEscaped_eq (out : Bytes) (c : UInt8) : appendEscaped out c = out ++ escaped c := by
  unfold escaped appendEscaped
  split_ifs <;> simp

theorem escape_eq (text : Bytes) : escape text = text.flatMap escaped := by
  have hfold : ∀ out, text.foldl appendEscaped out = out ++ text.flatMap escaped := by
    induction text with
    | nil => simp
    | cons c text ih =>
        intro out
        rw [List.foldl_cons, ih, appendEscaped_eq, List.flatMap_cons, List.append_assoc]
  rw [escape, hfold, List.nil_append]

theorem escape_append (first second : Bytes) :
    escape (first ++ second) = escape first ++ escape second := by
  rw [escape_eq, escape_eq, escape_eq, List.flatMap_append]

/-- Items with a separator between two, the first behind a lead. -/
def separated (lead : Bytes) (items : List Bytes) : Bytes :=
  if items = [] then [] else lead ++ kSeparator.intercalate items

theorem separated_cons (lead item : Bytes) (items : List Bytes) :
    separated lead (item :: items) = lead ++ item ++ separated kSeparator items := by
  cases items with
  | nil => simp [separated]
  | cons item' items => simp [separated, List.intercalate_cons_cons]

theorem foldl_separated {α : Type} (text : α → Bytes) (items : List α) :
    ∀ out lead : Bytes,
      (items.foldl (fun (out, separator) x => (out ++ separator ++ text x, kSeparator))
        (out, lead)).1 = out ++ separated lead (items.map text) := by
  induction items with
  | nil => simp [separated]
  | cons x items ih =>
      intro out lead
      rw [List.foldl_cons, ih, List.map_cons, separated_cons]
      simp only [List.append_assoc]

theorem renderArray_eq {α : Type} (text : α → Bytes) (values : List α) :
    renderArray text values = ascii "[" ++ separated [] (values.map text) ++ ascii "]" := by
  rw [renderArray, foldl_separated]

def attributeText (kv : KeyValue) : Bytes :=
  escape kv.key ++ ascii "=" ++ loggedValue formatDouble kv

/-- All that stands behind the head of the line. -/
def lineBody (attributes : List KeyValue) : Bytes :=
  separated (ascii " ")
      (((sortByKey attributes).take kMaxLoggedResourceAttributes).map
        (attributeText formatDouble)) ++
    if kMaxLoggedResourceAttributes < attributes.length then
      kSeparator ++ kEllipsis ++ ascii "and " ++
        decimal (attributes.length - kMaxLoggedResourceAttributes) ++ ascii " more"
    else []

theorem length_sortByKey (attributes : List KeyValue) :
    (sortByKey attributes).length = attributes.length :=
  List.length_insertionSort _ _

theorem resolvedLine_eq (attributes : List KeyValue) (profileName : Bytes) :
    resolvedLine formatDouble attributes profileName =
      lineHead profileName attributes.length ++ lineBody formatDouble attributes := by
  have hloop : ∀ line lead : Bytes, ∀ shown : List KeyValue,
      (shown.foldl (appendAttribute formatDouble) (line, lead)).1 =
        line ++ separated lead (shown.map (attributeText formatDouble)) := by
    intro line lead shown
    rw [← foldl_separated]
    congr 2
    funext out kv
    simp [appendAttribute, attributeText]
  unfold resolvedLine lineBody
  simp only [hloop, length_sortByKey]
  by_cases hmore : kMaxLoggedResourceAttributes < attributes.length
  · rw [Nat.min_eq_right hmore.le]
    simp [hmore]
  · rw [Nat.min_eq_left (Nat.not_lt.mp hmore)]
    have htake : (sortByKey attributes).take kMaxLoggedResourceAttributes =
        (sortByKey attributes).take attributes.length := by
      rw [List.take_of_length_le (by rw [length_sortByKey]; omega),
        List.take_of_length_le (by rw [length_sortByKey])]
    simp [hmore, htake]

end Microtel.ResourceLog
