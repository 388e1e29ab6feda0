import Microtel.Api.Types
import Microtel.Lib.Delimited

/-!
`Baggage` (`src/api/baggage.cpp`). As for `TraceState`, the null pointer is the
empty baggage.
-/

namespace Microtel.Api

open Delimited

namespace Baggage

/-- The comma. -/
def kListSeparator : UInt8 := 0x2C
/-- The equals sign. -/
def kKeyValueSeparator : UInt8 := 0x3D
/-- The semicolon. -/
def kPropertySeparator : UInt8 := 0x3B
/-- The percent sign. -/
def kEscapePrefix : UInt8 := 0x25

def kFirstOctet : UInt8 := 0x21
def kLastOctet : UInt8 := 0x7E

/-- `0123456789ABCDEF`. -/
def kUpperHexDigits : Bytes :=
  [0x30, 0x31, 0x32, 0x33, 0x34, 0x35, 0x36, 0x37, 0x38, 0x39, 0x41, 0x42, 0x43, 0x44, 0x45, 0x46]

def kNibbleShift : UInt8 := 4
def kLowNibbleMask : UInt8 := 0x0F
def kDecimalDigitCount : UInt8 := 10
def kEscapeChars : Nat := 3
def kKeyValueSeparatorChars : Nat := 1
def kListSeparatorChars : Nat := 1
def kPropertySeparatorChars : Nat := 1

def kMaxEntries : Nat := 180
def kMaxEntryBytes : Nat := 4096
def kMaxTotalBytes : Nat := 8192

/-! ### Characters -/

def isDigit (c : UInt8) : Bool := 0x30 ≤ c && c ≤ 0x39

def isAlpha (c : UInt8) : Bool := (0x61 ≤ c && c ≤ 0x7A) || (0x41 ≤ c && c ≤ 0x5A)

/-- The fifteen marks `!`, `#` to `'`, `*`, `+`, `-`, `.`, `^` to the grave
accent, `|` and `~`. -/
def kTokenSpecials : Bytes :=
  [0x21, 0x23, 0x24, 0x25, 0x26, 0x27, 0x2A, 0x2B, 0x2D, 0x2E, 0x5E, 0x5F, 0x60, 0x7C, 0x7E]

def isTokenChar (c : UInt8) : Bool := isAlpha c || isDigit c || kTokenSpecials.contains c

def isToken (text : Bytes) : Bool := text ≠ [] && text.all isTokenChar

/-- The excluded marks are the double quote, the separators and the backslash. -/
def isBaggageOctet (c : UInt8) : Bool :=
  if c < kFirstOctet || kLastOctet < c then false
  else c ≠ 0x22 && c ≠ kListSeparator && c ≠ kPropertySeparator && c ≠ 0x5C

def isWireValue (text : Bytes) : Bool := text.all isBaggageOctet

/-- Space and tab. -/
def isOptionalWhitespace (c : UInt8) : Bool := c = 0x20 || c = 0x09

def trimOptionalWhitespace (text : Bytes) : Bytes := trim isOptionalWhitespace text

def isHexDigit (c : UInt8) : Bool :=
  isDigit c || (0x61 ≤ c && c ≤ 0x66) || (0x41 ≤ c && c ≤ 0x46)

def hexDigitValue (c : UInt8) : UInt8 :=
  if isDigit c then c - 0x30
  else
    let base : UInt8 := if 0x61 ≤ c && c ≤ 0x66 then 0x61 else 0x41
    c - base + kDecimalDigitCount

/-! ### Values -/

/-- `none` is the source's `false`. -/
def decodeValue : Bytes → Option Bytes
  | [] => some []
  | c :: rest =>
      if !isBaggageOctet c then none
      else if c ≠ kEscapePrefix then (decodeValue rest).map (c :: ·)
      else
        match rest with
        | high :: low :: rest =>
            if !isHexDigit high || !isHexDigit low then none
            else
              (decodeValue rest).map
                (((hexDigitValue high <<< kNibbleShift) ||| hexDigitValue low) :: ·)
        | _ => none

def needsEscape (c : UInt8) : Bool := !isBaggageOctet c || c = kEscapePrefix

def encodedSize (decoded : Bytes) : Nat :=
  decoded.foldl (fun size c => size + if needsEscape c then kEscapeChars else 1) 0

/-- One round of the loop in `AppendEncoded`. -/
def appendOctet (out : Bytes) (c : UInt8) : Bytes :=
  if !needsEscape c then out ++ [c]
  else
    out ++ [kEscapePrefix,
      kUpperHexDigits.getD ((c >>> kNibbleShift) &&& kLowNibbleMask).toNat 0,
      kUpperHexDigits.getD (c &&& kLowNibbleMask).toNat 0]

def appendEncoded (decoded out : Bytes) : Bytes := decoded.foldl appendOctet out

/-! ### Members -/

def appendProperty (property out : Bytes) : Option Bytes :=
  let (before, after) := cut kKeyValueSeparator property
  let name := trimOptionalWhitespace before
  if !isToken name then none
  else
    match after with
    | none => some ((if out = [] then out else out ++ [kPropertySeparator]) ++ name)
    | some text =>
        let value := trimOptionalWhitespace text
        if !isWireValue value then none
        else
          some ((if out = [] then out else out ++ [kPropertySeparator]) ++
            name ++ [kKeyValueSeparator] ++ value)

/-- The loop of `ParseProperties`, over the pieces between the semicolons. -/
def parseProperties : List Bytes → Bytes → Option Bytes
  | [], out => some out
  | piece :: pieces, out =>
      match appendProperty (trimOptionalWhitespace piece) out with
      | none => none
      | some out => parseProperties pieces out

structure Entry where
  key : Bytes
  /-- Percent-decoded. -/
  value : Bytes
  /-- The canonical tail without its leading semicolon, or empty. -/
  properties : Bytes
  memberBytes : Nat
  deriving DecidableEq, Repr

def makeEntry (key value properties : Bytes) : Entry :=
  let propertyBytes := if properties = [] then 0 else kPropertySeparatorChars + properties.length
  { key, value, properties
    memberBytes := key.length + kKeyValueSeparatorChars + encodedSize value + propertyBytes }

def parseMember (member : Bytes) : Option Entry :=
  let (head, tail) := cut kPropertySeparator member
  match cut kKeyValueSeparator head with
  | (_, none) => none
  | (keyText, some valueText) =>
      let key := trimOptionalWhitespace keyText
      if !isToken key then none
      else
        match decodeValue (trimOptionalWhitespace valueText) with
        | none => none
        | some value =>
            match tail with
            | none => some (makeEntry key value [])
            | some tail =>
                (parseProperties (tail.splitOn kPropertySeparator) []).map (makeEntry key value)

/-! ### Limits -/

def contains (entries : List Entry) (key : Bytes) : Bool := entries.any fun entry => entry.key = key

def totalWith (total count memberBytes : Nat) : Nat :=
  let separator := if count = 0 then 0 else kListSeparatorChars
  total + separator + memberBytes

def serialisedSize (entries : List Entry) : Nat :=
  (entries.foldl
    (fun (state : Nat × Nat) entry =>
      (totalWith state.1 state.2 entry.memberBytes, state.2 + 1)) (0, 0)).1

inductive Admission where
  | accepted
  | skipped
  | stopped
  deriving DecidableEq, Repr

/-- `Admit`. -/
def admission (candidate : Entry) (entries : List Entry) (total : Nat) : Admission :=
  if kMaxEntryBytes < candidate.memberBytes then .skipped
  else if contains entries candidate.key then .skipped
  else if kMaxEntries ≤ entries.length then .stopped
  else if kMaxTotalBytes < totalWith total entries.length candidate.memberBytes then .stopped
  else .accepted

/-- The member a piece between two commas holds, if it parses. -/
def parsePiece (piece : Bytes) : Option Entry :=
  let member := trimOptionalWhitespace piece
  if member = [] then none else parseMember member

/-- `ParseMembers`, over the pieces between the commas. -/
def parseMembers : List Bytes → List Entry → Nat → List Entry
  | [], entries, _ => entries
  | piece :: pieces, entries, total =>
      match parsePiece piece with
      | none => parseMembers pieces entries total
      | some entry =>
          match admission entry entries total with
          | .stopped => entries
          | .skipped => parseMembers pieces entries total
          | .accepted =>
              parseMembers pieces (entries ++ [entry])
                (totalWith total entries.length entry.memberBytes)

end Baggage

structure Baggage where
  impl : Option (List Baggage.Entry) := none
  deriving DecidableEq, Repr

namespace Baggage

/-- `Seal`. -/
def sealed (entries : List Entry) : Baggage := if entries = [] then {} else { impl := some entries }

def fromHeader (header : Bytes) : Baggage :=
  sealed (parseMembers (header.splitOn kListSeparator) [] 0)

/-- One round of the loop in `ToHeader`. -/
def appendMember (header : Bytes) (entry : Entry) : Bytes :=
  let header := if header = [] then header else header ++ [kListSeparator]
  let header := appendEncoded entry.value (header ++ entry.key ++ [kKeyValueSeparator])
  if entry.properties = [] then header else header ++ [kPropertySeparator] ++ entry.properties

def toHeader (b : Baggage) : Bytes :=
  match b.impl with
  | none => []
  | some entries => entries.foldl appendMember []

/-- The entries, none for the null pointer. -/
def list (b : Baggage) : List Entry := b.impl.getD []

def size (b : Baggage) : Nat := b.list.length

def empty (b : Baggage) : Bool := b.size = 0

def get (b : Baggage) (key : Bytes) : Option Bytes :=
  (b.list.find? fun entry => entry.key = key).map Entry.value

/-- The entries with `candidate` in place of the first of its key, else at the end. -/
def replaceOrPush (candidate : Entry) : List Entry → List Entry
  | [] => [candidate]
  | entry :: entries =>
      if entry.key = candidate.key then candidate :: entries
      else entry :: replaceOrPush candidate entries

def set (b : Baggage) (key value : Bytes) : Baggage :=
  let replacesExisting := (b.get key).isSome
  if !isToken key || (!replacesExisting && kMaxEntries ≤ b.size) then b
  else
    let candidate := makeEntry key value []
    if kMaxEntryBytes < candidate.memberBytes then b
    else
      let entries := replaceOrPush candidate b.list
      if kMaxTotalBytes < serialisedSize entries then b else sealed entries

def erase (b : Baggage) (key : Bytes) : Baggage :=
  if !(b.get key).isSome then b else sealed (b.list.filter fun entry => entry.key ≠ key)

end Baggage

end Microtel.Api
