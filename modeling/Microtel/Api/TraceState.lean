import Microtel.Api.Types
import Microtel.Lib.Delimited

/-!
`TraceState` (`src/api/trace_state.cpp`). The shared entry list is an `Option`:
the null pointer is the empty state.
-/

namespace Microtel.Api

open Delimited

namespace TraceState

/-- The comma. -/
def kListSeparator : UInt8 := 0x2C
/-- The equals sign. -/
def kKeyValueSeparator : UInt8 := 0x3D
/-- The at sign. -/
def kTenantSeparator : UInt8 := 0x40

def kMaxSimpleKeyChars : Nat := 256
def kMaxTenantIdChars : Nat := 241
def kMaxSystemIdChars : Nat := 14
def kMaxValueChars : Nat := 256
def kValueLowestChar : UInt8 := 0x20
def kValueHighestChar : UInt8 := 0x7E
def kMaxEntries : Nat := 32

/-! ### Characters -/

def isLowerAlpha (c : UInt8) : Bool := 0x61 ≤ c && c ≤ 0x7A

def isDigit (c : UInt8) : Bool := 0x30 ≤ c && c ≤ 0x39

/-- A character legal after the first: a lower-case letter, a digit or one of
`_`, `-`, `*`, `/`. -/
def isKeyTailChar (c : UInt8) : Bool :=
  isLowerAlpha c || isDigit c || c = 0x5F || c = 0x2D || c = 0x2A || c = 0x2F

/-- Space and tab. -/
def isOptionalWhitespace (c : UInt8) : Bool := c = 0x20 || c = 0x09

def isValueChar (c : UInt8) : Bool :=
  (kValueLowestChar ≤ c && c ≤ kValueHighestChar) && c ≠ kListSeparator && c ≠ kKeyValueSeparator

/-! ### Keys and values -/

/-- Of a component that is not empty. -/
def hasValidKeyTail (component : Bytes) : Bool := component.tail.all isKeyTailChar

def isLowerAlphaLedComponent (component : Bytes) (maxChars : Nat) : Bool :=
  if component = [] ∨ maxChars < component.length then false
  else component.head?.any isLowerAlpha && hasValidKeyTail component

def isTenantId (component : Bytes) : Bool :=
  if component = [] ∨ kMaxTenantIdChars < component.length then false
  else component.head?.any (fun first => isLowerAlpha first || isDigit first) &&
    hasValidKeyTail component

def isValidKey (key : Bytes) : Bool :=
  match cut kTenantSeparator key with
  | (_, none) => isLowerAlphaLedComponent key kMaxSimpleKeyChars
  | (tenant, some system) =>
      isTenantId tenant && isLowerAlphaLedComponent system kMaxSystemIdChars

def isValidValue (value : Bytes) : Bool :=
  if value = [] ∨ kMaxValueChars < value.length then false
  else if value.getLast? = some kValueLowestChar then false
  else value.all isValueChar

def trimOptionalWhitespace (member : Bytes) : Bytes := trim isOptionalWhitespace member

structure Entry where
  key : Bytes
  value : Bytes
  deriving DecidableEq, Repr

/-! ### Headers -/

def contains (entries : List Entry) (key : Bytes) : Bool := entries.any fun entry => entry.key = key

def parseMember (member : Bytes) : Option Entry :=
  match cut kKeyValueSeparator member with
  | (_, none) => none
  | (key, some value) =>
      if !isValidKey key || !isValidValue value then none else some { key, value }

/-- `ParseMembers`, over the pieces between the commas; `none` is its `false`. -/
def parseMembers : List Bytes → List Entry → Option (List Entry)
  | [], entries => some entries
  | piece :: pieces, entries =>
      let member := trimOptionalWhitespace piece
      if member = [] then parseMembers pieces entries
      else if entries.length = kMaxEntries then none
      else
        match parseMember member with
        | none => none
        | some entry =>
            if contains entries entry.key then none else parseMembers pieces (entries ++ [entry])

end TraceState

structure TraceState where
  entries : Option (List TraceState.Entry) := none
  deriving DecidableEq, Repr

namespace TraceState

def fromHeader (header : Bytes) : TraceState :=
  match parseMembers (header.splitOn kListSeparator) [] with
  | none => {}
  | some entries => if entries = [] then {} else { entries := some entries }

/-- One round of the loop in `ToHeader`. -/
def appendMember (header : Bytes) (entry : Entry) : Bytes :=
  (if header = [] then header else header ++ [kListSeparator]) ++
    entry.key ++ [kKeyValueSeparator] ++ entry.value

def toHeader (s : TraceState) : Bytes :=
  match s.entries with
  | none => []
  | some entries => entries.foldl appendMember []

/-- The entries, none for the null pointer. -/
def list (s : TraceState) : List Entry := s.entries.getD []

def size (s : TraceState) : Nat := s.list.length

def empty (s : TraceState) : Bool := s.size = 0

def get (s : TraceState) (key : Bytes) : Option Bytes :=
  (s.list.find? fun entry => entry.key = key).map Entry.value

def appendExcept (source : TraceState) (key : Bytes) (destination : List Entry) : List Entry :=
  destination ++ source.list.filter fun entry => entry.key ≠ key

def set (s : TraceState) (key value : Bytes) : TraceState :=
  let replacesExisting := (s.get key).isSome
  let wouldOverflow := !replacesExisting && kMaxEntries ≤ s.size
  if !isValidKey key || !isValidValue value || wouldOverflow then s
  else { entries := some (s.appendExcept key [{ key, value }]) }

def erase (s : TraceState) (key : Bytes) : TraceState :=
  if !(s.get key).isSome then s
  else if s.size = 1 then {}
  else { entries := some (s.appendExcept key []) }

end TraceState

end Microtel.Api
