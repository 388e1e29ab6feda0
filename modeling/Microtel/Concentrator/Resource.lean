import Microtel.Api.Types
import Microtel.Lib.KeyedList

/-!
The pure parts of the leaf receiver (`src/sdk/leaf_resource.cpp`): the reserved
wire attributes, the hash of a declared Resource, and the merge of a leaf's
Resource under its budget. A `Resource` is its attribute list; sizes are
natural numbers, far below the range of `size_t`.
-/

namespace Microtel

abbrev Resource := List KeyValue

/-- `Resource::Merge`: `overriding` wins, and a key keeps its place. -/
def Resource.merge (base overriding : Resource) : Resource :=
  KeyedList.merge KeyValue.key base overriding

namespace Concentrator

/-- The bytes of an ASCII literal of the source. -/
def ascii (s : String) : Bytes := s.toList.map fun c => UInt8.ofNat c.toNat

inductive LeafTimeMode
  | concentratorStamped | syncRelative | bootRelative | unix
  deriving DecidableEq, Repr

def leafReservedPrefix : Bytes := ascii "microtel.leaf."

def protoKey : Bytes := ascii "microtel.leaf.proto"
def timeModeKey : Bytes := ascii "microtel.leaf.time_mode"
def encodeTimeKey : Bytes := ascii "microtel.leaf.encode_time"
def syncAgeKey : Bytes := ascii "microtel.leaf.sync_age"
def bootIdKey : Bytes := ascii "microtel.leaf.boot_id"
def droppedSpansKey : Bytes := ascii "microtel.leaf.dropped_spans"
def droppedItemsKey : Bytes := ascii "microtel.leaf.dropped_items"

def serviceNameKey : Bytes := ascii "service.name"
def unknownService : Bytes := ascii "unknown_service"

def leafProtoVersion : Int64 := 1
def maxLeafIdBytes : Nat := 128

/-- The width charged for one boolean, integer or double. -/
def scalarBytes : Nat := 8

def isReserved (key : Bytes) : Bool := leafReservedPrefix.isPrefixOf key

/-! ### The wire header -/

structure LeafWireInfo where
  proto : Option Int64 := none
  timeMode : Option Int64 := none
  encodeTime : Option Int64 := none
  syncAge : Option Int64 := none
  bootId : Option Int64 := none
  droppedSpans : Option Int64 := none
  droppedItems : Option Int64 := none
  wrongType : Bool := false
  declared : Bool := false
  deriving DecidableEq, Repr

/-- A reserved attribute that a slot is known for. -/
inductive Slot
  | proto | timeMode | encodeTime | syncAge | bootId | droppedSpans | droppedItems
  deriving DecidableEq, Repr

def slotFor (key : Bytes) : Option Slot :=
  [(protoKey, Slot.proto), (timeModeKey, .timeMode), (encodeTimeKey, .encodeTime),
    (syncAgeKey, .syncAge), (bootIdKey, .bootId), (droppedSpansKey, .droppedSpans),
    (droppedItemsKey, .droppedItems)].lookup key

def LeafWireInfo.fill (info : LeafWireInfo) (v : Int64) : Slot → LeafWireInfo
  | .proto => { info with proto := some v }
  | .timeMode => { info with timeMode := some v }
  | .encodeTime => { info with encodeTime := some v }
  | .syncAge => { info with syncAge := some v }
  | .bootId => { info with bootId := some v }
  | .droppedSpans => { info with droppedSpans := some v }
  | .droppedItems => { info with droppedItems := some v }

/-- What one attribute adds to the wire header. -/
def LeafWireInfo.read (info : LeafWireInfo) (kv : KeyValue) : LeafWireInfo :=
  if !isReserved kv.key then info
  else
    let info := { info with declared := true }
    match slotFor kv.key with
    | none => info
    | some slot =>
        match kv.value with
        | .int v => info.fill v slot
        | _ => { info with wrongType := true }

def readWireInfo (resource : List KeyValue) : LeafWireInfo :=
  resource.foldl LeafWireInfo.read {}

/-- The time mode of a payload whose reserved attributes pass the checks. -/
def checkWireInfo (info : LeafWireInfo) : Option LeafTimeMode :=
  if !info.declared then some .unix
  else if info.wrongType ∨ info.proto ≠ some leafProtoVersion then none
  else
    match info.timeMode with
    | none => none
    | some mode =>
        if mode = 0 then some .concentratorStamped
        else if mode = 1 then
          if info.encodeTime.isNone ∨ info.syncAge.isNone then none else some .syncRelative
        else if mode = 2 then
          if info.encodeTime.isNone ∨ info.bootId.isNone then none else some .bootRelative
        else none

def timeModeAllowed (declared : LeafTimeMode) (configured : Option LeafTimeMode) : Bool :=
  if declared = .unix then configured = some .unix
  else configured.isNone || configured = some declared || declared = .concentratorStamped

/-! ### The hash of a declared Resource -/

namespace Fnv

def offset : UInt64 := 14695981039346656037
def prime : UInt64 := 1099511628211

def addBytes (hash : UInt64) (data : Bytes) : UInt64 :=
  data.foldl (fun h byte => (h ^^^ byte.toUInt64) * prime) hash

/-- The object representation of a 64-bit word, least significant byte first. -/
def wordBytes (w : UInt64) : Bytes :=
  (List.range 8).map fun i => (w >>> (8 * UInt64.ofNat i)).toUInt8

def addWord (hash w : UInt64) : UInt64 := addBytes hash (wordBytes w)

def addBool (hash : UInt64) (b : Bool) : UInt64 := addBytes hash [if b then 1 else 0]

/-- A string: its size, then its bytes. -/
def addString (hash : UInt64) (s : Bytes) : UInt64 :=
  addBytes (addWord hash (UInt64.ofNat s.length)) s

/-- An array: its size, then its elements. -/
def addElements {α : Type} (add : UInt64 → α → UInt64) (hash : UInt64) (values : List α) : UInt64 :=
  values.foldl add (addWord hash (UInt64.ofNat values.length))

def hashValue (hash : UInt64) : AttributeValue → UInt64
  | .bool b => addBool (addWord hash 0) b
  | .int i => addWord (addWord hash 1) i.toUInt64
  | .double d => addWord (addWord hash 2) d
  | .string s => addString (addWord hash 3) s
  | .bools v => addElements addBool (addWord hash 4) v
  | .ints v => addElements (fun h i => addWord h i.toUInt64) (addWord hash 5) v
  | .doubles v => addElements addWord (addWord hash 6) v
  | .strings v => addElements addString (addWord hash 7) v

end Fnv

def hashDeclaredResource (resource : List KeyValue) : UInt64 :=
  resource.foldl (fun hash kv =>
    if isReserved kv.key then hash else Fnv.hashValue (Fnv.addString hash kv.key) kv.value)
    Fnv.offset

/-! ### The Resource budget -/

def valueBytes : AttributeValue → Nat
  | .string s => s.length
  | .strings v => (v.map List.length).sum
  | .bools v => v.length * scalarBytes
  | .ints v => v.length * scalarBytes
  | .doubles v => v.length * scalarBytes
  | .bool _ | .int _ | .double _ => scalarBytes

def attributeBytes (kv : KeyValue) : Nat := kv.key.length + valueBytes kv.value

/-- Running byte cost of a Resource under construction, key by key. -/
structure Budget where
  values : List (Bytes × Nat) := []
  total : Nat := 0

namespace Budget

/-- What the total would be with the key set to a value of this size. -/
def totalWith (b : Budget) (key : Bytes) (size : Nat) : Nat :=
  match KeyedList.find Prod.fst b.values key with
  | none => b.total + key.length + size
  | some old => b.total - old.2 + size

def set (b : Budget) (key : Bytes) (size : Nat) : Budget where
  values := KeyedList.put Prod.fst b.values (key, size)
  total := b.totalWith key size

def has (b : Budget) (key : Bytes) : Bool := (KeyedList.find Prod.fst b.values key).isSome

end Budget

def layer (key value : Bytes) : Resource := [⟨key, .string value⟩]

def names (resource : Resource) (key : Bytes) : Bool :=
  (KeyedList.find KeyValue.key resource key).isSome

/-- The layers of a leaf's Resource, lowest precedence first; a null layer is
the empty one. -/
structure LeafResourceLayers where
  defaults : List KeyValue
  declared : List KeyValue
  configured : List KeyValue
  idKey : Bytes
  leafId : Bytes
  budget : Nat

/-- Charges every layer but the leaf's own, and returns the keys a layer above
the leaf's pins. -/
def chargeFixedLayers (layers : LeafResourceLayers) (budget : Budget) : Budget × List Bytes :=
  let charge := fun (b : Budget) (kv : KeyValue) => b.set kv.key (valueBytes kv.value)
  let budget := layers.defaults.foldl charge budget
  let budget := layers.configured.foldl charge budget
  let pinned := layers.configured.map KeyValue.key
  let (budget, pinned) :=
    if !layers.idKey.isEmpty then
      (budget.set layers.idKey layers.leafId.length, layers.idKey :: pinned)
    else (budget, pinned)
  let budget :=
    if !budget.has serviceNameKey then budget.set serviceNameKey unknownService.length else budget
  (budget, pinned)

/-- The loop state of `AdmitDeclared`. -/
structure Admission where
  budget : Budget
  admitted : List KeyValue := []
  dropped : UInt64 := 0

def Admission.take (limit : Nat) (pinned : List Bytes) (a : Admission) (kv : KeyValue) :
    Admission :=
  if isReserved kv.key || pinned.contains kv.key then a
  else if limit < a.budget.totalWith kv.key (valueBytes kv.value) then
    { a with dropped := a.dropped + 1 }
  else
    { a with
      budget := a.budget.set kv.key (valueBytes kv.value)
      admitted := a.admitted ++ [kv] }

/-- The leaf-declared attributes that fit, in payload order. -/
def admitDeclared (layers : LeafResourceLayers) (pinned : List Bytes) (budget : Budget) :
    Admission :=
  layers.declared.foldl (Admission.take layers.budget pinned) { budget }

/-- The loop state of `MergeResolverResource`. -/
structure ResolverMerge where
  budget : Budget
  configured : List KeyValue
  dropped : UInt64 := 0

def ResolverMerge.take (fixed : LeafResourceLayers) (m : ResolverMerge) (kv : KeyValue) :
    ResolverMerge :=
  if isReserved kv.key || (!fixed.idKey.isEmpty && kv.key = fixed.idKey) then m
  else if fixed.budget < m.budget.totalWith kv.key (valueBytes kv.value) then
    { m with dropped := m.dropped + 1 }
  else
    { m with
      configured := KeyedList.put KeyValue.key m.configured kv
      budget := m.budget.set kv.key (valueBytes kv.value) }

/-- Merges a resolver's Resource over the static configured one; returns how
many answer keys the budget cost. -/
def mergeResolverResource (configured answer : List KeyValue) (fixed : LeafResourceLayers) :
    List KeyValue × UInt64 :=
  let budget := (chargeFixedLayers { fixed with declared := [], configured } {}).1
  let m := answer.foldl (ResolverMerge.take fixed) { budget, configured }
  (m.configured, m.dropped)

structure ResolvedLeafResource where
  resource : Resource
  attributesDropped : UInt64
  deriving DecidableEq

def resolveLeafResource (layers : LeafResourceLayers) : ResolvedLeafResource :=
  let (budget, pinned) := chargeFixedLayers layers {}
  let admission := admitDeclared layers pinned budget
  let merged := Resource.merge layers.defaults admission.admitted
  let merged := Resource.merge merged layers.configured
  let merged :=
    if !layers.idKey.isEmpty then Resource.merge merged (layer layers.idKey layers.leafId)
    else merged
  let merged :=
    if !names merged serviceNameKey then Resource.merge merged (layer serviceNameKey unknownService)
    else merged
  ⟨merged, admission.dropped⟩

end Concentrator

end Microtel
