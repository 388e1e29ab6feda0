import Microtel.Concentrator.Resource
import Microtel.Lib.Machine

/-!
The samplers whose ratio can be retuned (`src/sdk/sampler_factories.cpp`,
`sampler_chains.cpp`, `sampler_description.hpp`) and `SdkProvider::SetSamplerRatio`.
A call walks the tree without a lock of its own: the update of a ratio sampler and the
publication of a description are the steps at which other calls may come between.
-/

namespace Microtel.Sdk.SamplerTree

open Concentrator

/-! ### Ratios -/

/-- The bits of a double that `SetSamplerRatio` accepts: a number in [0.0, 1.0], the
negative zero included. -/
def inUnit (bits : UInt64) : Bool := bits ≤ 0x3FF0000000000000 || bits = 0x8000000000000000

structure Ratio where
  bits : UInt64
  accepted : inUnit bits = true
  deriving DecidableEq

namespace Ratio

def isZero (r : Ratio) : Bool := r.bits = 0 || r.bits = 0x8000000000000000

/-- `==` on doubles. -/
def same (r r' : Ratio) : Bool := r.bits = r'.bits || (r.isZero && r'.isZero)

theorem same_refl (r : Ratio) : r.same r = true := by simp [same]

end Ratio

/-- The product with `static_cast<double>(UINT64_MAX)`, which is 2 to the 64, is exact:
the significand shifted by the exponent. -/
def computeThreshold (r : Ratio) : UInt64 :=
  if r.bits = 0x3FF0000000000000 then 0xFFFFFFFFFFFFFFFF
  else if r.isZero then 0
  else
    let exponent := r.bits.toNat / 2 ^ 52
    let fraction := r.bits.toNat % 2 ^ 52
    let scaled := if exponent = 0 then fraction * 2 else (2 ^ 52 + fraction) * 2 ^ exponent
    UInt64.ofNat (scaled / 2 ^ 1011)

/-- The description of a ratio sampler, with `format` for the three decimals. -/
def ratioDescription (format : Ratio → Bytes) (r : Ratio) : Bytes :=
  ascii "TraceIdRatioSampler\x7b" ++ format r ++ ascii "\x7d"

/-! ### The samplers -/

inductive ChainMode
  | firstMatch | allMustAgree
  deriving DecidableEq, Repr

/-- A sampler with all it owns; `id` is the object's address, and of an object that is
no composite and has no ratio only its description is known. -/
inductive Handle
  | null
  | traceIdRatio (id : Nat)
  | other (id : Nat) (description : Bytes)
  | parentBased (id : Nat) (root : Handle)
  | rule (id : Nat) (name predicate : Bytes) (onMatch onNoMatch : Handle)
  | chain (id : Nat) (mode : ChainMode) (children : List Handle)

def spanKindName : SpanKind → Bytes
  | .internal => ascii "Internal"
  | .server => ascii "Server"
  | .client => ascii "Client"
  | .producer => ascii "Producer"
  | .consumer => ascii "Consumer"

def chainModeName : ChainMode → Bytes
  | .firstMatch => ascii "FirstMatch"
  | .allMustAgree => ascii "AllMustAgree"

namespace Handle

def makeAttributeRuleSampler (id : Nat) (key : Bytes) (onMatch onNoMatch : Handle) : Handle :=
  .rule id (ascii "AttributeRuleSampler") (ascii "key=" ++ key) onMatch onNoMatch

def makeSpanNameRuleSampler (id : Nat) (name : Bytes) (onMatch onNoMatch : Handle) : Handle :=
  .rule id (ascii "SpanNameRuleSampler") (ascii "name=" ++ name) onMatch onNoMatch

def makeSpanKindRuleSampler (id : Nat) (kind : SpanKind) (onMatch onNoMatch : Handle) : Handle :=
  .rule id (ascii "SpanKindRuleSampler") (ascii "kind=" ++ spanKindName kind) onMatch onNoMatch

def isNull : Handle → Bool
  | .null => true
  | _ => false

/-- The address; an empty handle has none. -/
def id : Handle → Nat
  | .null => 0
  | .traceIdRatio id => id
  | .other id _ => id
  | .parentBased id _ => id
  | .rule id _ _ _ _ => id
  | .chain id _ _ => id

/-- Empty handles are discarded. -/
def buildChildren (children : List Handle) : List Handle := children.filter fun h => !h.isNull

mutual

/-- The objects of the tree, a composite before what it owns. -/
def nodes : Handle → List Handle
  | .null => []
  | .traceIdRatio id => [.traceIdRatio id]
  | .other id description => [.other id description]
  | .parentBased id root => .parentBased id root :: root.nodes
  | .rule id name predicate onMatch onNoMatch =>
      .rule id name predicate onMatch onNoMatch :: (onMatch.nodes ++ onNoMatch.nodes)
  | .chain id mode children => .chain id mode children :: nodesAll children

def nodesAll : List Handle → List Handle
  | [] => []
  | child :: children => child.nodes ++ nodesAll children

end

/-! ### Descriptions -/

/-- What a composite puts around the descriptions of its delegates; the other objects
do not compose. -/
def composeWith (descriptionOf : Handle → Bytes) : Handle → Bytes
  | .parentBased _ root => ascii "ParentBasedSampler\x7b" ++ descriptionOf root ++ ascii "\x7d"
  | .rule _ name predicate onMatch onNoMatch =>
      name ++ ascii "\x7b" ++ predicate ++ ascii ", match=" ++ descriptionOf onMatch ++
        ascii ", else=" ++ descriptionOf onNoMatch ++ ascii "\x7d"
  | .chain _ mode children =>
      ascii "ChainSampler\x7b" ++ chainModeName mode ++ ascii ", [" ++
        (ascii ", ").intercalate ((buildChildren children).map descriptionOf) ++ ascii "]\x7d"
  | _ => []

/-- `DescriptionOf`, given what each object's `Description()` returns. -/
def descriptionOf (descriptions : Nat → Bytes) (h : Handle) : Bytes :=
  if h.isNull then ascii "<null>" else descriptions h.id

def compose (descriptions : Nat → Bytes) (h : Handle) : Bytes :=
  composeWith (descriptionOf descriptions) h

def isComposite : Handle → Bool
  | .parentBased .. | .rule .. | .chain .. => true
  | _ => false

mutual

/-- The tree below a handle, rendered with these ratios in force. -/
def rendering (format : Ratio → Bytes) (ratios : Nat → Ratio) : Handle → Bytes
  | .null => ascii "<null>"
  | .traceIdRatio id => ratioDescription format (ratios id)
  | .other _ description => description
  | .parentBased _ root =>
      ascii "ParentBasedSampler\x7b" ++ root.rendering format ratios ++ ascii "\x7d"
  | .rule _ name predicate onMatch onNoMatch =>
      name ++ ascii "\x7b" ++ predicate ++ ascii ", match=" ++ onMatch.rendering format ratios ++
        ascii ", else=" ++ onNoMatch.rendering format ratios ++ ascii "\x7d"
  | .chain _ mode children =>
      ascii "ChainSampler\x7b" ++ chainModeName mode ++ ascii ", [" ++
        (ascii ", ").intercalate (renderings format ratios children) ++ ascii "]\x7d"

/-- The handles that are not empty. -/
def renderings (format : Ratio → Bytes) (ratios : Nat → Ratio) : List Handle → List Bytes
  | [] => []
  | child :: children =>
      if child.isNull then renderings format ratios children
      else child.rendering format ratios :: renderings format ratios children

end

end Handle

/-! ### `TrySetRatio` -/

/-- What one call does without another coming between: the locked update of a ratio
sampler, and the publication of a composite's description, composed under its lock. -/
inductive Step
  | update (id : Nat) (ratio : Ratio)
  | publish (h : Handle)

namespace Handle

mutual

/-- The steps of `TrySetRatio` in their order, and what it returns. -/
def trySetRatio (ratio : Ratio) : Handle → List Step × Bool
  | .null => ([], false)
  | .traceIdRatio id => ([.update id ratio], true)
  | .other _ _ => ([], false)
  | .parentBased id root =>
      let (steps, applied) := root.trySetRatio ratio
      if !applied then (steps, false) else (steps ++ [.publish (.parentBased id root)], true)
  | .rule id name predicate onMatch onNoMatch =>
      let (steps, applied) := onMatch.trySetRatio ratio
      let (steps', applied') := onNoMatch.trySetRatio ratio
      let applied := applied' || applied
      if !applied then (steps ++ steps', false)
      else (steps ++ steps' ++ [.publish (.rule id name predicate onMatch onNoMatch)], true)
  | .chain id mode children =>
      let (steps, applied) := tryDelegates ratio children
      if !applied then (steps, false) else (steps ++ [.publish (.chain id mode children)], true)

/-- The loop over the children of a chain. -/
def tryDelegates (ratio : Ratio) : List Handle → List Step × Bool
  | [] => ([], false)
  | child :: children =>
      let (steps, applied) := child.trySetRatio ratio
      let (steps', applied') := tryDelegates ratio children
      (steps ++ steps', applied' || applied)

end

end Handle

/-! ### Calls -/

/-- A `SetSamplerRatio` call: the ratio it accepted, the steps it has still to take, and
the status it returns after them. -/
structure Call where
  ratio : Option Ratio
  todo : List Step
  answer : Status

def setSamplerRatio (sampler : Handle) (shutDown : Bool) (bits : UInt64) : Call :=
  if shutDown then ⟨none, [], .alreadyShutDown⟩
  else if h : inUnit bits = true then
    match sampler.trySetRatio ⟨bits, h⟩ with
    | (steps, true) => ⟨some ⟨bits, h⟩, steps, .completed⟩
    | (steps, false) => ⟨some ⟨bits, h⟩, steps, .unsupported⟩
  else ⟨none, [], .invalidArgument⟩

/-- The samplers of a provider by address, and the calls. -/
structure Samplers where
  ratios : Nat → Ratio
  thresholds : Nat → UInt64
  descriptions : Nat → Bytes
  shutDown : Bool := false
  calls : List Call := []
  /-- Not in the source: the calls that updated a ratio sampler, in the order of their
  first update. -/
  arrivals : List Nat := []

namespace Samplers

/-- As the constructors leave them. -/
def start (format : Ratio → Bytes) (sampler : Handle) (ratios : Nat → Ratio) : Samplers where
  ratios := ratios
  thresholds id := computeThreshold (ratios id)
  descriptions id :=
    ((KeyedList.find Handle.id sampler.nodes id).map (Handle.rendering format ratios)).getD []

/-- `TraceIdRatioSampler::TrySetRatio`. -/
def update (format : Ratio → Bytes) (s : Samplers) (id : Nat) (ratio : Ratio) : Samplers :=
  if ratio.same (s.ratios id) then s
  else
    { s with
      ratios := Function.update s.ratios id ratio
      thresholds := Function.update s.thresholds id (computeThreshold ratio)
      descriptions := Function.update s.descriptions id (ratioDescription format ratio) }

/-- `Publish` of a composite. The children's descriptions, one atomic load each, are read in
the same step: a call that changes a child between the loads has its own publication of the
composite still to come, under the same lock. -/
def publish (s : Samplers) (h : Handle) : Samplers :=
  { s with descriptions := Function.update s.descriptions h.id (h.compose s.descriptions) }

/-- Call `k` takes a step. -/
def perform (format : Ratio → Bytes) (s : Samplers) (k : Nat) : Step → Samplers
  | .update id ratio =>
      { s.update format id ratio with
        arrivals := if k ∈ s.arrivals then s.arrivals else s.arrivals ++ [k] }
  | .publish h => s.publish h

end Samplers

inductive Action
  | call (bits : UInt64)
  | next (k : Nat)
  | shutDown
  deriving DecidableEq, Repr

def step (format : Ratio → Bytes) (sampler : Handle) (s : Samplers) : Action → Option Samplers
  | .call bits => some { s with calls := s.calls ++ [setSamplerRatio sampler s.shutDown bits] }
  | .next k =>
      match s.calls[k]? with
      | some ⟨ratio, first :: rest, answer⟩ =>
          some { s.perform format k first with calls := s.calls.set k ⟨ratio, rest, answer⟩ }
      | _ => none
  | .shutDown => some { s with shutDown := true }

end Microtel.Sdk.SamplerTree
