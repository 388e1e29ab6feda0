import Microtel.Metrics.AttributeSet
import Microtel.Sdk.Sampling
import Microtel.Sdk.SamplerTree

/-!
What the samplers decide (`src/sdk/sampler_factories.cpp`, `sampler_chains.cpp`), and
what `TrySetRatio` leaves of a tree of them when no other call comes between. Ratios
are compared by `==`, which is equality here; the threshold of a ratio and its three
decimals are functions of it.
-/

namespace Microtel.Sdk.SamplerDecisions

open Concentrator (ascii)
open Concentrator.Receiver (SamplingResult)
open SamplerTree (ChainMode chainModeName spanKindName)

/-- What is computed from a ratio. -/
structure RatioFunctions (R : Type) where
  computeThreshold : R → UInt64
  decimals : R → Bytes

/-! ### The objects -/

/-- A sampler as it is in memory, with the description in its slot. Of a sampler from
elsewhere its decisions and its description are known; it has no ratio. -/
inductive SamplerObject (R : Type)
  | null
  | other (sample : Sampler) (description : Bytes)
  | traceIdRatio (ratio : R) (threshold : UInt64) (description : Bytes)
  | parentBased (root : SamplerObject R) (description : Bytes)
  | rule (name predicate : Bytes) (holds : SamplingContext → Bool)
      (onMatch onNoMatch : SamplerObject R) (description : Bytes)
  | chain (mode : ChainMode) (children : List (SamplerObject R)) (description : Bytes)

def dropResult : SamplingResult := { decision := .drop }

/-- The last eight bytes of the trace id, the first of them the highest. -/
def readLowerBE64 (traceId : TraceId) : UInt64 :=
  (traceId.bytes.toList.drop 8).foldl (fun v byte => (v <<< 8) ||| byte.toUInt64) 0

def ratioSample (threshold : UInt64) : Sampler := fun ctx =>
  if threshold = 0xFFFFFFFFFFFFFFFF then { decision := .recordAndSample }
  else if readLowerBE64 ctx.traceId < threshold then { decision := .recordAndSample }
  else { decision := .drop }

namespace SamplerObject

variable {R : Type}

def isNull : SamplerObject R → Bool
  | .null => true
  | _ => false

/-- `Description()`, and what `DescriptionOf` answers for an empty handle. -/
def description : SamplerObject R → Bytes
  | .null => ascii "<null>"
  | .other _ description => description
  | .traceIdRatio _ _ description => description
  | .parentBased _ description => description
  | .rule _ _ _ _ _ description => description
  | .chain _ _ description => description

/-- What a chain tests before it asks a child: the predicate of a rule, nothing of any
other sampler. -/
def admits (ctx : SamplingContext) : SamplerObject R → Bool
  | .rule _ _ holds _ _ _ => holds ctx
  | _ => true

mutual

/-- `ShouldSample`; an empty handle answers as a rule does for it. The root of a
parent-based sampler is called without a test. -/
def shouldSample (ctx : SamplingContext) : SamplerObject R → SamplingResult
  | .null => dropResult
  | .other sample _ => sample ctx
  | .traceIdRatio _ threshold _ => ratioSample threshold ctx
  | .parentBased root _ =>
      if ctx.parent.isValid && isSampledFlag ctx.parent then { decision := .recordAndSample }
      else root.shouldSample ctx
  | .rule _ _ holds onMatch onNoMatch _ =>
      if holds ctx then onMatch.shouldSample ctx else onNoMatch.shouldSample ctx
  | .chain .firstMatch children _ => (evaluateFirstMatch ctx children).1
  | .chain .allMustAgree children _ => evaluateAllMustAgree ctx dropResult children

/-- `EvaluateFirstMatch`, with the number of children it came to. -/
def evaluateFirstMatch (ctx : SamplingContext) : List (SamplerObject R) → SamplingResult × Nat
  | [] => (dropResult, 0)
  | child :: children =>
      if child.admits ctx then (child.shouldSample ctx, 1)
      else
        let (result, visited) := evaluateFirstMatch ctx children
        (result, visited + 1)

/-- `EvaluateAllMustAgree` from the result it has reached. -/
def evaluateAllMustAgree (ctx : SamplingContext) (result : SamplingResult) :
    List (SamplerObject R) → SamplingResult
  | [] => result
  | child :: children =>
      let result := child.shouldSample ctx
      if result.decision ≠ .recordAndSample then dropResult
      else evaluateAllMustAgree ctx result children

end

/-! ### The factories -/

def ratioDescription (f : RatioFunctions R) (ratio : R) : Bytes :=
  ascii "TraceIdRatioSampler\x7b" ++ f.decimals ratio ++ ascii "\x7d"

def composeParentBased (root : SamplerObject R) : Bytes :=
  ascii "ParentBasedSampler\x7b" ++ root.description ++ ascii "\x7d"

def composeRule (name predicate : Bytes) (onMatch onNoMatch : SamplerObject R) : Bytes :=
  name ++ ascii "\x7b" ++ predicate ++ ascii ", match=" ++ onMatch.description ++
    ascii ", else=" ++ onNoMatch.description ++ ascii "\x7d"

/-- Empty handles are discarded. -/
def buildChildren (children : List (SamplerObject R)) : List (SamplerObject R) :=
  children.filter fun child => !child.isNull

def composeChain (mode : ChainMode) (children : List (SamplerObject R)) : Bytes :=
  ascii "ChainSampler\x7b" ++ chainModeName mode ++ ascii ", [" ++
    (ascii ", ").intercalate (children.map description) ++ ascii "]\x7d"

def makeAlwaysOnSampler : SamplerObject R :=
  .other (fun _ => { decision := .recordAndSample }) (ascii "AlwaysOnSampler")

def makeAlwaysOffSampler : SamplerObject R :=
  .other (fun _ => dropResult) (ascii "AlwaysOffSampler")

def makeTraceIdRatioSampler (f : RatioFunctions R) (ratio : R) : SamplerObject R :=
  .traceIdRatio ratio (f.computeThreshold ratio) (ratioDescription f ratio)

def makeParentBasedSampler (root : SamplerObject R) : SamplerObject R :=
  .parentBased root (composeParentBased root)

def makeRuleSampler (name predicate : Bytes) (holds : SamplingContext → Bool)
    (onMatch onNoMatch : SamplerObject R) : SamplerObject R :=
  .rule name predicate holds onMatch onNoMatch (composeRule name predicate onMatch onNoMatch)

/-- The first attribute with the key decides. -/
def attributeHolds (key : Bytes) (expectedValue : AttributeValue) (ctx : SamplingContext) : Bool :=
  match ctx.initialAttributes.find? fun kv => kv.key = key with
  | none => false
  | some found => Metrics.valueEqual found.value expectedValue

def makeAttributeRuleSampler (key : Bytes) (expectedValue : AttributeValue)
    (onMatch onNoMatch : SamplerObject R) : SamplerObject R :=
  makeRuleSampler (ascii "AttributeRuleSampler") (ascii "key=" ++ key)
    (attributeHolds key expectedValue) onMatch onNoMatch

def makeSpanNameRuleSampler (name : Bytes) (onMatch onNoMatch : SamplerObject R) :
    SamplerObject R :=
  makeRuleSampler (ascii "SpanNameRuleSampler") (ascii "name=" ++ name)
    (fun ctx => ctx.spanName = name) onMatch onNoMatch

def makeSpanKindRuleSampler (kind : SpanKind) (onMatch onNoMatch : SamplerObject R) :
    SamplerObject R :=
  makeRuleSampler (ascii "SpanKindRuleSampler") (ascii "kind=" ++ spanKindName kind)
    (fun ctx => ctx.spanKind = kind) onMatch onNoMatch

def makeChainSampler (children : List (SamplerObject R)) (mode : ChainMode) : SamplerObject R :=
  .chain mode (buildChildren children) (composeChain mode (buildChildren children))

/-! ### `TrySetRatio` -/

variable [DecidableEq R]

mutual

def trySetRatio (f : RatioFunctions R) (r : R) : SamplerObject R → SamplerObject R × Bool
  | .null => (.null, false)
  | .other sample description => (.other sample description, false)
  | .traceIdRatio ratio threshold description =>
      if r = ratio then (.traceIdRatio ratio threshold description, true)
      else (.traceIdRatio r (f.computeThreshold r) (ratioDescription f r), true)
  | .parentBased root description =>
      let (root, applied) := root.trySetRatio f r
      if !applied then (.parentBased root description, false)
      else (.parentBased root (composeParentBased root), true)
  | .rule name predicate holds onMatch onNoMatch description =>
      let (onMatch, applied) := onMatch.trySetRatio f r
      let (onNoMatch, applied') := onNoMatch.trySetRatio f r
      let applied := applied' || applied
      if !applied then (.rule name predicate holds onMatch onNoMatch description, false)
      else
        (.rule name predicate holds onMatch onNoMatch
          (composeRule name predicate onMatch onNoMatch), true)
  | .chain mode children description =>
      let (children, applied) := tryDelegates f r children
      if !applied then (.chain mode children description, false)
      else (.chain mode children (composeChain mode children), true)

/-- The loop over the children of a chain. -/
def tryDelegates (f : RatioFunctions R) (r : R) :
    List (SamplerObject R) → List (SamplerObject R) × Bool
  | [] => ([], false)
  | child :: children =>
      let (child, applied) := child.trySetRatio f r
      let (children, applied') := tryDelegates f r children
      (child :: children, applied' || applied)

end

end SamplerObject

/-! ### Plans -/

/-- What a tree is built of. -/
inductive SamplerPlan (R : Type)
  | null
  | other (sample : Sampler) (description : Bytes)
  | traceIdRatio (ratio : R)
  | parentBased (root : SamplerPlan R)
  | rule (name predicate : Bytes) (holds : SamplingContext → Bool)
      (onMatch onNoMatch : SamplerPlan R)
  | chain (mode : ChainMode) (children : List (SamplerPlan R))

namespace SamplerPlan

variable {R : Type}

mutual

/-- The tree the factories make of it. -/
def build (f : RatioFunctions R) : SamplerPlan R → SamplerObject R
  | .null => .null
  | .other sample description => .other sample description
  | .traceIdRatio ratio => .makeTraceIdRatioSampler f ratio
  | .parentBased root => .makeParentBasedSampler (root.build f)
  | .rule name predicate holds onMatch onNoMatch =>
      .makeRuleSampler name predicate holds (onMatch.build f) (onNoMatch.build f)
  | .chain mode children => .makeChainSampler (buildAll f children) mode

def buildAll (f : RatioFunctions R) : List (SamplerPlan R) → List (SamplerObject R)
  | [] => []
  | child :: children => child.build f :: buildAll f children

end

mutual

/-- The plan with `r` in every ratio sampler. -/
def withRatio (r : R) : SamplerPlan R → SamplerPlan R
  | .null => .null
  | .other sample description => .other sample description
  | .traceIdRatio _ => .traceIdRatio r
  | .parentBased root => .parentBased (root.withRatio r)
  | .rule name predicate holds onMatch onNoMatch =>
      .rule name predicate holds (onMatch.withRatio r) (onNoMatch.withRatio r)
  | .chain mode children => .chain mode (withRatioAll r children)

def withRatioAll (r : R) : List (SamplerPlan R) → List (SamplerPlan R)
  | [] => []
  | child :: children => child.withRatio r :: withRatioAll r children

end

mutual

/-- The ratios of its ratio samplers. -/
def ratios : SamplerPlan R → List R
  | .null => []
  | .other _ _ => []
  | .traceIdRatio ratio => [ratio]
  | .parentBased root => root.ratios
  | .rule _ _ _ onMatch onNoMatch => onMatch.ratios ++ onNoMatch.ratios
  | .chain _ children => ratiosAll children

def ratiosAll : List (SamplerPlan R) → List R
  | [] => []
  | child :: children => child.ratios ++ ratiosAll children

end

section WithRatio

variable (r : R)

mutual

theorem ratios_withRatio (t : SamplerPlan R) :
    (t.withRatio r).ratios = t.ratios.map fun _ => r := by
  cases t with
  | null => rfl
  | other sample description => rfl
  | traceIdRatio ratio => rfl
  | parentBased root => exact ratios_withRatio root
  | rule name predicate holds onMatch onNoMatch =>
      rw [withRatio, ratios, ratios, ratios_withRatio onMatch, ratios_withRatio onNoMatch,
        List.map_append]
  | chain mode children => exact ratiosAll_withRatioAll children

theorem ratiosAll_withRatioAll (children : List (SamplerPlan R)) :
    ratiosAll (withRatioAll r children) = (ratiosAll children).map fun _ => r := by
  cases children with
  | nil => rfl
  | cons child children =>
      rw [withRatioAll, ratiosAll, ratiosAll, ratios_withRatio child,
        ratiosAll_withRatioAll children, List.map_append]

end

mutual

theorem withRatio_withRatio (earlier : R) (t : SamplerPlan R) :
    (t.withRatio earlier).withRatio r = t.withRatio r := by
  cases t with
  | null => rfl
  | other sample description => rfl
  | traceIdRatio ratio => rfl
  | parentBased root => rw [withRatio, withRatio, withRatio, withRatio_withRatio earlier root]
  | rule name predicate holds onMatch onNoMatch =>
      rw [withRatio, withRatio, withRatio, withRatio_withRatio earlier onMatch,
        withRatio_withRatio earlier onNoMatch]
  | chain mode children =>
      rw [withRatio, withRatio, withRatio, withRatioAll_withRatioAll earlier children]

theorem withRatioAll_withRatioAll (earlier : R) (children : List (SamplerPlan R)) :
    withRatioAll r (withRatioAll earlier children) = withRatioAll r children := by
  cases children with
  | nil => rfl
  | cons child children =>
      rw [withRatioAll, withRatioAll, withRatioAll, withRatio_withRatio earlier child,
        withRatioAll_withRatioAll earlier children]

end

mutual

theorem withRatio_of_none (t : SamplerPlan R) (hnone : t.ratios = []) : t.withRatio r = t := by
  cases t with
  | null => rfl
  | other sample description => rfl
  | traceIdRatio ratio => cases hnone
  | parentBased root =>
      rw [withRatio, withRatio_of_none root hnone]
  | rule name predicate holds onMatch onNoMatch =>
      obtain ⟨hmatch, hno⟩ := List.append_eq_nil_iff.mp hnone
      rw [withRatio, withRatio_of_none onMatch hmatch, withRatio_of_none onNoMatch hno]
  | chain mode children =>
      rw [withRatio, withRatioAll_of_none children hnone]

theorem withRatioAll_of_none (children : List (SamplerPlan R)) (hnone : ratiosAll children = []) :
    withRatioAll r children = children := by
  cases children with
  | nil => rfl
  | cons child children =>
      obtain ⟨hchild, hrest⟩ := List.append_eq_nil_iff.mp hnone
      rw [withRatioAll, withRatio_of_none child hchild, withRatioAll_of_none children hrest]

end

end WithRatio

/-- Whether there is a ratio to set. -/
def hasRatio (t : SamplerPlan R) : Bool := !t.ratios.isEmpty

theorem hasRatio_eq_false {t : SamplerPlan R} : t.hasRatio = false ↔ t.ratios = [] := by
  simp [hasRatio]

/-- Success on either side is success of the whole. -/
theorem applied_append (l l' : List R) : (!(l ++ l').isEmpty) = (!l'.isEmpty || !l.isEmpty) := by
  cases l with
  | nil => exact (Bool.or_false _).symm
  | cons a l => exact (Bool.or_true _).symm

theorem isNull_withRatio (f : RatioFunctions R) (r : R) (t : SamplerPlan R) :
    ((t.withRatio r).build f).isNull = (t.build f).isNull := by
  cases t with
  | _ => rfl

variable [DecidableEq R] (f : RatioFunctions R) (r : R)

mutual

/-- Every sampler of the tree is left as it would be built, whichever of them have a
ratio: the forwarding stops nowhere. -/
theorem trySetRatio_build (t : SamplerPlan R) :
    (t.build f).trySetRatio f r = ((t.withRatio r).build f, t.hasRatio) := by
  cases t with
  | null => rfl
  | other sample description => rfl
  | traceIdRatio ratio =>
      unfold build SamplerObject.makeTraceIdRatioSampler SamplerObject.trySetRatio
      by_cases hsame : r = ratio
      · rw [if_pos hsame, ← hsame]
        rfl
      · rw [if_neg hsame]
        rfl
  | parentBased root =>
      have hroot := trySetRatio_build root
      unfold build SamplerObject.makeParentBasedSampler SamplerObject.trySetRatio
      rw [hroot]
      cases hhas : root.hasRatio with
      | true =>
          refine Prod.ext rfl ?_
          exact hhas.symm
      | false =>
          have hnone := withRatio_of_none r root (hasRatio_eq_false.mp hhas)
          refine Prod.ext ?_ hhas.symm
          dsimp only
          rw [withRatio, hnone]
          rfl
  | rule name predicate holds onMatch onNoMatch =>
      have hmatch := trySetRatio_build onMatch
      have hno := trySetRatio_build onNoMatch
      have hhas : (SamplerPlan.rule name predicate holds onMatch onNoMatch).hasRatio =
          (onNoMatch.hasRatio || onMatch.hasRatio) :=
        applied_append onMatch.ratios onNoMatch.ratios
      unfold build SamplerObject.makeRuleSampler SamplerObject.trySetRatio
      rw [hmatch, hno, hhas]
      cases happlied : onNoMatch.hasRatio || onMatch.hasRatio with
      | true =>
          refine Prod.ext ?_ ?_
          · simp only [happlied]
            rfl
          · simp only [happlied]
            rfl
      | false =>
          obtain ⟨hnone', hnone⟩ := Bool.or_eq_false_iff.mp happlied
          have hkept := withRatio_of_none r onMatch (hasRatio_eq_false.mp hnone)
          have hkept' := withRatio_of_none r onNoMatch (hasRatio_eq_false.mp hnone')
          rw [withRatio, hkept, hkept']
          refine Prod.ext ?_ ?_
          · simp only [happlied]
            rfl
          · simp only [happlied]
            rfl
  | chain mode children =>
      have hchildren := tryDelegates_build children
      unfold build SamplerObject.makeChainSampler SamplerObject.trySetRatio
      rw [hchildren]
      cases hhas : (SamplerPlan.chain mode children).hasRatio with
      | true =>
          have happlied : (!(ratiosAll children).isEmpty) = true := hhas
          simp only [happlied]
          rfl
      | false =>
          have happlied : (!(ratiosAll children).isEmpty) = false := hhas
          have hkept := withRatioAll_of_none r children (hasRatio_eq_false.mp hhas)
          rw [withRatio, hkept]
          simp only [happlied]
          rfl

theorem tryDelegates_build (children : List (SamplerPlan R)) :
    SamplerObject.tryDelegates f r (SamplerObject.buildChildren (buildAll f children)) =
      (SamplerObject.buildChildren (buildAll f (withRatioAll r children)),
        !(ratiosAll children).isEmpty) := by
  cases children with
  | nil => rfl
  | cons child children =>
      have hchild := trySetRatio_build child
      have hrest := tryDelegates_build children
      unfold SamplerObject.buildChildren at hrest ⊢
      rw [buildAll, withRatioAll, buildAll, ratiosAll]
      cases hnull : (child.build f).isNull with
      | true =>
          have hnull' : ((child.withRatio r).build f).isNull = true := by
            rw [isNull_withRatio, hnull]
          have hnone : child.ratios = [] := by
            cases child with
            | null => rfl
            | _ => cases hnull
          rw [List.filter_cons_of_neg (by simp [hnull]), List.filter_cons_of_neg (by simp [hnull']),
            hrest, hnone, List.nil_append]
      | false =>
          have hnull' : ((child.withRatio r).build f).isNull = false := by
            rw [isNull_withRatio, hnull]
          rw [List.filter_cons_of_pos (by simp [hnull]), List.filter_cons_of_pos (by simp [hnull']),
            SamplerObject.tryDelegates, hchild, hrest]
          exact Prod.ext rfl (applied_append child.ratios (ratiosAll children)).symm

end

/-- The plan after these retunes. -/
def retuned (t : SamplerPlan R) (earlier : List R) : SamplerPlan R :=
  earlier.foldl (fun t r => t.withRatio r) t

omit [DecidableEq R] in
theorem withRatio_retuned (t : SamplerPlan R) (earlier : List R) :
    (t.retuned earlier).withRatio r = t.withRatio r := by
  induction earlier generalizing t with
  | nil => rfl
  | cons first earlier ih => exact (ih (t.withRatio first)).trans (withRatio_withRatio r first t)

omit [DecidableEq R] in
theorem hasRatio_retuned (t : SamplerPlan R) (earlier : List R) :
    (t.retuned earlier).hasRatio = t.hasRatio := by
  induction earlier generalizing t with
  | nil => rfl
  | cons first earlier ih =>
      refine (ih (t.withRatio first)).trans ?_
      rw [hasRatio, hasRatio, ratios_withRatio, List.isEmpty_map]

end SamplerPlan

/-! ### Runs of retunes -/

variable {R : Type} [DecidableEq R]

/-- The object after these calls of `TrySetRatio`. -/
def retuned (f : RatioFunctions R) (object : SamplerObject R) (earlier : List R) :
    SamplerObject R :=
  earlier.foldl (fun object r => (object.trySetRatio f r).1) object

theorem retuned_build (f : RatioFunctions R) (t : SamplerPlan R) (earlier : List R) :
    retuned f (t.build f) earlier = (t.retuned earlier).build f := by
  induction earlier generalizing t with
  | nil => rfl
  | cons first earlier ih =>
      rw [retuned, List.foldl_cons, SamplerPlan.trySetRatio_build f first t]
      exact ih (t.withRatio first)

/-- One more call on a tree that was built and retuned: it is as if built with the new
ratio, or there was no ratio to set. -/
structure RetunesAsRebuilt (f : RatioFunctions R) (t : SamplerPlan R) (earlier : List R) (r : R) :
    Prop where
  applied : ((retuned f (t.build f) earlier).trySetRatio f r).2 = true →
    (∀ ctx, ((retuned f (t.build f) earlier).trySetRatio f r).1.shouldSample ctx =
      ((t.withRatio r).build f).shouldSample ctx) ∧
    ((retuned f (t.build f) earlier).trySetRatio f r).1.description =
      ((t.withRatio r).build f).description
  refused : ((retuned f (t.build f) earlier).trySetRatio f r).2 = false →
    t.ratios = [] ∧
    (∀ ctx, ((retuned f (t.build f) earlier).trySetRatio f r).1.shouldSample ctx =
      (retuned f (t.build f) earlier).shouldSample ctx) ∧
    ((retuned f (t.build f) earlier).trySetRatio f r).1.description =
      (retuned f (t.build f) earlier).description

theorem retunesAsRebuilt (f : RatioFunctions R) (t : SamplerPlan R) (earlier : List R) (r : R) :
    RetunesAsRebuilt f t earlier r := by
  have hcall := SamplerPlan.trySetRatio_build f r (t.retuned earlier)
  rw [SamplerPlan.withRatio_retuned, SamplerPlan.hasRatio_retuned] at hcall
  constructor
  · intro _
    rw [retuned_build, hcall]
    exact ⟨fun _ => rfl, rfl⟩
  · intro hrefused
    rw [retuned_build, hcall] at hrefused
    have hnone : t.ratios = [] := SamplerPlan.hasRatio_eq_false.mp hrefused
    have hkept : (t.retuned earlier).withRatio r = t.retuned earlier := by
      refine SamplerPlan.withRatio_of_none r _ ?_
      rw [← SamplerPlan.hasRatio_eq_false, SamplerPlan.hasRatio_retuned]
      exact hrefused
    rw [SamplerPlan.withRatio_retuned] at hkept
    rw [retuned_build, hcall, hkept]
    exact ⟨hnone, fun _ => rfl, rfl⟩

/-! ### Chains -/

namespace SamplerObject

omit [DecidableEq R]

variable {ctx : SamplingContext}

theorem evaluateFirstMatch_skip {before : List (SamplerObject R)}
    (hskip : ∀ c ∈ before, c.admits ctx = false) (rest : List (SamplerObject R)) :
    evaluateFirstMatch ctx (before ++ rest) =
      ((evaluateFirstMatch ctx rest).1, before.length + (evaluateFirstMatch ctx rest).2) := by
  induction before with
  | nil => rw [List.nil_append, List.length_nil, Nat.zero_add]
  | cons c before ih =>
      rw [List.cons_append, evaluateFirstMatch, hskip c List.mem_cons_self,
        ih fun c' hc' => hskip c' (List.mem_cons_of_mem c hc'), List.length_cons,
        if_neg Bool.false_ne_true]
      refine Prod.ext rfl ?_
      dsimp only
      omega

theorem evaluateFirstMatch_admits {child : SamplerObject R} (hadmits : child.admits ctx = true)
    (after : List (SamplerObject R)) :
    evaluateFirstMatch ctx (child :: after) = (child.shouldSample ctx, 1) := by
  rw [evaluateFirstMatch, if_pos hadmits]

/-- One child that does not keep the span drops it. -/
theorem evaluateAllMustAgree_drop (result : SamplingResult) {children : List (SamplerObject R)}
    {c : SamplerObject R} (hc : c ∈ children)
    (hdrop : (c.shouldSample ctx).decision ≠ .recordAndSample) :
    evaluateAllMustAgree ctx result children = dropResult := by
  induction children generalizing result with
  | nil => cases hc
  | cons first children ih =>
      rw [evaluateAllMustAgree]
      by_cases hfirst : (first.shouldSample ctx).decision ≠ .recordAndSample
      · rw [if_pos hfirst]
      · rw [if_neg hfirst]
        cases List.mem_cons.mp hc with
        | inl h =>
            rw [h] at hdrop
            exact absurd hdrop hfirst
        | inr h => exact ih (first.shouldSample ctx) h

/-- If all agree the last result stands. -/
theorem evaluateAllMustAgree_agree (result : SamplingResult) {children : List (SamplerObject R)}
    (hagree : ∀ c ∈ children, (c.shouldSample ctx).decision = .recordAndSample) :
    evaluateAllMustAgree ctx result children =
      (children.getLast?.map (shouldSample ctx)).getD result := by
  induction children generalizing result with
  | nil => rfl
  | cons first children ih =>
      have hfirst : ¬(first.shouldSample ctx).decision ≠ .recordAndSample :=
        fun h => h (hagree first List.mem_cons_self)
      rw [evaluateAllMustAgree, if_neg hfirst,
        ih (first.shouldSample ctx) fun c hc => hagree c (List.mem_cons_of_mem first hc)]
      cases children with
      | nil => rfl
      | cons second children => rw [List.getLast?_cons_cons]; rfl

end SamplerObject

/-- What the two modes promise of a chain. -/
structure ChainsDecide (R : Type) : Prop where
  /-- The first child that is no rule, or whose predicate holds, and none after it. -/
  firstMatch : ∀ (ctx : SamplingContext) (before after : List (SamplerObject R))
    (child : SamplerObject R) (description : Bytes),
    (∀ c ∈ before, c.admits ctx = false) → child.admits ctx = true →
      (SamplerObject.chain .firstMatch (before ++ child :: after) description).shouldSample ctx =
          child.shouldSample ctx ∧
        (SamplerObject.evaluateFirstMatch ctx (before ++ child :: after)).2 = before.length + 1
  noMatch : ∀ (ctx : SamplingContext) (children : List (SamplerObject R)) (description : Bytes),
    (∀ c ∈ children, c.admits ctx = false) →
      (SamplerObject.chain .firstMatch children description).shouldSample ctx = dropResult
  dropped : ∀ (ctx : SamplingContext) (children : List (SamplerObject R)) (description : Bytes),
    ((SamplerObject.chain .allMustAgree children description).shouldSample ctx).decision = .drop ↔
      children = [] ∨ ∃ c ∈ children, (c.shouldSample ctx).decision ≠ .recordAndSample
  agreed : ∀ (ctx : SamplingContext) (children : List (SamplerObject R)) (last : SamplerObject R)
    (description : Bytes),
    (∀ c ∈ children ++ [last], (c.shouldSample ctx).decision = .recordAndSample) →
      (SamplerObject.chain .allMustAgree (children ++ [last]) description).shouldSample ctx =
        last.shouldSample ctx

theorem chainsDecide (R : Type) : ChainsDecide R := by
  refine ⟨?_, ?_, ?_, ?_⟩
  · intro ctx before after child description hskip hadmits
    rw [SamplerObject.shouldSample, SamplerObject.evaluateFirstMatch_skip hskip,
      SamplerObject.evaluateFirstMatch_admits hadmits]
    exact ⟨rfl, rfl⟩
  · intro ctx children description hskip
    have hrest := SamplerObject.evaluateFirstMatch_skip hskip []
    rw [List.append_nil] at hrest
    rw [SamplerObject.shouldSample, hrest]
    rfl
  · intro ctx children description
    rw [SamplerObject.shouldSample]
    constructor
    · intro hdrop
      by_cases hagree : ∀ c ∈ children, (c.shouldSample ctx).decision = .recordAndSample
      · left
        rw [SamplerObject.evaluateAllMustAgree_agree _ hagree] at hdrop
        cases hlast : children.getLast? with
        | none => exact List.getLast?_eq_none_iff.mp hlast
        | some last =>
            rw [hlast, Option.map_some, Option.getD_some,
              hagree last (List.mem_of_getLast? hlast)] at hdrop
            cases hdrop
      · right
        push Not at hagree
        exact hagree
    · rintro (hnil | ⟨c, hc, hdrop⟩)
      · rw [hnil]
        rfl
      · rw [SamplerObject.evaluateAllMustAgree_drop _ hc hdrop]
        rfl
  · intro ctx children last description hagree
    rw [SamplerObject.shouldSample, SamplerObject.evaluateAllMustAgree_agree _ hagree,
      List.getLast?_concat]
    rfl

/-- Retuning a tree is building it again, and a chain decides as its mode says. -/
theorem retune_eq_rebuild (f : RatioFunctions R) (t : SamplerPlan R) (earlier : List R) (r : R) :
    RetunesAsRebuilt f t earlier r ∧ ChainsDecide R :=
  ⟨retunesAsRebuilt f t earlier r, chainsDecide R⟩

/-- The ratio sampler on the arm a chain never takes is retuned with the other. -/
example :
    let t : SamplerPlan Nat :=
      .chain .firstMatch [.rule [] [] (fun _ => false) .null (.traceIdRatio 1), .traceIdRatio 2]
    (t.withRatio 3).ratios = [3, 3] := by decide

end Microtel.Sdk.SamplerDecisions
