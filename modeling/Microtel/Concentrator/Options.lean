import Microtel.Concentrator.Resource

/-!
The options of the leaf receiver and their check at build time
(`include/microtel/leaf_receiver.hpp`, `src/sdk/leaf_options.cpp`).
-/

namespace Microtel.Concentrator

inductive UnknownLeafPolicy
  | accept | reject
  deriving DecidableEq, Repr

structure LeafConfig where
  timeMode : Option LeafTimeMode := none
  resource : List KeyValue := []
  deriving DecidableEq

/-- `LeafReceiverOptions`. Durations are in seconds; of the resolver only
whether there is one, since it may answer differently each time it is called. -/
structure LeafReceiverOptions where
  enabled : Bool := true
  maxPayloadBytes : UInt32 := 64 * 1024
  maxSpansPerPayload : UInt32 := 512
  maxLeaves : UInt32 := 1024
  maxLeafResourceBytes : UInt32 := 2 * 1024
  leafIdleTimeout : Int := 3600
  unknownLeaf : UnknownLeafPolicy := .accept
  leafIdAttribute : Bytes := ascii "device.id"
  defaultTimeMode : Option LeafTimeMode := none
  maxSyncAge : Int := 3600
  maxClockSkew : Int := 300
  bootAnchorWindow : Int := 600
  leafDefaultsResource : List KeyValue := []
  leaves : List (Bytes × LeafConfig) := []
  resolver : Bool := false
  maxNodeResourceBytes : UInt32 := 16 * 1024

/-- A `ConfigError` of kind `InvalidValue`, the only one this check returns. -/
structure ConfigError where
  field : Bytes
  message : Bytes
  deriving DecidableEq

def resourceBytes (attributes : List KeyValue) : Nat := (attributes.map attributeBytes).sum

/-- A configured Resource's keys: none reserved, and not the id key. -/
def checkKeys (resource : List KeyValue) (field idKey : Bytes) : Option ConfigError :=
  resource.findSome? fun kv =>
    if isReserved kv.key then
      some ⟨field, ascii "'" ++ kv.key ++
        ascii "' is reserved for the leaf wire contract and cannot be configured"⟩
    else if !idKey.isEmpty && kv.key = idKey then
      some ⟨field, ascii "'" ++ kv.key ++
        ascii "' is the leaf_id_attribute; the leaf id always overrides it, so configuring it could never take effect"⟩
    else none

/-- The fields that must be greater than zero, in the order they are checked. -/
def positiveFields (o : LeafReceiverOptions) : List (String × Int) :=
  [("concentrator.max_payload_bytes", o.maxPayloadBytes.toNat),
    ("concentrator.max_spans_per_payload", o.maxSpansPerPayload.toNat),
    ("concentrator.max_leaves", o.maxLeaves.toNat),
    ("concentrator.leaf_idle_timeout", o.leafIdleTimeout),
    ("concentrator.max_sync_age", o.maxSyncAge),
    ("concentrator.max_clock_skew", o.maxClockSkew),
    ("concentrator.boot_anchor_window", o.bootAnchorWindow)]

def checkLimits (o : LeafReceiverOptions) : Option ConfigError :=
  (positiveFields o).findSome? fun f =>
    if f.2 ≤ 0 then some ⟨ascii f.1, ascii "must be greater than zero"⟩ else none

/-- The Resource budget of an entry with this effective time mode, and the
setting that sets it. -/
def budgetOf (o : LeafReceiverOptions) (mode : Option LeafTimeMode) : Nat × Bytes :=
  if mode = some .unix then (o.maxNodeResourceBytes.toNat, ascii "max_node_resource_bytes")
  else (o.maxLeafResourceBytes.toNat, ascii "max_leaf_resource_bytes")

def checkLeaf (o : LeafReceiverOptions) (id : Bytes) (leaf : LeafConfig) : Option ConfigError :=
  if id.isEmpty || maxLeafIdBytes < id.length then
    some ⟨ascii "concentrator.leaves", ascii "a leaf id must be 1 to 128 bytes long"⟩
  else
    let field := ascii "concentrator.leaves." ++ id ++ ascii ".resource"
    match checkKeys leaf.resource field o.leafIdAttribute with
    | some err => some err
    | none =>
        let merged := Resource.merge o.leafDefaultsResource leaf.resource
        let budget := budgetOf o (leaf.timeMode.or o.defaultTimeMode)
        if budget.1 < resourceBytes merged then
          some ⟨field, ascii "the leaf's configured Resource exceeds " ++ budget.2⟩
        else none

def validateLeafReceiverOptions (o : LeafReceiverOptions) : Except ConfigError Unit :=
  if !o.enabled then .ok ()
  else
    match checkLimits o with
    | some err => .error err
    | none =>
        let defaultsField := ascii "concentrator.leaf_defaults.resource"
        match checkKeys o.leafDefaultsResource defaultsField o.leafIdAttribute with
        | some err => .error err
        | none =>
            let budget := budgetOf o o.defaultTimeMode
            if budget.1 < resourceBytes o.leafDefaultsResource then
              .error ⟨defaultsField, ascii "leaf_defaults.resource exceeds " ++ budget.2⟩
            else
              match o.leaves.findSome? fun l => checkLeaf o l.1 l.2 with
              | some err => .error err
              | none => .ok ()

/-! ### A leaf's settings -/

/-- `LeafSettings`: the static entry of a leaf with the resolver's answer over
it. -/
structure LeafSettings where
  configured : Bool := false
  timeMode : Option LeafTimeMode := none
  resource : List KeyValue := []
  deriving DecidableEq

/-- `m_leaves`: the static entries by id, the last one of an id. -/
def staticLeaf (o : LeafReceiverOptions) (id : Bytes) : Option LeafConfig :=
  (KeyedList.find Prod.fst (KeyedList.merge Prod.fst [] o.leaves) id).map Prod.snd

def effectiveMode (o : LeafReceiverOptions) (s : LeafSettings) : Option LeafTimeMode :=
  s.timeMode.or o.defaultTimeMode

def budgetFor (o : LeafReceiverOptions) (s : LeafSettings) : Nat × Bytes :=
  budgetOf o (effectiveMode o s)

/-- The static settings of a leaf, before the resolver is asked. -/
def staticSettings (o : LeafReceiverOptions) (leafId : Bytes) : LeafSettings :=
  match staticLeaf o leafId with
  | none => {}
  | some c => { configured := true, timeMode := c.timeMode, resource := c.resource }

/-- `ResolveSettings` with the answer `AskResolver` gave; the second component
is what it adds to `resource_attributes_dropped`. -/
def resolveSettings (o : LeafReceiverOptions) (leafId : Bytes) (answer : Option LeafConfig) :
    LeafSettings × UInt64 :=
  let settings := staticSettings o leafId
  match answer with
  | none => (settings, 0)
  | some c =>
      let settings :=
        { settings with configured := true, timeMode := c.timeMode.or settings.timeMode }
      let merged := mergeResolverResource settings.resource c.resource
        { defaults := o.leafDefaultsResource, declared := [], configured := []
          idKey := o.leafIdAttribute, leafId, budget := (budgetFor o settings).1 }
      ({ settings with resource := merged.1 }, merged.2)

/-- What `ResourceFor` resolves on a miss of the leaf table. -/
def resolveResource (o : LeafReceiverOptions) (s : LeafSettings) (leafId : Bytes)
    (declared : List KeyValue) : ResolvedLeafResource :=
  resolveLeafResource
    { defaults := o.leafDefaultsResource, declared, configured := s.resource
      idKey := o.leafIdAttribute, leafId, budget := (budgetFor o s).1 }

end Microtel.Concentrator
