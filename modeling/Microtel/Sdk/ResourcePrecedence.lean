import Microtel.Lib.Layers
import Microtel.Sdk.ResourceBuilder

/-!
The precedence of the Resource's keys: each has the value of the highest source that
names it, among the code, the environment and the file, and then of the last detector.
The two dedicated settings travel apart from the tables and come back below all of
them, so a table may overtake the setting of a higher source.
-/

namespace Microtel.Sdk.ResourceBuilder

open Concentrator Microtel.Configuration

/-! ### What a source names -/

/-- A source: its two dedicated settings and its attribute table. -/
structure Source where
  serviceName : Option Bytes := none
  serviceVersion : Option Bytes := none
  attributes : List KeyValue := []

namespace Source

/-- What the dedicated setting of the key gives it. -/
def dedicated (key : Bytes) (s : Source) : Option AttributeValue :=
  if key = serviceNameKey then s.serviceName.map AttributeValue.string
  else if key = serviceVersionKey then s.serviceVersion.map AttributeValue.string
  else none

/-- What the attribute table gives the key. -/
def tabled (key : Bytes) (s : Source) : Option AttributeValue :=
  (KeyedList.find KeyValue.key s.attributes key).map KeyValue.value

def value (key : Bytes) (s : Source) : Option AttributeValue :=
  Layers.answer (dedicated key) (tabled key) s

/-- A key is named at most once, and no dedicated setting is the empty string. -/
structure WellNamed (s : Source) : Prop where
  nodup : (s.attributes.map KeyValue.key).Nodup
  apart : ∀ key, s.dedicated key = none ∨ s.tabled key = none
  name_ne : s.serviceName ≠ some []
  version_ne : s.serviceVersion ≠ some []

end Source

end Microtel.Sdk.ResourceBuilder

namespace Microtel.Configuration

open Microtel.Sdk.ResourceBuilder

def TomlFile.source (file : TomlFile) : Source where
  serviceName := file.service.bind (·.string? (Concentrator.ascii "name"))
  serviceVersion := file.service.bind (·.string? (Concentrator.ascii "version"))
  attributes := (file.resource.map TomlTable.strings).getD []

/-- The attributes of `OTEL_RESOURCE_ATTRIBUTES`, none where it does not parse. -/
def Environment.attributes (env : Environment) : List KeyValue :=
  match parseKeyValueList env.otelResourceAttributes kResourceAttributesVar with
  | .ok attrs => attrs
  | .error _ => []

def Environment.source (env : Environment) : Source where
  serviceName := if env.otelServiceName.isEmpty then none else some env.otelServiceName
  attributes := env.attributes

def BuilderOptions.source (code : BuilderOptions) : Source where
  serviceName := code.serviceName
  serviceVersion := code.serviceVersion
  attributes := code.resourceAttrs.getD []

/-- The sources, the highest first. -/
def Inputs.sources (inputs : Inputs) : List Source :=
  [inputs.code.source, inputs.env.source, (inputs.file.map TomlFile.source).getD {}]

end Microtel.Configuration

namespace Microtel.Sdk.ResourceBuilder

open Concentrator Microtel.Configuration

/-! ### The precedence -/

/-- What a detector answers, and nothing where it fails. -/
def ResourceDetector.contribution (d : ResourceDetector) : Resource :=
  match d.detect with
  | .ok r => r
  | .error _ => []

/-- What a detector gives a key, in its last entry with it. -/
def ResourceDetector.value (key : Bytes) (d : ResourceDetector) : Option AttributeValue :=
  (KeyedList.find KeyValue.key d.contribution.reverse key).map KeyValue.value

/-- The placeholder, of the service name only. -/
def placeholder (key : Bytes) : Option AttributeValue :=
  if key = serviceNameKey then some (.string unknownService) else none

/-- The value of the highest source, then of the last detector, then the placeholder. -/
def expected (inputs : Inputs) (detectors : List ResourceDetector) (key : Bytes) :
    Option AttributeValue :=
  (inputs.sources.findSome? (Source.value key)).or
    ((detectors.reverse.findSome? (ResourceDetector.value key)).or (placeholder key))

/-- The key is named by a source or a detector. -/
def Named (inputs : Inputs) (detectors : List ResourceDetector) (key : Bytes) : Prop :=
  (∃ s ∈ inputs.sources, (s.value key).isSome) ∨ ∃ d ∈ detectors, (d.value key).isSome

structure Precedence (inputs : Inputs) (detectors : List ResourceDetector) (r : Resource) :
    Prop where
  nodup : (r.map KeyValue.key).Nodup
  keys : ∀ key, key ∈ r.map KeyValue.key ↔ key = serviceNameKey ∨ Named inputs detectors key
  value : ∀ kv ∈ r, some kv.value = expected inputs detectors kv.key

/-- The highest source that names the key does so by its dedicated setting, and the
highest lower table with the key gives it another value. -/
def SettingOvertaken (inputs : Inputs) (key : Bytes) : Prop :=
  Layers.Overtaken (Source.dedicated key) (Source.tabled key) inputs.sources

/-- What a Resource gives a key. -/
def lookup (r : Resource) (key : Bytes) : Option AttributeValue :=
  (KeyedList.find KeyValue.key r key).map KeyValue.value

theorem expected_isSome (inputs : Inputs) (detectors : List ResourceDetector) (key : Bytes) :
    (expected inputs detectors key).isSome ↔ key = serviceNameKey ∨ Named inputs detectors key := by
  have hplaceholder : (placeholder key).isSome ↔ key = serviceNameKey := by
    unfold placeholder
    split <;> simp_all
  unfold expected Named
  rw [Option.isSome_or, Option.isSome_or, Bool.or_eq_true, Bool.or_eq_true, hplaceholder,
    List.findSome?_isSome_iff, List.findSome?_isSome_iff]
  simp only [List.mem_reverse]
  rw [← or_assoc]
  exact or_comm

theorem mem_keys_iff (r : Resource) (key : Bytes) :
    key ∈ r.map KeyValue.key ↔ (lookup r key).isSome := by
  rw [lookup, Option.isSome_map, KeyedList.find_isSome]

theorem precedence_iff_lookup (inputs : Inputs) (detectors : List ResourceDetector) {r : Resource}
    (hnodup : (r.map KeyValue.key).Nodup) :
    Precedence inputs detectors r ↔ ∀ key, lookup r key = expected inputs detectors key := by
  constructor
  · intro h key
    cases hfind : lookup r key with
    | none =>
        have hkey : ¬ (expected inputs detectors key).isSome := by
          rw [expected_isSome, ← h.keys, mem_keys_iff, hfind]
          simp
        exact (Option.not_isSome_iff_eq_none.mp hkey).symm
    | some v =>
        obtain ⟨kv, hkv, rfl⟩ := Option.map_eq_some_iff.mp hfind
        rw [h.value kv (KeyedList.find_mem hkv), KeyedList.find_key hkv]
  · intro h
    refine ⟨hnodup, ?_, ?_⟩
    · intro key
      rw [mem_keys_iff, h, expected_isSome]
    · intro kv hkv
      rw [← h, lookup, KeyedList.find_of_mem hnodup hkv]
      rfl

/-! ### The configuration -/

/-- The step of a source: its dedicated settings replace, its table is merged. -/
structure Takes (s : Source) (cfg cfg' : Config) : Prop where
  serviceName : cfg'.serviceName = s.serviceName.getD cfg.serviceName
  serviceVersion : cfg'.serviceVersion = s.serviceVersion.getD cfg.serviceVersion
  attributes : cfg'.resourceAttrs = Resource.merge cfg.resourceAttrs s.attributes

/-- A configuration collected from the sources, the highest first. -/
structure Collected (sources : List Source) (cfg : Config) : Prop where
  serviceName : cfg.serviceName = (sources.findSome? Source.serviceName).getD []
  serviceVersion : cfg.serviceVersion = (sources.findSome? Source.serviceVersion).getD []
  nodup : (cfg.resourceAttrs.map KeyValue.key).Nodup
  attributes : ∀ key, lookup cfg.resourceAttrs key = sources.findSome? (Source.tabled key)

theorem collected_nil : Collected [] {} := by
  refine ⟨rfl, rfl, List.nodup_nil, ?_⟩
  intro key
  rfl

theorem getD_findSome?_cons {σ β : Type} (f : σ → Option β) (s : σ) (layers : List σ) (d : β) :
    ((s :: layers).findSome? f).getD d = (f s).getD ((layers.findSome? f).getD d) := by
  rw [List.findSome?_cons]
  cases f s with
  | none => rfl
  | some v => rfl

theorem Collected.take {s : Source} {sources : List Source} {cfg cfg' : Config}
    (h : Collected sources cfg) (ht : Takes s cfg cfg') (hs : s.WellNamed) :
    Collected (s :: sources) cfg' := by
  refine ⟨?_, ?_, ?_, ?_⟩
  · rw [ht.serviceName, h.serviceName, getD_findSome?_cons]
  · rw [ht.serviceVersion, h.serviceVersion, getD_findSome?_cons]
  · rw [ht.attributes]
    exact KeyedList.merge_nodup _ h.nodup
  · intro key
    have htop : KeyedList.merge KeyValue.key [] s.attributes = s.attributes :=
      KeyedList.merge_nil_of_nodup hs.nodup
    rw [ht.attributes, lookup, Resource.merge, KeyedList.find_merge, htop, Option.map_or]
    rw [← Source.tabled, ← lookup, h.attributes, List.findSome?_cons]
    cases s.tabled key with
    | none => rfl
    | some v => rfl

theorem bind_eq_ok {ε α β : Type} {x : Except ε α} {f : α → Except ε β} {b : β}
    (h : x >>= f = .ok b) : ∃ a, x = .ok a ∧ f a = .ok b := by
  cases x with
  | error e => cases h
  | ok a => exact ⟨a, rfl, h⟩

/-- The fields of the Resource are not those the check of the names writes. -/
structure SameFields (cfg cfg' : Config) : Prop where
  serviceName : cfg'.serviceName = cfg.serviceName
  serviceVersion : cfg'.serviceVersion = cfg.serviceVersion
  attributes : cfg'.resourceAttrs = cfg.resourceAttrs

theorem SameFields.trans {cfg cfg' cfg'' : Config} (h : SameFields cfg cfg')
    (h' : SameFields cfg' cfg'') : SameFields cfg cfg'' where
  serviceName := h'.serviceName.trans h.serviceName
  serviceVersion := h'.serviceVersion.trans h.serviceVersion
  attributes := h'.attributes.trans h.attributes

theorem Takes.then_same {s : Source} {cfg cfg' cfg'' : Config} (h : Takes s cfg cfg')
    (h' : SameFields cfg' cfg'') : Takes s cfg cfg'' where
  serviceName := h'.serviceName.trans h.serviceName
  serviceVersion := h'.serviceVersion.trans h.serviceVersion
  attributes := h'.attributes.trans h.attributes

theorem checkUnknown_same {table : TomlTable} {sec : Bytes} {known : List Bytes} {cfg cfg' : Config}
    (h : checkUnknown table sec known cfg = .ok cfg') : SameFields cfg cfg' := by
  unfold checkUnknown at h
  split at h
  · cases h
    exact ⟨rfl, rfl, rfl⟩
  · induction table generalizing cfg with
    | nil =>
        cases h
        exact ⟨rfl, rfl, rfl⟩
    | cons e table ih =>
        rw [List.foldlM_cons] at h
        obtain ⟨cfg₁, hstep, hrest⟩ := bind_eq_ok h
        have hsame : SameFields cfg cfg₁ ∧ cfg₁.unknownKeyMode = cfg.unknownKeyMode := by
          dsimp only at hstep
          split at hstep
          · cases hstep
            exact ⟨⟨rfl, rfl, rfl⟩, rfl⟩
          · split at hstep
            · cases hstep
            · cases hstep
              exact ⟨⟨rfl, rfl, rfl⟩, rfl⟩
        next hmode => exact hsame.1.trans (ih (by rw [hsame.2]; exact hmode) hrest)

theorem parseServiceSection_fields {file : TomlFile} {cfg cfg' : Config}
    (h : parseServiceSection file cfg = .ok cfg') :
    cfg'.serviceName = file.source.serviceName.getD cfg.serviceName ∧
      cfg'.serviceVersion = file.source.serviceVersion.getD cfg.serviceVersion ∧
        cfg'.resourceAttrs = cfg.resourceAttrs := by
  unfold parseServiceSection at h
  unfold TomlFile.source
  cases hsec : file.service with
  | none =>
      rw [hsec] at h
      cases h
      exact ⟨rfl, rfl, rfl⟩
  | some sec =>
      rw [hsec] at h
      obtain ⟨cfg₁, hcheck, hrest⟩ := bind_eq_ok h
      have hsame := checkUnknown_same hcheck
      cases hrest
      rw [← hsame.serviceName, ← hsame.serviceVersion, ← hsame.attributes]
      dsimp only [Option.bind_some]
      cases sec.string? (ascii "name") <;> cases sec.string? (ascii "version") <;>
        exact ⟨rfl, rfl, rfl⟩

theorem parseResourceSection_fields (file : TomlFile) (cfg : Config)
    (hcfg : cfg.resourceAttrs = []) :
    (parseResourceSection file cfg).serviceName = cfg.serviceName ∧
      (parseResourceSection file cfg).serviceVersion = cfg.serviceVersion ∧
        (parseResourceSection file cfg).resourceAttrs = file.source.attributes := by
  unfold parseResourceSection TomlFile.source
  cases file.resource with
  | none => exact ⟨rfl, rfl, hcfg⟩
  | some sec => exact ⟨rfl, rfl, rfl⟩

theorem parseSdkSection_same (file : TomlFile) (cfg : Config) :
    SameFields cfg (parseSdkSection file cfg) := by
  unfold parseSdkSection
  cases file.detectorsStrict with
  | none => exact ⟨rfl, rfl, rfl⟩
  | some v => exact ⟨rfl, rfl, rfl⟩

theorem loadToml_takes {file : TomlFile} {cfg : Config} (h : loadToml file = .ok cfg)
    (hs : file.source.WellNamed) : Takes file.source {} cfg := by
  obtain ⟨cfg₁, hservice, hrest⟩ := bind_eq_ok h
  cases hrest
  obtain ⟨hname, hversion, hattrs⟩ := parseServiceSection_fields hservice
  obtain ⟨hname', hversion', hattrs'⟩ := parseResourceSection_fields file cfg₁ hattrs
  have htakes : Takes file.source {} (parseResourceSection file cfg₁) := by
    refine ⟨hname'.trans hname, hversion'.trans hversion, ?_⟩
    rw [hattrs']
    exact (KeyedList.merge_nil_of_nodup hs.nodup).symm
  exact htakes.then_same (parseSdkSection_same file _)

theorem overlayResourceDetectorsStrict_same {env : Environment} {cfg cfg' : Config}
    (h : overlayResourceDetectorsStrict env cfg = .ok cfg') : SameFields cfg cfg' := by
  unfold overlayResourceDetectorsStrict at h
  dsimp only at h
  split at h
  · cases h
    exact ⟨rfl, rfl, rfl⟩
  · split at h
    · cases h
      exact ⟨rfl, rfl, rfl⟩
    · split at h
      · cases h
        exact ⟨rfl, rfl, rfl⟩
      · cases h

theorem overlayServiceName_fields (env : Environment) (cfg : Config) :
    (overlayServiceName env cfg).serviceName = env.source.serviceName.getD cfg.serviceName ∧
      (overlayServiceName env cfg).serviceVersion = cfg.serviceVersion ∧
        (overlayServiceName env cfg).resourceAttrs = cfg.resourceAttrs := by
  unfold overlayServiceName Environment.source
  cases env.otelServiceName.isEmpty with
  | true => exact ⟨rfl, rfl, rfl⟩
  | false => exact ⟨rfl, rfl, rfl⟩

/-- An unset variable reads as the empty list. -/
theorem attributes_of_isEmpty {env : Environment} (h : env.otelResourceAttributes.isEmpty = true) :
    env.attributes = [] := by
  rw [Environment.attributes, List.isEmpty_iff.mp h]
  rfl

theorem overlayResourceAttrs_fields {env : Environment} {cfg cfg' : Config}
    (h : overlayResourceAttrs env cfg = .ok cfg') :
    cfg'.serviceName = cfg.serviceName ∧ cfg'.serviceVersion = cfg.serviceVersion ∧
      cfg'.resourceAttrs = Resource.merge cfg.resourceAttrs env.attributes := by
  unfold overlayResourceAttrs at h
  split at h
  · next hempty =>
    cases h
    rw [attributes_of_isEmpty hempty]
    exact ⟨rfl, rfl, rfl⟩
  · obtain ⟨attrs, hparse, hrest⟩ := bind_eq_ok h
    cases hrest
    rw [Environment.attributes, hparse]
    exact ⟨rfl, rfl, rfl⟩

theorem overlayEnv_takes {env : Environment} {cfg cfg' : Config}
    (h : overlayEnv env cfg = .ok cfg') :
    Takes env.source cfg cfg' := by
  obtain ⟨cfg₁, hattrs, hstrict⟩ := bind_eq_ok h
  obtain ⟨hname, hversion, htable⟩ := overlayResourceAttrs_fields hattrs
  obtain ⟨hname', hversion', htable'⟩ := overlayServiceName_fields env cfg
  have htakes : Takes env.source cfg cfg₁ := by
    refine ⟨hname.trans hname', hversion.trans hversion', ?_⟩
    rw [htable, htable']
    rfl
  exact htakes.then_same (overlayResourceDetectorsStrict_same hstrict)

theorem applyResourceOverrides_takes (code : BuilderOptions) (cfg : Config) :
    Takes code.source cfg (applyResourceOverrides code cfg) := by
  unfold applyResourceOverrides BuilderOptions.source
  cases code.serviceName <;> cases code.serviceVersion <;> cases code.resourceAttrs <;>
    exact ⟨rfl, rfl, rfl⟩

/-- What `Validate` receives: the sources collected. -/
theorem loadConfig_collected {inputs : Inputs} {cfg : Config} (h : loadConfig inputs = .ok cfg)
    (hs : ∀ s ∈ inputs.sources, s.WellNamed) :
    ∃ cfg', Collected inputs.sources cfg' ∧ cfg = validate cfg' := by
  obtain ⟨cfg₁, hfile, hrest⟩ := bind_eq_ok h
  obtain ⟨cfg₂, henv, hrest⟩ := bind_eq_ok hrest
  cases hrest
  have hcollected : Collected [(inputs.file.map TomlFile.source).getD {}] cfg₁ := by
    have hw := hs ((inputs.file.map TomlFile.source).getD {}) (by simp [Inputs.sources])
    cases hsome : inputs.file with
    | none =>
        rw [hsome] at hfile
        cases hfile
        exact collected_nil.take ⟨rfl, rfl, rfl⟩ (by rw [hsome] at hw; exact hw)
    | some file =>
        rw [hsome] at hfile hw
        exact collected_nil.take (loadToml_takes hfile hw) hw
  have hoverlaid := hcollected.take (overlayEnv_takes henv) (hs _ (by simp [Inputs.sources]))
  have hcode := hoverlaid.take (applyResourceOverrides_takes inputs.code cfg₂)
    (hs _ (by simp [Inputs.sources]))
  exact ⟨_, hcode, rfl⟩

/-! ### The layers -/

/-- A layer gives a key the value of its last entry with it. -/
theorem lookup_merge (base top : Resource) (key : Bytes) :
    lookup (Resource.merge base top) key =
      ((KeyedList.find KeyValue.key top.reverse key).map KeyValue.value).or (lookup base key) := by
  rw [lookup, Resource.merge, KeyedList.find_merge, KeyedList.find_merge_nil, Option.map_or, lookup]

theorem lookup_merge_of_nodup (base : Resource) {top : Resource}
    (h : (top.map KeyValue.key).Nodup) (key : Bytes) :
    lookup (Resource.merge base top) key = (lookup top key).or (lookup base key) := by
  rw [lookup, Resource.merge, KeyedList.find_merge, KeyedList.merge_nil_of_nodup h, Option.map_or,
    lookup, lookup]

def mergeContribution (detected : Resource) (d : ResourceDetector) : Resource :=
  Resource.merge detected d.contribution

/-- Under the lenient policy a failing detector contributes nothing. -/
theorem foldlM_mergeDetected {cfg : Config} (hlenient : cfg.resourceDetectorsStrict = false)
    (detectors : List ResourceDetector) (detected : Resource) :
    detectors.foldlM (mergeDetected cfg) detected =
      .ok (detectors.foldl mergeContribution detected) := by
  induction detectors generalizing detected with
  | nil => rfl
  | cons d detectors ih =>
      have hstep : mergeDetected cfg detected d = .ok (mergeContribution detected d) := by
        unfold mergeDetected mergeContribution ResourceDetector.contribution
        cases d.detect with
        | ok r => rfl
        | error e =>
            rw [hlenient]
            rfl
      rw [List.foldlM_cons, hstep, List.foldl_cons, ← ih]
      rfl

theorem lookup_detected (detectors : List ResourceDetector) (key : Bytes) :
    lookup (detectors.foldl mergeContribution []) key =
      detectors.reverse.findSome? (ResourceDetector.value key) := by
  induction detectors using List.reverseRecOn with
  | nil => rfl
  | append_singleton detectors d ih =>
      rw [List.foldl_concat, mergeContribution, lookup_merge, ih, List.reverse_concat,
        List.findSome?_cons, ← ResourceDetector.value]
      cases d.value key with
      | none => rfl
      | some v => rfl

theorem nodup_detected (detectors : List ResourceDetector) :
    ((detectors.foldl mergeContribution []).map KeyValue.key).Nodup := by
  induction detectors using List.reverseRecOn with
  | nil => exact List.nodup_nil
  | append_singleton detectors d ih =>
      rw [List.foldl_concat]
      exact KeyedList.merge_nodup _ ih

/-- The dedicated settings of a configuration, as the layer below its table. -/
def settings (cfg : Config) : Resource :=
  (if !cfg.serviceNameDefaulted then [⟨serviceNameKey, .string cfg.serviceName⟩] else []) ++
    (if !cfg.serviceVersion.isEmpty then [⟨serviceVersionKey, .string cfg.serviceVersion⟩] else [])

theorem nodup_settings (cfg : Config) : ((settings cfg).map KeyValue.key).Nodup := by
  have hne : serviceNameKey ≠ serviceVersionKey := by decide
  unfold settings
  split <;> split <;> simp [hne]

theorem lookup_configLayer (base : Resource) {cfg : Config}
    (h : (cfg.resourceAttrs.map KeyValue.key).Nodup) (key : Bytes) :
    lookup (Resource.merge base (configLayer cfg)) key =
      (lookup cfg.resourceAttrs key).or ((lookup (settings cfg) key).or (lookup base key)) := by
  have hsplit : Resource.merge base (configLayer cfg) =
      Resource.merge (Resource.merge base (settings cfg)) cfg.resourceAttrs :=
    KeyedList.merge_append _ _ _
  rw [hsplit, lookup_merge_of_nodup _ h, lookup_merge_of_nodup _ (nodup_settings cfg)]

theorem lookup_singleton (key key' : Bytes) (v : AttributeValue) :
    lookup [⟨key', v⟩] key = if key = key' then some v else none := by
  rw [lookup, KeyedList.find_cons]
  split
  · next heq => rw [if_pos heq.symm, Option.map_some]
  · next hne =>
    rw [if_neg (Ne.symm hne)]
    rfl

theorem lookup_append (r r' : Resource) (key : Bytes) :
    lookup (r ++ r') key = (lookup r key).or (lookup r' key) := by
  unfold lookup KeyedList.find
  rw [List.find?_append, Option.map_or]

theorem ne_nil_of_findSome? {σ β : Type} {f : σ → Option (List β)} {layers : List σ}
    (h : ∀ s ∈ layers, f s ≠ some []) : layers.findSome? f ≠ some [] := by
  intro heq
  obtain ⟨s, hs, hf⟩ := List.exists_of_findSome?_eq_some heq
  exact h s hs hf

theorem findSome?_dedicated (sources : List Source) (key : Bytes) :
    sources.findSome? (Source.dedicated key) =
      if key = serviceNameKey then (sources.findSome? Source.serviceName).map AttributeValue.string
      else if key = serviceVersionKey then
        (sources.findSome? Source.serviceVersion).map AttributeValue.string
      else none := by
  unfold Source.dedicated
  split
  · exact List.map_findSome?.symm
  · split
    · exact List.map_findSome?.symm
    · simp

/-- The service identity as `Validate` leaves it. -/
structure Resolved (name version : Option Bytes) (cfg : Config) : Prop where
  defaulted : cfg.serviceNameDefaulted = name.isNone
  serviceName : cfg.serviceName = name.getD unknownService
  serviceVersion : cfg.serviceVersion = version.getD []

theorem validate_resolved {name version : Option Bytes} {cfg : Config}
    (hname : cfg.serviceName = name.getD []) (hversion : cfg.serviceVersion = version.getD [])
    (hne : name ≠ some []) : Resolved name version (validate cfg) := by
  unfold validate
  cases name with
  | none =>
      have hempty : cfg.serviceName.isEmpty = true := by
        rw [hname]
        rfl
      rw [if_pos hempty]
      exact ⟨rfl, rfl, hversion⟩
  | some n =>
      have hset : ¬ cfg.serviceName.isEmpty = true := by
        rw [hname, List.isEmpty_iff]
        intro hnil
        exact hne (congrArg some hnil)
      rw [if_neg hset]
      exact ⟨rfl, hname, hversion⟩

section Layers

variable {name version : Option Bytes} {cfg : Config}

theorem Resolved.lookup_settings (h : Resolved name version cfg) (hne : version ≠ some [])
    (key : Bytes) :
    lookup (settings cfg) key =
      if key = serviceNameKey then name.map AttributeValue.string
      else if key = serviceVersionKey then version.map AttributeValue.string
      else none := by
  have hkeys : serviceNameKey ≠ serviceVersionKey := by decide
  unfold settings
  rw [h.defaulted, h.serviceName, h.serviceVersion, lookup_append]
  have hfirst : lookup
      (if !name.isNone then [⟨serviceNameKey, .string (name.getD unknownService)⟩] else []) key =
        if key = serviceNameKey then name.map AttributeValue.string else none := by
    cases name with
    | none =>
        rw [Option.map_none, ite_self]
        rfl
    | some n => exact lookup_singleton _ _ _
  have hsecond : lookup
      (if !(version.getD []).isEmpty then [⟨serviceVersionKey, .string (version.getD [])⟩] else [])
        key = if key = serviceVersionKey then version.map AttributeValue.string else none := by
    cases version with
    | none =>
        rw [Option.map_none, ite_self]
        rfl
    | some v =>
        have hset : (!v.isEmpty) = true := by
          cases v with
          | nil => exact absurd rfl hne
          | cons c v => rfl
        rw [Option.getD_some, if_pos hset]
        exact lookup_singleton _ _ _
  rw [hfirst, hsecond]
  by_cases hname : key = serviceNameKey
  · have hversion : key ≠ serviceVersionKey := fun heq => hkeys (hname.symm.trans heq)
    rw [if_pos hname, if_pos hname, if_neg hversion, Option.or_none]
  · rw [if_neg hname, if_neg hname, Option.none_or]

theorem Resolved.lookup_defaults (h : Resolved name version cfg) (key : Bytes) :
    lookup (defaultsLayer cfg) key = if name.isNone then placeholder key else none := by
  unfold defaultsLayer
  rw [h.defaulted, h.serviceName]
  cases name with
  | none => exact lookup_singleton _ _ _
  | some n => rfl

/-- Below the settings the placeholder can stand whether or not a name is set. -/
theorem Resolved.or_placeholder (key : Bytes) (rest : Option AttributeValue) :
    (if key = serviceNameKey then name.map AttributeValue.string
      else if key = serviceVersionKey then version.map AttributeValue.string
      else none).or (rest.or (if name.isNone then placeholder key else none)) =
    (if key = serviceNameKey then name.map AttributeValue.string
      else if key = serviceVersionKey then version.map AttributeValue.string
      else none).or (rest.or (placeholder key)) := by
  cases name with
  | none => rfl
  | some n =>
      by_cases hname : key = serviceNameKey
      · rw [if_pos hname, Option.map_some, Option.some_or, Option.some_or]
      · have hnone : placeholder key = none := if_neg hname
        rw [hnone, ite_self]

end Layers

/-! ### The composition -/

/-- What the Resource gives a key: the tables before the dedicated settings, then the
detectors, then the placeholder. -/
theorem lookup_buildResource {inputs : Inputs} {cfg : Config} (h : loadConfig inputs = .ok cfg)
    (hs : ∀ s ∈ inputs.sources, s.WellNamed) (hlenient : cfg.resourceDetectorsStrict = false)
    (detectors : List ResourceDetector) :
    ∃ r, buildResource cfg detectors = .ok r ∧ (r.map KeyValue.key).Nodup ∧
      ∀ key, lookup r key =
        ((inputs.sources.findSome? (Source.tabled key)).or
            (inputs.sources.findSome? (Source.dedicated key))).or
          ((detectors.reverse.findSome? (ResourceDetector.value key)).or (placeholder key)) := by
  obtain ⟨cfg', hcollected, rfl⟩ := loadConfig_collected h hs
  have hresolved := validate_resolved hcollected.serviceName hcollected.serviceVersion
    (ne_nil_of_findSome? fun s hmem => (hs s hmem).name_ne)
  have hversion := ne_nil_of_findSome? fun s hmem => (hs s hmem).version_ne
  have hattrs : (validate cfg').resourceAttrs = cfg'.resourceAttrs := by
    unfold validate
    split <;> rfl
  have hbuild : buildResource (validate cfg') detectors =
      .ok (Resource.merge (Resource.merge (defaultsLayer (validate cfg'))
        (detectors.foldl mergeContribution [])) (configLayer (validate cfg'))) := by
    unfold buildResource
    rw [foldlM_mergeDetected hlenient]
    rfl
  refine ⟨_, hbuild, ?_, ?_⟩
  · apply KeyedList.merge_nodup
    apply KeyedList.merge_nodup
    unfold defaultsLayer
    split <;> simp
  · intro key
    have hnodup : ((validate cfg').resourceAttrs.map KeyValue.key).Nodup := by
      rw [hattrs]
      exact hcollected.nodup
    rw [lookup_configLayer _ hnodup, lookup_merge_of_nodup _ (nodup_detected detectors), hattrs,
      hcollected.attributes, lookup_detected, hresolved.lookup_settings hversion,
      hresolved.lookup_defaults, Resolved.or_placeholder, ← findSome?_dedicated, Option.or_assoc]

theorem or_right_cancel_iff {β : Type} {a b c : Option β} (h : a = none ↔ b = none) :
    a.or c = b.or c ↔ a = b := by
  cases a with
  | none => simp [h.mp rfl]
  | some v =>
      cases b with
      | none => cases h.mpr rfl
      | some w => simp

/-- Only the two dedicated settings can be overtaken. -/
theorem not_overtaken_iff (inputs : Inputs) :
    (∀ key, ¬ SettingOvertaken inputs key) ↔
      ¬ SettingOvertaken inputs serviceNameKey ∧ ¬ SettingOvertaken inputs serviceVersionKey := by
  constructor
  · intro h
    exact ⟨h _, h _⟩
  · rintro ⟨hname, hversion⟩ key hover
    obtain ⟨higher, s, lower, v, w, heq, hhigher, hown, htable, hne⟩ := id hover
    unfold Source.dedicated at hown
    split at hown
    · next hkey => exact hname (hkey ▸ hover)
    · split at hown
      · next hkey => exact hversion (hkey ▸ hover)
      · cases hown

/-- The Resource keeps the precedence exactly where no table overtakes the dedicated
setting of a higher source. -/
theorem precedence_iff (inputs : Inputs) (detectors : List ResourceDetector) (cfg : Config)
    (hload : loadConfig inputs = .ok cfg) (hs : ∀ s ∈ inputs.sources, s.WellNamed)
    (hlenient : cfg.resourceDetectorsStrict = false) :
    ∃ r, buildResource cfg detectors = .ok r ∧
      (Precedence inputs detectors r ↔
        ¬ SettingOvertaken inputs serviceNameKey ∧
          ¬ SettingOvertaken inputs serviceVersionKey) := by
  obtain ⟨r, hbuild, hnodup, hlookup⟩ := lookup_buildResource hload hs hlenient detectors
  refine ⟨r, hbuild, ?_⟩
  rw [precedence_iff_lookup inputs detectors hnodup, ← not_overtaken_iff]
  apply forall_congr'
  intro key
  have hfirst : (inputs.sources.findSome? (Source.tabled key)).or
      (inputs.sources.findSome? (Source.dedicated key)) =
        inputs.sources.findSome? (Source.value key) ↔ ¬ SettingOvertaken inputs key :=
    Layers.tables_first_iff fun s hmem => (hs s hmem).apart key
  rw [hlookup, expected, ← hfirst]
  exact or_right_cancel_iff Layers.answers_none_iff

/-- A service name set in the code, over these attributes in the environment. -/
def namedInCode (attributes : Bytes) : Inputs where
  env := { otelResourceAttributes := attributes }
  code := { serviceName := some (ascii "api") }

theorem wellNamed_namedInCode {attributes key value : Bytes}
    (h : Environment.attributes { otelResourceAttributes := attributes } = [⟨key, .string value⟩]) :
    ∀ s ∈ (namedInCode attributes).sources, s.WellNamed := by
  intro s hs
  have hempty : ∀ key, Source.dedicated key {} = none := by simp [Source.dedicated]
  simp only [Inputs.sources, namedInCode, List.mem_cons, List.not_mem_nil, or_false] at hs
  rcases hs with rfl | rfl | rfl
  · exact ⟨List.nodup_nil, fun _ => .inr rfl, by decide, by decide⟩
  · unfold Environment.source
    rw [h]
    exact ⟨List.nodup_singleton _, fun k => .inl (hempty k), by simp, by simp⟩
  · exact ⟨List.nodup_nil, fun _ => .inr rfl, by decide, by decide⟩

theorem precedence_iff_rack :
    ∃ r, buildResource
        { serviceName := ascii "api", resourceAttrs := [⟨ascii "rack", .string (ascii "b1")⟩] }
        [⟨ascii "host", .ok [⟨serviceNameKey, .string (ascii "node")⟩]⟩] = .ok r ∧
      (Precedence (namedInCode (ascii "rack=b1"))
          [⟨ascii "host", .ok [⟨serviceNameKey, .string (ascii "node")⟩]⟩] r ↔
        ¬ SettingOvertaken (namedInCode (ascii "rack=b1")) serviceNameKey ∧
          ¬ SettingOvertaken (namedInCode (ascii "rack=b1")) serviceVersionKey) :=
  precedence_iff _ _ _ (by decide +kernel)
    (wellNamed_namedInCode (by decide +kernel : Environment.attributes
      { otelResourceAttributes := ascii "rack=b1" } = [⟨ascii "rack", .string (ascii "b1")⟩])) rfl

/-- The environment's table gives the service name, though the code sets it. -/
theorem environment_over_code :
    ¬ ∀ (inputs : Inputs) (detectors : List ResourceDetector) (cfg : Config) (r : Resource),
      loadConfig inputs = .ok cfg → (∀ s ∈ inputs.sources, s.WellNamed) →
        cfg.resourceDetectorsStrict = false → buildResource cfg detectors = .ok r →
          Precedence inputs detectors r := by
  intro h
  have hattrs : Environment.attributes { otelResourceAttributes := ascii "service.name=other" } =
      [⟨serviceNameKey, .string (ascii "other")⟩] := by decide +kernel
  have hprecedence := h (namedInCode (ascii "service.name=other")) []
    { serviceName := ascii "api", resourceAttrs := [⟨serviceNameKey, .string (ascii "other")⟩] }
    [⟨serviceNameKey, .string (ascii "other")⟩] (by decide +kernel)
      (wellNamed_namedInCode hattrs) rfl
    (by decide +kernel)
  have hvalue := hprecedence.value _ (List.mem_singleton.mpr rfl)
  revert hvalue
  decide +kernel

end Microtel.Sdk.ResourceBuilder
