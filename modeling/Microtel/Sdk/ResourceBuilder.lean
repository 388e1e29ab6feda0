import Microtel.Api.Baggage
import Microtel.Concentrator.Resource

/-!
The settings that name Resource attributes, from the file, the environment and the
code into one `Config` (`src/common/config/toml_loader.cpp`, `env_resolver.cpp`,
`table_merge.cpp`, `config_validator.cpp` and `SdkBuilder::Impl::LoadConfig`), and the
composition of the Resource from it (`src/sdk/resource_builder.cpp`). Of `Config` only
the fields the Resource is composed of, and of each function what it does to them.
-/

namespace Microtel.Configuration

open Concentrator Delimited

inductive ConfigErrorKind
  | unspecified | invalidValue | unknownKey | envParseFailure | fileNotFound | fileParseFailure
  | tlsMaterialUnreadable | endpointMalformed | protocolMismatch | insecureDisallowed
  | buildAlreadyConsumed | duplicateProfileName | profileLimitExceeded
  deriving DecidableEq, Repr

structure ConfigError where
  kind : ConfigErrorKind := .unspecified
  field : Bytes := []
  message : Bytes := []
  deriving DecidableEq, Repr

inductive UnknownKeyMode
  | error | warn | ignore
  deriving DecidableEq, Repr

structure Config where
  unknownKeyMode : UnknownKeyMode := .error
  unknownKeysWarned : List Bytes := []
  serviceName : Bytes := []
  serviceVersion : Bytes := []
  resourceAttrs : List KeyValue := []
  serviceNameDefaulted : Bool := false
  resourceDetectorsStrict : Bool := false
  deriving DecidableEq

def serviceVersionKey : Bytes := ascii "service.version"

/-! ### The file -/

/-- The value of a table's entry; of those that are not strings nothing is read. -/
inductive TomlValue
  | string (v : Bytes)
  | other
  deriving DecidableEq, Repr

abbrev TomlTable := List (Bytes × TomlValue)

def TomlValue.string? : TomlValue → Option Bytes
  | .string v => some v
  | .other => none

/-- A parsed `microtel.toml`: the mode `[config]` sets, a section that is a table, and
what `sdk.resource_detectors_strict` reads as. -/
structure TomlFile where
  unknownKeys : UnknownKeyMode := .error
  service : Option TomlTable := none
  resource : Option TomlTable := none
  detectorsStrict : Option Bool := none

def unknownKeyError (field : Bytes) : ConfigError where
  kind := .unknownKey
  field := field
  message := ascii "Unknown configuration key: " ++ field

/-- The loop of `CheckUnknown`. -/
def checkUnknown (table : TomlTable) (sec : Bytes) (known : List Bytes) (cfg : Config) :
    Except ConfigError Config :=
  if cfg.unknownKeyMode = .ignore then .ok cfg
  else
    table.foldlM (fun cfg e =>
      if known.contains e.1 then .ok cfg
      else
        let field := if sec.isEmpty then e.1 else sec ++ ascii "." ++ e.1
        if cfg.unknownKeyMode ≠ .warn then .error (unknownKeyError field)
        else .ok { cfg with unknownKeysWarned := cfg.unknownKeysWarned ++ [field] }) cfg

/-- `table[key].value<std::string>()`. -/
def TomlTable.string? (table : TomlTable) (key : Bytes) : Option Bytes :=
  (table.lookup key).bind TomlValue.string?

def parseServiceSection (file : TomlFile) (cfg : Config) : Except ConfigError Config :=
  match file.service with
  | none => .ok cfg
  | some sec => do
      let cfg ← checkUnknown sec (ascii "service") [ascii "name", ascii "version"] cfg
      let cfg :=
        match sec.string? (ascii "name") with
        | some v => { cfg with serviceName := v }
        | none => cfg
      let cfg :=
        match sec.string? (ascii "version") with
        | some v => { cfg with serviceVersion := v }
        | none => cfg
      return cfg

/-- The string entries of a table, in its order. -/
def TomlTable.strings (table : TomlTable) : List KeyValue :=
  table.filterMap fun e => e.2.string?.map fun v => ⟨e.1, .string v⟩

def parseResourceSection (file : TomlFile) (cfg : Config) : Config :=
  match file.resource with
  | none => cfg
  | some sec => { cfg with resourceAttrs := sec.strings }

def parseSdkSection (file : TomlFile) (cfg : Config) : Config :=
  match file.detectorsStrict with
  | none => cfg
  | some v => { cfg with resourceDetectorsStrict := v }

/-- `ParseTable`, behind the other sections and the check of their names. -/
def loadToml (file : TomlFile) : Except ConfigError Config := do
  let cfg ← parseServiceSection file { unknownKeyMode := file.unknownKeys }
  return parseSdkSection file (parseResourceSection file cfg)

/-! ### The environment -/

/-- The variables read for the Resource; an unset one is empty. -/
structure Environment where
  otelServiceName : Bytes := []
  otelResourceAttributes : Bytes := []
  microtelResourceDetectorsStrict : Bytes := []

def trimOws (text : Bytes) : Bytes := trim (fun c => c = 0x20 || c = 0x09) text

/-- The percent sign. -/
def kPercent : UInt8 := 0x25
/-- The comma. -/
def kListSeparator : UInt8 := 0x2C
/-- The equals sign. -/
def kKeyValueSeparator : UInt8 := 0x3D

/-- `std::from_chars` in base 16 on two characters, when it reads both. -/
def hexByte (high low : UInt8) : Option UInt8 :=
  if Api.Baggage.isHexDigit high && Api.Baggage.isHexDigit low then
    some (Api.Baggage.hexDigitValue high * 16 + Api.Baggage.hexDigitValue low)
  else none

/-- `none` on a percent sign that two hex digits do not follow. -/
def percentDecode : Bytes → Option Bytes
  | [] => some []
  | c :: text =>
      if c ≠ kPercent then (percentDecode text).map (c :: ·)
      else
        match text with
        | high :: low :: rest =>
            match hexByte high low with
            | some byte => (percentDecode rest).map (byte :: ·)
            | none => none
        | _ => none

def missingEqualsError (varName : Bytes) (entry : Nat) : ConfigError where
  kind := .envParseFailure
  field := varName
  message :=
    varName ++ ascii ": entry " ++ ascii (toString entry) ++
      ascii " is not a key=value pair (missing '=')"

def malformedEscapeError (varName key : Bytes) : ConfigError where
  kind := .envParseFailure
  field := varName
  message :=
    varName ++ ascii ": malformed percent-escape in the value of " ++ key ++
      ascii " (expected %XX, two hex digits)"

/-- One round of the loop in `ParseKeyValueList`; `none` is its `continue`. -/
def parseEntry (varName : Bytes) (entry : Nat) (piece : Bytes) :
    Except ConfigError (Option KeyValue) :=
  let token := trimOws piece
  if token.isEmpty then .ok none
  else
    match cut kKeyValueSeparator token with
    | (_, none) => .error (missingEqualsError varName entry)
    | (before, some after) =>
        let key := trimOws before
        match percentDecode (trimOws after) with
        | none => .error (malformedEscapeError varName key)
        | some value => .ok (some ⟨key, .string value⟩)

/-- The loop, over the pieces between the commas; entries count from one. -/
def parseEntries (varName : Bytes) : Nat → List Bytes → Except ConfigError (List KeyValue)
  | _, [] => .ok []
  | entry, piece :: pieces => do
      let kv ← parseEntry varName entry piece
      let rest ← parseEntries varName (entry + 1) pieces
      return kv.toList ++ rest

def parseKeyValueList (text varName : Bytes) : Except ConfigError (List KeyValue) :=
  parseEntries varName 1 (text.splitOn kListSeparator)

def mergeResourceAttrs (base overriding : List KeyValue) : List KeyValue :=
  Resource.merge base overriding

def overlayServiceName (env : Environment) (cfg : Config) : Config :=
  if !env.otelServiceName.isEmpty then { cfg with serviceName := env.otelServiceName } else cfg

def kResourceAttributesVar : Bytes := ascii "OTEL_RESOURCE_ATTRIBUTES"

def overlayResourceAttrs (env : Environment) (cfg : Config) : Except ConfigError Config :=
  if env.otelResourceAttributes.isEmpty then .ok cfg
  else do
    let attrs ← parseKeyValueList env.otelResourceAttributes kResourceAttributesVar
    return { cfg with resourceAttrs := mergeResourceAttrs cfg.resourceAttrs attrs }

def kDetectorsStrictVar : Bytes := ascii "MICROTEL_RESOURCE_DETECTORS_STRICT"

def overlayResourceDetectorsStrict (env : Environment) (cfg : Config) : Except ConfigError Config :=
  let v := env.microtelResourceDetectorsStrict
  if v.isEmpty then .ok cfg
  else if v = ascii "true" ∨ v = ascii "1" then .ok { cfg with resourceDetectorsStrict := true }
  else if v = ascii "false" ∨ v = ascii "0" then .ok { cfg with resourceDetectorsStrict := false }
  else
    .error {
      kind := .envParseFailure
      field := kDetectorsStrictVar
      message := ascii "expected \"true\"/\"1\" or \"false\"/\"0\"" }

def overlayEnv (env : Environment) (cfg : Config) : Except ConfigError Config := do
  let cfg ← overlayResourceAttrs env (overlayServiceName env cfg)
  overlayResourceDetectorsStrict env cfg

/-! ### The code -/

/-- What the `With…` calls set, the last call of each. -/
structure BuilderOptions where
  serviceName : Option Bytes := none
  serviceVersion : Option Bytes := none
  resourceAttrs : Option (List KeyValue) := none

def applyResourceOverrides (code : BuilderOptions) (cfg : Config) : Config :=
  let cfg :=
    match code.serviceName with
    | some v => { cfg with serviceName := v }
    | none => cfg
  let cfg :=
    match code.serviceVersion with
    | some v => { cfg with serviceVersion := v }
    | none => cfg
  match code.resourceAttrs with
  | some attrs => { cfg with resourceAttrs := mergeResourceAttrs cfg.resourceAttrs attrs }
  | none => cfg

/-- The service identity, the last step of `Validate`. -/
def validate (cfg : Config) : Config :=
  if cfg.serviceName.isEmpty then
    { cfg with serviceName := unknownService, serviceNameDefaulted := true }
  else { cfg with serviceNameDefaulted := false }

/-- Everything `SdkBuilder::Build` reads the settings from. -/
structure Inputs where
  file : Option TomlFile := none
  env : Environment := {}
  code : BuilderOptions := {}

def loadConfig (inputs : Inputs) : Except ConfigError Config := do
  let cfg ← (inputs.file.map loadToml).getD (.ok {})
  let cfg ← overlayEnv inputs.env cfg
  return validate (applyResourceOverrides inputs.code cfg)

end Microtel.Configuration

namespace Microtel.Sdk.ResourceBuilder

open Concentrator Microtel.Configuration

/-- An `IResourceDetector` by what it answers. -/
structure ResourceDetector where
  name : Bytes
  detect : Except Configuration.ConfigError Resource

def defaultsLayer (cfg : Config) : Resource :=
  if !cfg.serviceNameDefaulted then [] else [⟨serviceNameKey, .string cfg.serviceName⟩]

def configLayer (cfg : Config) : Resource :=
  (if !cfg.serviceNameDefaulted then [⟨serviceNameKey, .string cfg.serviceName⟩] else []) ++
    (if !cfg.serviceVersion.isEmpty then [⟨serviceVersionKey, .string cfg.serviceVersion⟩]
      else []) ++
      cfg.resourceAttrs

def describeFailure (detector : ResourceDetector) (error : Configuration.ConfigError) : Bytes :=
  ascii "resource detector \"" ++ detector.name ++ ascii "\" failed: " ++ error.message

/-- One round of the loop over the detectors. -/
def mergeDetected (cfg : Config) (detected : Resource) (detector : ResourceDetector) :
    Except Configuration.ConfigError Resource :=
  match detector.detect with
  | .ok contribution => .ok (Resource.merge detected contribution)
  | .error error =>
      if cfg.resourceDetectorsStrict then
        .error { error with message := describeFailure detector error }
      else .ok detected

/-- `BuildResource`; what it logs is left out. -/
def buildResource (cfg : Config) (detectors : List ResourceDetector) :
    Except Configuration.ConfigError Resource := do
  let detected ← detectors.foldlM (mergeDetected cfg) []
  return Resource.merge (Resource.merge (defaultsLayer cfg) detected) (configLayer cfg)

end Microtel.Sdk.ResourceBuilder
