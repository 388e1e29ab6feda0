import Microtel.Sdk.BatchOptions
import Microtel.Sdk.EndpointUrl

/-!
`config::Validate` (`src/common/config/config_validator.cpp`) on the settings the
exporters are built from: the protocol, the endpoint, TLS, the static headers and the
batch options. The service identity, its last step, is `validate` and refuses nothing.
-/

namespace Microtel.Configuration

open Concentrator

structure TlsOptions where
  insecure : Bool := false
  /-- Empty: the trust of the system. -/
  caBundle : Bytes := []
  /-- Empty: no client certificate. -/
  clientCert : Bytes := []
  clientKey : Bytes := []

/-- The fields of `Config` that the exporters are built from. -/
structure ExporterSettings where
  endpointUrl : Bytes := []
  /-- Filled by `Validate`. -/
  endpoint : ParsedEndpoint := {}
  protocol : Protocol := .http
  protocolExplicit : Bool := false
  compressionGzip : Bool := false
  headers : List KeyValue := []
  tls : TlsOptions := {}
  batch : Pipeline.BatchOptions := {}
  maxDecompressedBytes : Nat := 4 * 1024 * 1024

/-- What `Validate` asks beside its argument: the macro of the build and the files. -/
structure Surroundings where
  forbidInsecureTls : Bool := false
  isRegularFile : Bytes → Bool

/-- The bytes of a literal that is not ASCII. -/
def utf8 (s : String) : Bytes := s.toUTF8.toList

/-! ### The protocol -/

def resolveProtocol (cfg : ExporterSettings) : Except ConfigError Protocol :=
  let scheme := extractScheme cfg.endpointUrl
  if scheme ≠ kSchemeGrpc ∧ scheme ≠ kSchemeGrpcs then .ok cfg.protocol
  else if cfg.protocolExplicit ∧ cfg.protocol ≠ .grpc then
    .error {
      kind := .protocolMismatch
      field := ascii "exporter.protocol"
      message := ascii "endpoint scheme \"" ++ scheme ++
        ascii ("://\" selects OTLP/gRPC but protocol is set to \"http\"; use an " ++
          "http:// or https:// endpoint, or drop the explicit protocol") }
  else .ok .grpc

/-! ### TLS -/

variable (around : Surroundings)

def isReadable (path : Bytes) : Bool := path = [] || around.isRegularFile path

def checkInsecureAllowed (cfg : ExporterSettings) : Except ConfigError Unit :=
  if around.forbidInsecureTls ∧ cfg.tls.insecure then
    .error {
      kind := .insecureDisallowed
      field := ascii "tls.insecure"
      message := ascii ("tls.insecure = true is refused: this build was compiled " ++
        "with MICROTEL_FORBID_INSECURE_TLS=ON") }
  else .ok ()

def validateTlsMaterial (cfg : ExporterSettings) : Except ConfigError Unit :=
  if !isReadable around cfg.tls.caBundle then
    .error {
      kind := .tlsMaterialUnreadable
      field := ascii "tls.ca_bundle"
      message := ascii "CA bundle not readable: " ++ cfg.tls.caBundle }
  else
    let hasCert := cfg.tls.clientCert ≠ []
    let hasKey := cfg.tls.clientKey ≠ []
    if hasCert ∧ ¬ hasKey then
      .error {
        kind := .invalidValue
        field := ascii "tls.client_key"
        message := ascii "client_cert is set but client_key is missing" }
    else if hasKey ∧ ¬ hasCert then
      .error {
        kind := .invalidValue
        field := ascii "tls.client_cert"
        message := ascii "client_key is set but client_cert is missing" }
    else if hasCert ∧ !isReadable around cfg.tls.clientCert then
      .error {
        kind := .tlsMaterialUnreadable
        field := ascii "tls.client_cert"
        message := ascii "client cert not readable: " ++ cfg.tls.clientCert }
    else if hasKey ∧ !isReadable around cfg.tls.clientKey then
      .error {
        kind := .tlsMaterialUnreadable
        field := ascii "tls.client_key"
        message := ascii "client key not readable: " ++ cfg.tls.clientKey }
    else .ok ()

/-! ### Static headers -/

def kConnectionSpecificHeaders : List Bytes :=
  [ascii "connection", ascii "keep-alive", ascii "proxy-connection", ascii "transfer-encoding",
    ascii "upgrade", ascii "te"]

def kGrpcCodecHeaders : List Bytes :=
  [ascii "content-type", ascii "user-agent", ascii "grpc-encoding", ascii "grpc-accept-encoding"]

def kHttpCodecHeaders : List Bytes :=
  [ascii "content-type", ascii "content-length", ascii "content-encoding",
    ascii "accept-encoding"]

def kContentLengthHeader : Bytes := ascii "content-length"
def kHostHeader : Bytes := ascii "host"
def kHeadersFieldPrefix : Bytes := ascii "exporter.headers."

/-- NUL, CR and LF. -/
def kForbiddenValueChars : Bytes := [0x00, 0x0D, 0x0A]
def kValueEdgeWhitespace : Bytes := ascii " \t"

/-- `std::tolower` in the C locale. -/
def toLower (c : UInt8) : UInt8 := if 0x41 ≤ c && c ≤ 0x5A then c + 0x20 else c

def equalsIgnoreCase (a b : Bytes) : Bool := a.map toLower = b.map toLower

def isOneOf (name : Bytes) (set : List Bytes) : Bool := set.any (equalsIgnoreCase name)

def protocolHeaderFault (name : Bytes) : Protocol → Option Bytes
  | .http =>
      if isOneOf name kHttpCodecHeaders then some (ascii "is set by microtel for this protocol")
      else none
  | .grpc =>
      if isOneOf name kGrpcCodecHeaders then some (ascii "is set by microtel for this protocol")
      else if equalsIgnoreCase name kContentLengthHeader then
        some (ascii "cannot be fixed on gRPC, where every request body has its own length")
      else none

/-- The token characters are those of `Api.Baggage`. -/
def headerNameFault (name : Bytes) (protocol : Protocol) : Option Bytes :=
  if !Api.Baggage.isToken name then
    some (ascii "is not a valid header name (RFC 9110 token); pseudo-headers are set by microtel")
  else if isOneOf name kConnectionSpecificHeaders then
    some (utf8 "is connection-specific, which HTTP/2 forbids in a request (RFC 9113 §8.2.2)")
  else if equalsIgnoreCase name kHostHeader then
    some (ascii "is set by microtel from the endpoint, as :authority")
  else protocolHeaderFault name protocol

def headerError (name reason : Bytes) : ConfigError where
  kind := .invalidValue
  field := kHeadersFieldPrefix ++ name
  message := ascii "header \"" ++ name ++ ascii "\" " ++ reason

def fieldValueFault (value : Bytes) : Option Bytes :=
  if value.any kForbiddenValueChars.contains then
    some (utf8 "value contains CR, LF or NUL, which HTTP/2 forbids (RFC 9113 §8.2.1)")
  else if value.head?.any kValueEdgeWhitespace.contains ||
      value.getLast?.any kValueEdgeWhitespace.contains then
    some (utf8 ("value starts or ends with a space or tab, which HTTP/2 forbids " ++
      "(RFC 9113 §8.2.1)"))
  else none

def headerValueFault : AttributeValue → Option Bytes
  | .string str => fieldValueFault str
  | _ => none

/-- One round of the loop in `ValidateHeaders`. -/
def validateHeader (protocol : Protocol) (header : KeyValue) : Except ConfigError Unit :=
  match headerNameFault header.key protocol with
  | some fault => .error (headerError header.key fault)
  | none =>
      match headerValueFault header.value with
      | some fault => .error (headerError header.key fault)
      | none => .ok ()

def validateHeaders (cfg : ExporterSettings) : Except ConfigError Unit :=
  cfg.headers.forM (validateHeader cfg.protocol)

/-! ### Validate -/

def grpcPathError : ConfigError where
  kind := .protocolMismatch
  field := ascii "exporter.endpoint"
  message := ascii "gRPC endpoint URLs must not include a path"

/-- `Validate` up to the service identity. -/
def validateExporter (cfg : ExporterSettings) : Except ConfigError ExporterSettings := do
  let protocol ← resolveProtocol cfg
  let cfg := { cfg with protocol := protocol }
  let endpoint ← parseEndpointUrl cfg.endpointUrl cfg.protocol
  if cfg.protocol = .grpc ∧ endpoint.path ≠ [] then .error grpcPathError
  else do
    let cfg := { cfg with endpoint := endpoint }
    checkInsecureAllowed around cfg
    validateTlsMaterial around cfg
    validateHeaders cfg
    match Sdk.checkBatchOptions cfg.batch with
    | some fault =>
        .error {
          kind := .invalidValue
          field := ascii fault.field
          message := ascii fault.message }
    | none => return cfg

/-! ### What it accepts -/

theorem bind_ok_iff {α β ε : Type} {x : Except ε α} {f : α → Except ε β} {b : β} :
    x >>= f = .ok b ↔ ∃ a, x = .ok a ∧ f a = .ok b := by
  cases x with
  | error err => simp [bind, Except.bind]
  | ok a => simp [bind, Except.bind]

theorem forM_ok_iff {α ε : Type} (check : α → Except ε Unit) (l : List α) :
    l.forM check = .ok () ↔ ∀ x ∈ l, check x = .ok () := by
  induction l with
  | nil => simp [pure, Except.pure]
  | cons x l ih =>
      rw [List.forall_mem_cons, ← ih]
      change (check x >>= fun _ => l.forM check) = .ok () ↔ _
      rw [bind_ok_iff]
      constructor
      · rintro ⟨⟨⟩, hx, hl⟩
        exact ⟨hx, hl⟩
      · rintro ⟨hx, hl⟩
        exact ⟨(), hx, hl⟩

theorem validateHeader_ok_iff (protocol : Protocol) (header : KeyValue) :
    validateHeader protocol header = .ok () ↔
      headerNameFault header.key protocol = none ∧ headerValueFault header.value = none := by
  unfold validateHeader
  cases headerNameFault header.key protocol with
  | some fault => simp
  | none =>
      cases headerValueFault header.value with
      | some fault => simp
      | none => simp

theorem checkInsecureAllowed_ok_iff (cfg : ExporterSettings) :
    checkInsecureAllowed around cfg = .ok () ↔
      ¬ (around.forbidInsecureTls ∧ cfg.tls.insecure) := by
  unfold checkInsecureAllowed
  by_cases h : around.forbidInsecureTls ∧ cfg.tls.insecure
  · simp [h]
  · rw [if_neg h]
    exact iff_of_true rfl h

/-- Every certificate that is named can be read, and the client's come as a pair. -/
structure TlsUsable (tls : TlsOptions) : Prop where
  bundle : isReadable around tls.caBundle
  paired : tls.clientCert = [] ↔ tls.clientKey = []
  cert : isReadable around tls.clientCert
  key : isReadable around tls.clientKey

theorem validateTlsMaterial_ok_iff (cfg : ExporterSettings) :
    validateTlsMaterial around cfg = .ok () ↔ TlsUsable around cfg.tls := by
  have hempty : isReadable around [] = true := by simp [isReadable]
  unfold validateTlsMaterial
  by_cases hbundle : isReadable around cfg.tls.caBundle
  · by_cases hcert : cfg.tls.clientCert = []
    · by_cases hkey : cfg.tls.clientKey = []
      · refine iff_of_true ?_ ⟨hbundle, by simp [hcert, hkey], by rw [hcert, hempty],
          by rw [hkey, hempty]⟩
        simp [hbundle, hcert, hkey]
      · refine iff_of_false ?_ fun h => hkey (h.paired.mp hcert)
        simp [hbundle, hcert, hkey]
    · by_cases hkey : cfg.tls.clientKey = []
      · refine iff_of_false ?_ fun h => hcert (h.paired.mpr hkey)
        simp [hbundle, hcert, hkey]
      · by_cases hcert' : isReadable around cfg.tls.clientCert
        · by_cases hkey' : isReadable around cfg.tls.clientKey
          · refine iff_of_true ?_ ⟨hbundle, iff_of_false hcert hkey, hcert', hkey'⟩
            simp [hbundle, hcert, hkey, hcert', hkey']
          · refine iff_of_false ?_ fun h => hkey' h.key
            simp [hbundle, hcert, hkey, hcert', hkey']
        · refine iff_of_false ?_ fun h => hcert' h.cert
          simp [hbundle, hcert, hkey, hcert']
  · refine iff_of_false ?_ fun h => hbundle h.bundle
    simp [hbundle]

/-- What may be relied on in settings that were accepted. -/
structure Accepted (cfg cfg' : ExporterSettings) : Prop where
  protocol : resolveProtocol cfg = .ok cfg'.protocol
  endpoint : parseEndpointUrl cfg.endpointUrl cfg'.protocol = .ok cfg'.endpoint
  grpcPath : ¬ (cfg'.protocol = .grpc ∧ cfg'.endpoint.path ≠ [])
  insecure : ¬ (around.forbidInsecureTls ∧ cfg.tls.insecure)
  tls : TlsUsable around cfg.tls
  headers : ∀ header ∈ cfg.headers,
    headerNameFault header.key cfg'.protocol = none ∧ headerValueFault header.value = none
  batch : Sdk.checkBatchOptions cfg.batch = none
  rest : cfg' = { cfg with protocol := cfg'.protocol, endpoint := cfg'.endpoint }

theorem validateExporter_ok_iff (cfg cfg' : ExporterSettings) :
    validateExporter around cfg = .ok cfg' ↔ Accepted around cfg cfg' := by
  have hheaders : ∀ protocol endpoint,
      validateHeaders { cfg with protocol := protocol, endpoint := endpoint } = .ok () ↔
        ∀ header ∈ cfg.headers,
          headerNameFault header.key protocol = none ∧ headerValueFault header.value = none := by
    intro protocol endpoint
    rw [validateHeaders, forM_ok_iff]
    simp only [validateHeader_ok_iff]
  unfold validateExporter
  rw [bind_ok_iff]
  constructor
  · rintro ⟨protocol, hprotocol, h⟩
    obtain ⟨endpoint, hendpoint, h⟩ := bind_ok_iff.mp h
    by_cases hpath : protocol = .grpc ∧ endpoint.path ≠ []
    · rw [if_pos hpath] at h
      cases h
    · rw [if_neg hpath] at h
      obtain ⟨⟨⟩, hinsecure, h⟩ := bind_ok_iff.mp h
      obtain ⟨⟨⟩, htls, h⟩ := bind_ok_iff.mp h
      obtain ⟨⟨⟩, hhead, h⟩ := bind_ok_iff.mp h
      cases hbatch : Sdk.checkBatchOptions cfg.batch with
      | some fault =>
          simp only [hbatch] at h
          cases h
      | none =>
          simp only [hbatch] at h
          cases h
          exact ⟨hprotocol, hendpoint, hpath, (checkInsecureAllowed_ok_iff _ _).mp hinsecure,
            (validateTlsMaterial_ok_iff _ _).mp htls, (hheaders _ _).mp hhead, hbatch, rfl⟩
  · rintro ⟨hprotocol, hendpoint, hpath, hinsecure, htls, hhead, hbatch, hrest⟩
    refine ⟨cfg'.protocol, hprotocol, bind_ok_iff.mpr ⟨cfg'.endpoint, hendpoint, ?_⟩⟩
    rw [if_neg hpath]
    refine bind_ok_iff.mpr ⟨(), (checkInsecureAllowed_ok_iff _ _).mpr hinsecure, ?_⟩
    refine bind_ok_iff.mpr ⟨(), (validateTlsMaterial_ok_iff _ _).mpr htls, ?_⟩
    refine bind_ok_iff.mpr ⟨(), (hheaders _ _).mpr hhead, ?_⟩
    simp only [hbatch]
    rw [hrest]
    rfl

end Microtel.Configuration
