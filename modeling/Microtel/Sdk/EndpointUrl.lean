import Microtel.Lib.Decimal
import Microtel.Lib.Delimited
import Microtel.Sdk.ResourceBuilder
import Microtel.Wire.HttpClassification

/-!
Endpoint URLs: the splitter of the configuration (`ParseEndpointUrl`,
`src/common/config/config_validator.cpp`), the printer of `BuildConnectOptions`
(`src/sdk/sdk_builder.cpp`) and the splitter of the transport (`ParseEndpoint`,
`src/transport/http2_transport.cpp`).
-/

namespace Microtel.Configuration

open Concentrator Delimited Wire

inductive Protocol
  | http | grpc
  deriving DecidableEq, Repr

/-- The components of an endpoint URL; the scheme is `https` or `http`. -/
structure ParsedEndpoint where
  scheme : Bytes := []
  host : Bytes := []
  port : UInt16 := 0
  path : Bytes := []
  deriving DecidableEq

def kSchemeHttps : Bytes := ascii "https"
def kSchemeHttp : Bytes := ascii "http"
def kSchemeGrpc : Bytes := ascii "grpc"
def kSchemeGrpcs : Bytes := ascii "grpcs"
def kSchemeSep : Bytes := ascii "://"

def kDefaultPortGrpc : UInt16 := 4317
def kDefaultPortHttp : UInt16 := 4318
def kPortMax : UInt32 := 65535

/-- The slash. -/
def kSlash : UInt8 := 0x2F
/-- The colon. -/
def kColon : UInt8 := 0x3A

/-! ### The configuration's splitter -/

/-- `ExtractScheme`, empty on failure. -/
def extractScheme (url : Bytes) : Bytes := ((cutAt kSchemeSep url).map Prod.fst).getD []

/-- `StripScheme`, of a URL that has one. -/
def stripScheme (url : Bytes) : Bytes := ((cutAt kSchemeSep url).map Prod.snd).getD []

structure AuthorityPath where
  host : Bytes
  /-- Empty if absent. -/
  portStr : Bytes := []
  path : Bytes
  deriving DecidableEq

def splitAuthorityPath (authorityAndPath : Bytes) : AuthorityPath :=
  let (authority, rest) := cut kSlash authorityAndPath
  let path := (rest.map (kSlash :: ·)).getD []
  match cutLast kColon authority with
  | (_, none) => { host := authority, path := path }
  | (host, some portStr) => { host := host, portStr := portStr, path := path }

def endpointError (message : Bytes) : ConfigError where
  kind := .endpointMalformed
  field := ascii "exporter.endpoint"
  message := message

def defaultPort : Protocol → UInt16
  | .grpc => kDefaultPortGrpc
  | .http => kDefaultPortHttp

def parsePort (portStr : Bytes) (protocol : Protocol) : Except ConfigError UInt16 :=
  if portStr = [] then .ok (defaultPort protocol)
  else
    match fromCharsUInt32 portStr with
    | some (parsed, []) =>
        if kPortMax < parsed ∨ parsed = 0 then
          .error (endpointError (ascii "invalid port in endpoint URL"))
        else .ok parsed.toUInt16
    | _ => .error (endpointError (ascii "invalid port in endpoint URL"))

/-- The scheme that says whether TLS is on. -/
def resolveScheme (scheme : Bytes) : Except ConfigError Bytes :=
  if scheme = kSchemeHttps ∨ scheme = kSchemeGrpcs then .ok kSchemeHttps
  else if scheme = kSchemeHttp ∨ scheme = kSchemeGrpc then .ok kSchemeHttp
  else .error (endpointError (ascii "unsupported scheme: " ++ scheme))

def parseEndpointUrl (url : Bytes) (protocol : Protocol) : Except ConfigError ParsedEndpoint :=
  if url = [] then .error (endpointError (ascii "endpoint URL is empty"))
  else if extractScheme url = [] then
    .error (endpointError
      (ascii "endpoint URL missing scheme (expected https:// or http://)"))
  else do
    let resolvedScheme ← resolveScheme (extractScheme url)
    let ap := splitAuthorityPath (stripScheme url)
    if ap.host = [] then .error (endpointError (ascii "endpoint URL has empty host"))
    else do
      let port ← parsePort ap.portStr protocol
      -- only a lone slash is stripped
      let path := if ap.path = [kSlash] then [] else ap.path
      return { scheme := resolvedScheme, host := ap.host, port := port, path := path }

/-! ### The transport's splitter -/

/-- A port in decimal. -/
def portText (port : UInt16) : Bytes := ascii (toString port.toNat)

/-- The `endpoint` of `BuildConnectOptions`. -/
def buildConnectEndpoint (endpoint : ParsedEndpoint) : Bytes :=
  endpoint.scheme ++ kSchemeSep ++ endpoint.host ++ [kColon] ++ portText endpoint.port

structure EndpointInfo where
  host : Bytes
  port : Bytes
  useTls : Bool := true
  deriving DecidableEq

/-- The part of `ParseEndpoint` behind the scheme. -/
def splitHostPort (sv : Bytes) (useTls : Bool) : EndpointInfo :=
  match cutLast kColon sv with
  | (_, none) =>
      { host := sv, port := if useTls then ascii "443" else ascii "80", useTls := useTls }
  | (host, some port) => { host := host, port := port, useTls := useTls }

def parseEndpoint (endpoint : Bytes) (insecure : Bool) : Except Transport.Error EndpointInfo :=
  if endpoint = [] then .error { kind := .network, message := "empty endpoint" }
  else
    let info :=
      if kSchemeHttps ++ kSchemeSep <+: endpoint then
        splitHostPort (endpoint.drop (kSchemeHttps ++ kSchemeSep).length) true
      else if kSchemeHttp ++ kSchemeSep <+: endpoint then
        splitHostPort (endpoint.drop (kSchemeHttp ++ kSchemeSep).length) false
      else splitHostPort endpoint (!insecure)
    if info.host = [] ∨ info.port = [] then
      .error { kind := .network, message := "malformed endpoint" }
    else .ok info

/-! ### URLs by their parts -/

inductive Scheme
  | http | https | grpc | grpcs
  deriving DecidableEq, Repr

namespace Scheme

def text : Scheme → Bytes
  | .http => kSchemeHttp
  | .https => kSchemeHttps
  | .grpc => kSchemeGrpc
  | .grpcs => kSchemeGrpcs

def useTls : Scheme → Bool
  | .http | .grpc => false
  | .https | .grpcs => true

def resolved (s : Scheme) : Bytes := if s.useTls then kSchemeHttps else kSchemeHttp

theorem resolveScheme_text (s : Scheme) : resolveScheme s.text = .ok s.resolved := by
  cases s with
  | http | https | grpc | grpcs => decide +kernel

theorem colon_notMem_text (s : Scheme) : kColon ∉ s.text := by
  cases s with
  | http | https | grpc | grpcs => decide

theorem text_ne_nil (s : Scheme) : s.text ≠ [] := by
  cases s with
  | http | https | grpc | grpcs => decide

end Scheme

/-- A registered name or an IPv4 address, without its grammar: not empty, no colon, no
slash. An IPv6 address in brackets, likewise: a colon, no slash. -/
inductive Host
  | name (text : Bytes) (nonempty : text ≠ []) (noColon : kColon ∉ text)
      (noSlash : kSlash ∉ text)
  | ipv6 (address : Bytes) (colon : kColon ∈ address) (noSlash : kSlash ∉ address)

namespace Host

def text : Host → Bytes
  | .name text _ _ _ => text
  | .ipv6 address _ _ => ascii "[" ++ address ++ ascii "]"

def bracketed : Host → Bool
  | .name .. => false
  | .ipv6 .. => true

theorem text_ne_nil (h : Host) : h.text ≠ [] := by
  cases h with
  | name text nonempty => exact nonempty
  | ipv6 address => simp [text, ascii]

theorem slash_notMem_text (h : Host) : kSlash ∉ h.text := by
  cases h with
  | name text _ _ noSlash => exact noSlash
  | ipv6 address colon noSlash =>
      rw [kSlash] at noSlash
      simp [text, ascii, kSlash, noSlash]

end Host

/-- Digits that spell a number from 1 to 65535. -/
structure PortDigits where
  text : Bytes
  value : Nat
  spelled : DecimalText text value
  pos : 0 < value
  le : value ≤ 65535

structure EndpointUrl where
  scheme : Scheme
  host : Host
  port : Option PortDigits
  path : Bytes
  absolute : path ≠ [] → path.head? = some kSlash

namespace EndpointUrl

variable (u : EndpointUrl)

def portSuffix : Bytes := (u.port.map fun p => kColon :: p.text).getD []

def text : Bytes := u.scheme.text ++ kSchemeSep ++ (u.host.text ++ u.portSuffix ++ u.path)

/-- A lone slash counts as no path. -/
def basePath : Bytes := if u.path = [kSlash] then [] else u.path

def portNumber (protocol : Protocol) : UInt16 :=
  (u.port.map fun p => UInt16.ofNat p.value).getD (defaultPort protocol)

/-- What the two splitters and the printer make of the URL. -/
structure SplitsExactly (protocol : Protocol) (endpoint : ParsedEndpoint) : Prop where
  accepted : parseEndpointUrl u.text protocol = .ok endpoint
  host : endpoint.host = u.host.text
  port : endpoint.port = u.portNumber protocol
  path : endpoint.path = u.basePath
  reparsed : ∀ insecure, parseEndpoint (buildConnectEndpoint endpoint) insecure = .ok
    { host := u.host.text, port := portText (u.portNumber protocol), useTls := u.scheme.useTls }

/-! ### Splitting -/

theorem cutAt_text :
    cutAt kSchemeSep u.text = some (u.scheme.text, u.host.text ++ u.portSuffix ++ u.path) := by
  have hsep : kSchemeSep = kColon :: ascii "//" := rfl
  rw [text, List.append_assoc, hsep]
  exact cutAt_append u.scheme.colon_notMem_text _

theorem extractScheme_text : extractScheme u.text = u.scheme.text := by
  rw [extractScheme, cutAt_text]
  rfl

theorem stripScheme_text : stripScheme u.text = u.host.text ++ u.portSuffix ++ u.path := by
  rw [stripScheme, cutAt_text]
  rfl

end EndpointUrl

theorem splitAuthorityPath_append {authority path : Bytes} (hauthority : kSlash ∉ authority)
    (hpath : path ≠ [] → path.head? = some kSlash) :
    splitAuthorityPath (authority ++ path) =
      match cutLast kColon authority with
      | (_, none) => { host := authority, path := path }
      | (host, some portStr) => { host := host, portStr := portStr, path := path } := by
  unfold splitAuthorityPath
  cases path with
  | nil =>
      rw [List.append_nil, cut_of_notMem hauthority]
      rfl
  | cons c path =>
      have hslash : c = kSlash := Option.some.inj (hpath (List.cons_ne_nil c path))
      rw [hslash, cut_append hauthority]
      rfl

/-! ### Ports -/

theorem decimal_ne {c : UInt8} (h : isDecimal c = true) : c ≠ kSlash ∧ c ≠ kColon := by
  constructor
  · rintro rfl
    revert h
    decide
  · rintro rfl
    revert h
    decide

namespace PortDigits

variable (p : PortDigits)

theorem slash_notMem : kSlash ∉ p.text :=
  fun hmem => (decimal_ne (p.spelled.digits _ hmem)).1 rfl

theorem colon_notMem : kColon ∉ p.text :=
  fun hmem => (decimal_ne (p.spelled.digits _ hmem)).2 rfl

theorem parsePort_text (protocol : Protocol) :
    parsePort p.text protocol = .ok (UInt16.ofNat p.value) := by
  have hpos := p.pos
  have hle := p.le
  have hlt : p.value < UInt32.size := lt_of_le_of_lt hle (by decide)
  have hnat : (UInt32.ofNat p.value).toNat = p.value := UInt32.toNat_ofNat_of_lt' hlt
  have hchars : fromCharsUInt32 p.text = some (UInt32.ofNat p.value, []) := by
    rw [fromCharsUInt32_whole_iff, hnat]
    exact p.spelled
  have hrange : ¬ (kPortMax < UInt32.ofNat p.value ∨ UInt32.ofNat p.value = 0) := by
    rw [UInt32.lt_iff_toNat_lt, ← UInt32.toNat_inj, hnat]
    simp only [kPortMax, UInt32.reduceToNat, UInt32.toNat_zero]
    omega
  rw [parsePort, if_neg p.spelled.nonempty, hchars]
  dsimp only
  rw [if_neg hrange]
  congr 1
  rw [← UInt16.toNat_inj, UInt32.toNat_toUInt16, hnat]
  rfl

end PortDigits

/-- A port that does not end in a digit is refused. -/
theorem parsePort_of_last {portStr : Bytes} {last : UInt8} (hlast : isDecimal last = false)
    (protocol : Protocol) :
    parsePort (portStr ++ [last]) protocol =
      .error (endpointError (ascii "invalid port in endpoint URL")) := by
  rw [parsePort, if_neg (by simp)]
  rcases hchars : fromCharsUInt32 (portStr ++ [last]) with _ | ⟨parsed, _ | rest⟩
  · rfl
  · have htext := (fromCharsUInt32_whole_iff _ _).mp hchars
    have hdigit := htext.digits last (by simp)
    rw [hlast] at hdigit
    cases hdigit
  · rfl

theorem digit_portText (port : UInt16) : ∀ c ∈ portText port, isDecimal c = true := by
  intro c hc
  obtain ⟨hlow, hhigh⟩ := Decimal.natText_digits port.toNat c hc
  simp only [isDecimal, Bool.and_eq_true, decide_eq_true_eq, UInt8.le_iff_toNat_le]
  exact ⟨hlow, hhigh⟩

theorem portText_ne_nil (port : UInt16) : portText port ≠ [] :=
  Decimal.natText_ne_nil port.toNat

namespace EndpointUrl

variable (u : EndpointUrl)

/-! ### The transport's side -/

theorem splitHostPort_append (host : Bytes) (port : UInt16) (useTls : Bool) :
    splitHostPort (host ++ [kColon] ++ portText port) useTls =
      { host := host, port := portText port, useTls := useTls } := by
  have hcolon : kColon ∉ portText port :=
    fun hmem => (decimal_ne (digit_portText port _ hmem)).2 rfl
  rw [splitHostPort, List.append_assoc, List.singleton_append, cutLast_append host hcolon]

theorem parseEndpoint_build {endpoint : ParsedEndpoint} {s : Scheme}
    (hscheme : endpoint.scheme = s.resolved) (hhost : endpoint.host ≠ []) (insecure : Bool) :
    parseEndpoint (buildConnectEndpoint endpoint) insecure = .ok
      { host := endpoint.host, port := portText endpoint.port, useTls := s.useTls } := by
  have hbuild : buildConnectEndpoint endpoint =
      s.resolved ++ kSchemeSep ++ (endpoint.host ++ [kColon] ++ portText endpoint.port) := by
    rw [buildConnectEndpoint, hscheme]
    simp
  have hsome : buildConnectEndpoint endpoint ≠ [] := by
    rw [buildConnectEndpoint]
    simp
  rw [parseEndpoint, if_neg hsome, hbuild]
  cases htls : s.useTls with
  | true =>
      have hresolved : s.resolved = kSchemeHttps := by rw [Scheme.resolved, htls, if_pos rfl]
      rw [hresolved, if_pos (List.prefix_append _ _), List.drop_left, splitHostPort_append]
      dsimp only
      rw [if_neg (by simp [hhost, portText_ne_nil])]
  | false =>
      have hresolved : s.resolved = kSchemeHttp := by
        rw [Scheme.resolved, htls, if_neg Bool.false_ne_true]
      -- the two schemes differ at the fifth letter, an `s` against the colon
      have hhttps : ¬ kSchemeHttps ++ kSchemeSep <+: kSchemeHttp ++ kSchemeSep ++
          (endpoint.host ++ [kColon] ++ portText endpoint.port) := by
        simp [kSchemeHttps, kSchemeHttp, kSchemeSep, ascii]
      rw [hresolved, if_neg hhttps, if_pos (List.prefix_append _ _), List.drop_left,
        splitHostPort_append]
      dsimp only
      rw [if_neg (by simp [hhost, portText_ne_nil])]

/-! ### The configuration's side -/

theorem slash_notMem_portSuffix : kSlash ∉ u.portSuffix := by
  unfold portSuffix
  cases u.port with
  | none => simp
  | some p =>
      have hne : kSlash ≠ kColon := by decide
      simp [p.slash_notMem, hne]

theorem split_text :
    splitAuthorityPath (stripScheme u.text) =
      match cutLast kColon (u.host.text ++ u.portSuffix) with
      | (_, none) => { host := u.host.text ++ u.portSuffix, path := u.path }
      | (host, some portStr) => { host := host, portStr := portStr, path := u.path } := by
  have hauthority : kSlash ∉ u.host.text ++ u.portSuffix := by
    rw [List.mem_append]
    exact not_or.mpr ⟨u.host.slash_notMem_text, u.slash_notMem_portSuffix⟩
  rw [stripScheme_text, splitAuthorityPath_append hauthority u.absolute]

/-- Up to the authority every URL passes. -/
theorem parse_text (protocol : Protocol) :
    parseEndpointUrl u.text protocol =
      let ap := splitAuthorityPath (stripScheme u.text)
      if ap.host = [] then .error (endpointError (ascii "endpoint URL has empty host"))
      else (parsePort ap.portStr protocol).map fun port =>
        ⟨u.scheme.resolved, ap.host, port, if ap.path = [kSlash] then [] else ap.path⟩ := by
  have hurl : u.text ≠ [] := by
    simp [text, u.scheme.text_ne_nil]
  have hscheme : extractScheme u.text ≠ [] := by
    rw [extractScheme_text]
    exact u.scheme.text_ne_nil
  rw [parseEndpointUrl, if_neg hurl, if_neg hscheme, extractScheme_text,
    u.scheme.resolveScheme_text]
  dsimp only [bind, Except.bind]
  split
  · rfl
  · cases parsePort (splitAuthorityPath (stripScheme u.text)).portStr protocol with
    | error err => rfl
    | ok port => rfl

/-- Where the authority splits into the host and the port, so does the URL. -/
theorem splitsExactly_of_split {protocol : Protocol} {portStr : Bytes}
    (hsplit : splitAuthorityPath (stripScheme u.text) =
      { host := u.host.text, portStr := portStr, path := u.path })
    (hport : parsePort portStr protocol = .ok (u.portNumber protocol)) :
    ∃ endpoint, u.SplitsExactly protocol endpoint := by
  refine ⟨⟨u.scheme.resolved, u.host.text, u.portNumber protocol, u.basePath⟩, ?_, rfl, rfl,
    rfl, ?_⟩
  · rw [parse_text, hsplit]
    dsimp only
    rw [if_neg u.host.text_ne_nil, hport]
    rfl
  · intro insecure
    exact parseEndpoint_build rfl u.host.text_ne_nil insecure

/-- A port makes the last colon the one before it. -/
theorem splitsExactly_of_port {p : PortDigits} (hp : u.port = some p) (protocol : Protocol) :
    ∃ endpoint, u.SplitsExactly protocol endpoint := by
  have hsuffix : u.portSuffix = kColon :: p.text := by rw [portSuffix, hp]; rfl
  have hnumber : u.portNumber protocol = UInt16.ofNat p.value := by rw [portNumber, hp]; rfl
  have hsplit : splitAuthorityPath (stripScheme u.text) = ⟨u.host.text, p.text, u.path⟩ := by
    rw [split_text, hsuffix, cutLast_append _ p.colon_notMem]
  refine u.splitsExactly_of_split hsplit ?_
  rw [p.parsePort_text, hnumber]

theorem splitsExactly_of_name {name : Bytes} {hne hcolon hslash}
    (hhost : u.host = .name name hne hcolon hslash) (hp : u.port = none) (protocol : Protocol) :
    ∃ endpoint, u.SplitsExactly protocol endpoint := by
  have hsuffix : u.portSuffix = [] := by rw [portSuffix, hp]; rfl
  have hnumber : u.portNumber protocol = defaultPort protocol := by rw [portNumber, hp]; rfl
  have hnone : kColon ∉ u.host.text := by rw [hhost]; exact hcolon
  have hsplit : splitAuthorityPath (stripScheme u.text) = ⟨u.host.text, [], u.path⟩ := by
    rw [split_text, hsuffix, List.append_nil, cutLast_of_notMem hnone]
  refine u.splitsExactly_of_split hsplit ?_
  rw [parsePort, if_pos rfl, hnumber]

/-- Without a port the last colon of the address is taken for the one before a port, and
the bracket for the end of that port. -/
theorem refused_of_ipv6 {address : Bytes} {hcolon hslash}
    (hhost : u.host = .ipv6 address hcolon hslash) (hp : u.port = none) (protocol : Protocol) :
    parseEndpointUrl u.text protocol =
      .error (endpointError (ascii "invalid port in endpoint URL")) := by
  have hsuffix : u.portSuffix = [] := by rw [portSuffix, hp]; rfl
  obtain ⟨before, after, haddress, hlast⟩ := exists_last hcolon
  have htext : u.host.text = ascii "[" ++ before ++ kColon :: (after ++ ascii "]") := by
    rw [hhost, Host.text, haddress]
    simp
  have hafter : kColon ∉ after ++ ascii "]" := by
    have hbracket : kColon ∉ ascii "]" := by decide
    rw [List.mem_append]
    exact not_or.mpr ⟨hlast, hbracket⟩
  rw [parse_text, split_text, hsuffix, List.append_nil, htext, cutLast_append _ hafter]
  dsimp only
  rw [if_neg (by simp [ascii])]
  have hbracket : isDecimal 0x5D = false := by decide
  have hport : parsePort (after ++ ascii "]") protocol =
      .error (endpointError (ascii "invalid port in endpoint URL")) :=
    parsePort_of_last hbracket protocol
  rw [hport]
  rfl

/-- An endpoint URL goes through both splitters and the printer unchanged, unless it names a
bracketed address and leaves the port out. -/
theorem splitsExactly_iff (protocol : Protocol) :
    (∃ endpoint, u.SplitsExactly protocol endpoint) ↔
      (u.port.isSome ∨ u.host.bracketed = false) := by
  cases hp : u.port with
  | some p => simpa using u.splitsExactly_of_port hp protocol
  | none =>
      cases hhost : u.host with
      | name text hne hcolon hslash =>
          simpa [Host.bracketed] using u.splitsExactly_of_name hhost hp protocol
      | ipv6 address hcolon hslash =>
          constructor
          · rintro ⟨endpoint, hsplits⟩
            have hrefused := u.refused_of_ipv6 hhost hp protocol
            rw [hsplits.accepted] at hrefused
            cases hrefused
          · simp [Host.bracketed]

/-- `http://[::1]`. -/
def loopback : EndpointUrl where
  scheme := .http
  host := .ipv6 (ascii "::1") (by decide) (by decide)
  port := none
  path := []
  absolute h := absurd rfl h

theorem loopback_refused :
    ¬ ∀ (u : EndpointUrl) (protocol : Protocol),
      ∃ endpoint, u.SplitsExactly protocol endpoint := by
  intro h
  obtain ⟨endpoint, hsplits⟩ := h loopback .http
  have hrefused := loopback.refused_of_ipv6 rfl rfl .http
  rw [hsplits.accepted] at hrefused
  cases hrefused

end EndpointUrl

end Microtel.Configuration
