import Mathlib.Data.List.Infix
import Microtel.Sdk.ConfigValidator

/-!
The codecs of the three signals over HTTP (`BuildWireCodec` and `BuildExporters`,
`src/sdk/sdk_builder.cpp`) and the path each of them sends its requests to.
-/

namespace Microtel.Configuration

open Concentrator Delimited Transport Wire

inductive Signal
  | traces | metrics | logs
  deriving DecidableEq, Repr

def kHttpMetricsPath : Bytes := ascii "/v1/metrics"
def kHttpLogsPath : Bytes := ascii "/v1/logs"

def toHeaderFields (kvs : List KeyValue) : List HeaderField :=
  kvs.filterMap fun kv =>
    match kv.value with
    | .string sv => some { name := kv.key, value := sv }
    | _ => none

def kGrpcMetricsPath : Bytes :=
  ascii "/opentelemetry.proto.collector.metrics.v1.MetricsService/Export"
def kGrpcLogsPath : Bytes := ascii "/opentelemetry.proto.collector.logs.v1.LogsService/Export"

structure GrpcWireCodecConfig where
  host : Bytes
  scheme : Bytes
  extraHeaders : List HeaderField
  /-- Empty: that of the traces. -/
  servicePath : Bytes
  compressionGzip : Bool
  maxDecompressedBytes : Nat

inductive WireCodec
  | http (codec : HttpWireCodec)
  | grpc (config : GrpcWireCodecConfig)

def hostPort (cfg : ExporterSettings) : Bytes :=
  cfg.endpoint.host ++ ascii ":" ++ portText cfg.endpoint.port

def buildHttpWireCodec (gzip : Gzip) (cfg : ExporterSettings) (extraHeaders : List HeaderField)
    (signalPath : Bytes) : HttpWireCodec where
  host := hostPort cfg
  scheme := cfg.endpoint.scheme
  path := cfg.endpoint.path
  signalPath := signalPath
  extraHeaders := extraHeaders
  compressionGzip := cfg.compressionGzip
  maxDecompressedBytes := cfg.maxDecompressedBytes
  gzip := gzip

def buildWireCodec (gzip : Gzip) (cfg : ExporterSettings) (extraHeaders : List HeaderField)
    (signalPath : Bytes) : WireCodec :=
  match cfg.protocol with
  | .grpc =>
      .grpc {
        host := hostPort cfg
        scheme := cfg.endpoint.scheme
        extraHeaders := extraHeaders
        servicePath := signalPath
        compressionGzip := cfg.compressionGzip
        maxDecompressedBytes := cfg.maxDecompressedBytes }
  | .http => .http (buildHttpWireCodec gzip cfg extraHeaders signalPath)

/-- What `BuildExporters` passes as the path of a signal; nothing for the traces. -/
def signalPathFor : Signal → Protocol → Bytes
  | .traces, _ => []
  | .metrics, .grpc => kGrpcMetricsPath
  | .metrics, .http => kHttpMetricsPath
  | .logs, .grpc => kGrpcLogsPath
  | .logs, .http => kHttpLogsPath

/-- The codecs of `BuildExporters`. -/
def buildExporters (gzip : Gzip) (cfg : ExporterSettings) (signal : Signal) : WireCodec :=
  buildWireCodec gzip cfg (toHeaderFields cfg.headers) (signalPathFor signal cfg.protocol)

/-! ### The path of a request -/

def kPathHeader : Bytes := ascii ":path"

/-- A codec over HTTP, and every request it builds has the path as its one `:path`. -/
def SendsPath : WireCodec → Bytes → Prop
  | .http codec, path =>
      ∀ contentLength compressed auth headers,
        codec.buildHeaders contentLength compressed auth = .ok headers →
          headers.filter (fun h => h.name = kPathHeader) =
            [{ name := kPathHeader, value := path }]
  | .grpc _, _ => False

theorem appendAuthHeader_path {headers sent : List HeaderField} {auth : Except Error (Option Bytes)}
    (h : HttpWireCodec.appendAuthHeader headers auth = .ok sent) :
    sent.filter (fun h => h.name = kPathHeader) =
      headers.filter fun h => h.name = kPathHeader := by
  unfold HttpWireCodec.appendAuthHeader at h
  cases auth with
  | error err => cases h
  | ok token =>
      cases token with
      | none =>
          cases h
          rfl
      | some token =>
          cases h
          simp [List.filter_append, kPathHeader, ascii]

theorem sendsPath_resolvePath {codec : HttpWireCodec}
    (hextra : ∀ h ∈ codec.extraHeaders, h.name ≠ kPathHeader) :
    SendsPath (.http codec) codec.resolvePath := by
  intro contentLength compressed auth headers hbuild
  have hnone : codec.extraHeaders.filter (fun h => h.name = kPathHeader) = [] := by
    rw [List.filter_eq_nil_iff]
    intro h hmem
    simpa using hextra h hmem
  rw [appendAuthHeader_path hbuild, List.filter_append, hnone]
  cases compressed with
  | true => simp [kPathHeader, ascii]
  | false => simp [kPathHeader, ascii]

theorem sendsPath_unique {codec : WireCodec} {path path' : Bytes} (h : SendsPath codec path)
    (h' : SendsPath codec path') : path = path' := by
  cases codec with
  | grpc config => exact h.elim
  | http codec =>
      have hsent := (h 0 false (.ok none) _ rfl).symm.trans (h' 0 false (.ok none) _ rfl)
      simpa using hsent

/-- A name that passed `Validate` is no pseudo-header. -/
theorem name_ne_path {name : Bytes} {protocol : Protocol}
    (h : headerNameFault name protocol = none) : name ≠ kPathHeader := by
  rintro rfl
  have htoken : Api.Baggage.isToken kPathHeader = false := by decide
  rw [headerNameFault, htoken] at h
  cases h

section Accepted

variable {around : Surroundings} {cfg cfg' : ExporterSettings}

theorem extraHeaders_ne_path (h : Accepted around cfg cfg') :
    ∀ field ∈ toHeaderFields cfg'.headers, field.name ≠ kPathHeader := by
  intro field hfield
  obtain ⟨header, hheader, hname⟩ := List.mem_filterMap.mp hfield
  have hkey : field.name = header.key := by
    cases hvalue : header.value with
    | string sv =>
        simp only [hvalue, Option.some.injEq] at hname
        rw [← hname]
    | _ => simp [hvalue] at hname
  have hsame : cfg'.headers = cfg.headers := by rw [h.rest]
  rw [hkey]
  exact name_ne_path (h.headers header (hsame ▸ hheader)).1

theorem sendsPath_signal (h : Accepted around cfg cfg') (hhttp : cfg'.protocol = .http)
    (gzip : Gzip) (signal : Signal) :
    SendsPath (buildExporters gzip cfg' signal)
      (buildHttpWireCodec gzip cfg' (toHeaderFields cfg'.headers)
        (signalPathFor signal .http)).resolvePath := by
  rw [buildExporters, hhttp, buildWireCodec, hhttp]
  exact sendsPath_resolvePath (extraHeaders_ne_path h)

end Accepted

/-! ### The base path -/

/-- The path part of an endpoint URL. -/
def pathPart (url : Bytes) : Bytes := (splitAuthorityPath (stripScheme url)).path

/-- Without trailing slashes. -/
def norm (path : Bytes) : Bytes := path.rdropWhile fun c => c = kSlash

/-- Two slashes in a row. -/
def EmptySegment (path : Bytes) : Prop := [kSlash, kSlash] <:+: path

/-- `/v1/` and the name of the signal. -/
def Signal.suffix : Signal → Bytes
  | .traces => HttpWireCodec.kV1TracesPath
  | .metrics => ascii "/v1/metrics"
  | .logs => ascii "/v1/logs"

/-- Of the path the parser drops a lone slash and nothing else. -/
theorem parseEndpointUrl_path {url : Bytes} {protocol : Protocol} {endpoint : ParsedEndpoint}
    (h : parseEndpointUrl url protocol = .ok endpoint) :
    endpoint.path = if pathPart url = [kSlash] then [] else pathPart url := by
  unfold parseEndpointUrl at h
  by_cases hempty : url = []
  · rw [if_pos hempty] at h
    cases h
  · rw [if_neg hempty] at h
    by_cases hscheme : extractScheme url = []
    · rw [if_pos hscheme] at h
      cases h
    · rw [if_neg hscheme] at h
      obtain ⟨resolved, -, h⟩ := bind_ok_iff.mp h
      by_cases hhost : (splitAuthorityPath (stripScheme url)).host = []
      · rw [if_pos hhost] at h
        cases h
      · rw [if_neg hhost] at h
        obtain ⟨port, -, h⟩ := bind_ok_iff.mp h
        cases h
        rfl

theorem emptySegment_append {b suffix : Bytes} (h : EmptySegment (b ++ suffix))
    (hlast : b.getLast? ≠ some kSlash) (hsuffix : ¬ EmptySegment suffix) : EmptySegment b := by
  unfold EmptySegment at *
  induction b with
  | nil => exact absurd h hsuffix
  | cons c b ih =>
      rcases List.infix_cons_iff.mp h with hprefix | hinfix
      · -- the two slashes stand at the front, both of them in `b`
        rw [List.cons_prefix_cons] at hprefix
        obtain ⟨rfl, hprefix⟩ := hprefix
        cases b with
        | nil => exact absurd rfl hlast
        | cons d b =>
            have hd : kSlash = d := (List.cons_prefix_cons.mp hprefix).1
            subst hd
            exact ⟨[], b, rfl⟩
      · have hlast' : b.getLast? ≠ some kSlash := by
          cases b with
          | nil => simp
          | cons d b => simpa using hlast
        exact List.infix_cons_iff.mpr (Or.inr (ih hinfix hlast'))

theorem suffix_noEmptySegment (signal : Signal) : ¬ EmptySegment signal.suffix := by
  unfold EmptySegment
  cases signal with
  | traces | metrics | logs => decide

theorem norm_of_last {b : Bytes} (h : b.getLast? ≠ some kSlash) : norm b = b := by
  unfold norm
  rw [List.rdropWhile_eq_self_iff]
  intro hne hslash
  refine h ?_
  rw [List.getLast?_eq_some_getLast hne, of_decide_eq_true hslash]

/-- What the paths of the three signals have in common: the base path `b`. -/
structure BasePathAgreement (codecs : Signal → WireCodec) (b : Bytes) : Prop where
  path : ∀ signal, SendsPath (codecs signal) (norm b ++ signal.suffix)
  segments : ∀ signal path, SendsPath (codecs signal) path → EmptySegment path → EmptySegment b

/-- What they are: metrics and logs have paths of their own, and only the traces go under
the base path. -/
structure SignalPaths (codecs : Signal → WireCodec) (b : Bytes) : Prop where
  metrics : SendsPath (codecs .metrics) Signal.metrics.suffix
  logs : SendsPath (codecs .logs) Signal.logs.suffix
  traces : b = [kSlash] ∨ b.getLast? ≠ some kSlash →
    SendsPath (codecs .traces) (norm b ++ Signal.traces.suffix)
  shared : b = [] ∨ b = [kSlash] →
    ∀ signal, SendsPath (codecs signal) (norm b ++ signal.suffix)
  segments : b = [kSlash] ∨ b.getLast? ≠ some kSlash →
    ∀ signal path, SendsPath (codecs signal) path → EmptySegment path → EmptySegment b

section Paths

variable {around : Surroundings} {cfg cfg' : ExporterSettings}

theorem resolvePath_traces (h : Accepted around cfg cfg') (gzip : Gzip)
    (extraHeaders : List HeaderField) :
    (buildHttpWireCodec gzip cfg' extraHeaders []).resolvePath =
      if pathPart cfg.endpointUrl = [kSlash] then Signal.traces.suffix
      else pathPart cfg.endpointUrl ++ Signal.traces.suffix := by
  have hpath := parseEndpointUrl_path h.endpoint
  have hbase : (buildHttpWireCodec gzip cfg' extraHeaders []).resolvePath =
      if cfg'.endpoint.path = [] ∨ cfg'.endpoint.path = [kSlash] then Signal.traces.suffix
      else cfg'.endpoint.path ++ Signal.traces.suffix := rfl
  rw [hbase, hpath]
  by_cases hslash : pathPart cfg.endpointUrl = [kSlash]
  · rw [if_pos hslash, if_pos (Or.inl rfl), if_pos hslash]
  · rw [if_neg hslash, if_neg hslash]
    by_cases hempty : pathPart cfg.endpointUrl = []
    · rw [if_pos (Or.inl hempty), hempty]
      rfl
    · rw [if_neg (not_or.mpr ⟨hempty, hslash⟩)]

theorem clean_of_none {b : Bytes} (h : b = [] ∨ b = [kSlash]) :
    b = [kSlash] ∨ b.getLast? ≠ some kSlash := by
  rcases h with h | h
  · exact Or.inr (by simp [h])
  · exact Or.inl h

section Http

variable (h : Accepted around cfg cfg') (hhttp : cfg'.protocol = .http) (gzip : Gzip)

include h hhttp

theorem sendsPath_metrics :
    SendsPath (buildExporters gzip cfg' .metrics) Signal.metrics.suffix :=
  sendsPath_signal h hhttp gzip .metrics

theorem sendsPath_logs : SendsPath (buildExporters gzip cfg' .logs) Signal.logs.suffix :=
  sendsPath_signal h hhttp gzip .logs

theorem sendsPath_traces :
    SendsPath (buildExporters gzip cfg' .traces)
      (if pathPart cfg.endpointUrl = [kSlash] then Signal.traces.suffix
        else pathPart cfg.endpointUrl ++ Signal.traces.suffix) := by
  have hsends := sendsPath_signal h hhttp gzip .traces
  rwa [signalPathFor, resolvePath_traces h] at hsends

variable (hb : pathPart cfg.endpointUrl = [kSlash] ∨
  (pathPart cfg.endpointUrl).getLast? ≠ some kSlash)

include hb

theorem sendsPath_traces_norm :
    SendsPath (buildExporters gzip cfg' .traces)
      (norm (pathPart cfg.endpointUrl) ++ Signal.traces.suffix) := by
  have hsends := sendsPath_traces h hhttp gzip
  by_cases hslash : pathPart cfg.endpointUrl = [kSlash]
  · rw [if_pos hslash] at hsends
    rw [hslash]
    exact hsends
  · rw [if_neg hslash] at hsends
    rwa [norm_of_last (hb.resolve_left hslash)]

/-- An empty segment of a `:path` is one of the base path. -/
theorem emptySegment_of_sends {signal : Signal} {path : Bytes}
    (hpath : SendsPath (buildExporters gzip cfg' signal) path) (hempty : EmptySegment path) :
    EmptySegment (pathPart cfg.endpointUrl) := by
  cases signal with
  | metrics =>
      rw [sendsPath_unique hpath (sendsPath_metrics h hhttp gzip)] at hempty
      exact absurd hempty (suffix_noEmptySegment .metrics)
  | logs =>
      rw [sendsPath_unique hpath (sendsPath_logs h hhttp gzip)] at hempty
      exact absurd hempty (suffix_noEmptySegment .logs)
  | traces =>
      rw [sendsPath_unique hpath (sendsPath_traces h hhttp gzip)] at hempty
      by_cases hslash : pathPart cfg.endpointUrl = [kSlash]
      · rw [if_pos hslash] at hempty
        exact absurd hempty (suffix_noEmptySegment .traces)
      · rw [if_neg hslash] at hempty
        exact emptySegment_append hempty (hb.resolve_left hslash) (suffix_noEmptySegment .traces)

omit hb

/-- Without a base path the three agree. -/
theorem sendsPath_shared
    (hnone : pathPart cfg.endpointUrl = [] ∨ pathPart cfg.endpointUrl = [kSlash])
    (signal : Signal) :
    SendsPath (buildExporters gzip cfg' signal)
      (norm (pathPart cfg.endpointUrl) ++ signal.suffix) := by
  have hnorm : norm (pathPart cfg.endpointUrl) = [] := by
    rcases hnone with hnone | hnone
    · rw [hnone]
      rfl
    · rw [hnone]
      rfl
  cases signal with
  | metrics =>
      rw [hnorm]
      exact sendsPath_metrics h hhttp gzip
  | logs =>
      rw [hnorm]
      exact sendsPath_logs h hhttp gzip
  | traces => exact sendsPath_traces_norm h hhttp gzip (clean_of_none hnone)

end Http

/-- The paths of the three signals, for every accepted endpoint over HTTP. -/
theorem signalPaths (gzip : Gzip) (hvalid : validateExporter around cfg = .ok cfg')
    (hhttp : cfg'.protocol = .http) :
    SignalPaths (buildExporters gzip cfg') (pathPart cfg.endpointUrl) := by
  have h := (validateExporter_ok_iff around cfg cfg').mp hvalid
  constructor
  · exact sendsPath_metrics h hhttp gzip
  · exact sendsPath_logs h hhttp gzip
  · exact sendsPath_traces_norm h hhttp gzip
  · exact fun hb => sendsPath_shared h hhttp gzip hb
  · intro hb signal path
    exact emptySegment_of_sends h hhttp gzip hb

/-- `http://collector/otel`. -/
def otelSettings : ExporterSettings := { endpointUrl := ascii "http://collector/otel" }

def otelAccepted : ExporterSettings :=
  { otelSettings with
    endpoint := ⟨kSchemeHttp, ascii "collector", kDefaultPortHttp, ascii "/otel"⟩ }

theorem validate_otel :
    validateExporter { isRegularFile := fun _ => false } otelSettings = .ok otelAccepted := rfl

/-- A zlib that fails. -/
def noGzip : Gzip where
  compress _ := none
  decompress _ _ := .error .corrupt

theorem signalPaths_otel :
    SignalPaths (buildExporters noGzip otelAccepted) (pathPart otelSettings.endpointUrl) :=
  signalPaths noGzip validate_otel rfl

/-- The metrics do not go under `/otel`. -/
theorem metrics_offBasePath :
    ¬ ∀ (gzip : Gzip) (around : Surroundings) (cfg cfg' : ExporterSettings),
      validateExporter around cfg = .ok cfg' → cfg'.protocol = .http →
        BasePathAgreement (buildExporters gzip cfg') (pathPart cfg.endpointUrl) := by
  intro h
  have hagrees := (h noGzip _ _ _ validate_otel rfl).path .metrics
  have haccepted := (validateExporter_ok_iff _ _ _).mp validate_otel
  have hsame := sendsPath_unique hagrees (sendsPath_metrics haccepted rfl noGzip)
  revert hsame
  decide

end Paths

end Microtel.Configuration
