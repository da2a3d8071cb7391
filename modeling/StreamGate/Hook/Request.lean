import Mathlib.Data.List.Infix
import Mathlib.Logic.Function.Basic
import StreamGate.Lib.Json
import StreamGate.Scheduler.TaskScheduler

/-!
# Hook requests

`ZlmHookRequest` and its reading from the JSON body of a hook, the decision of the use case and the
response made from it, and the routing of a request to the scheduler.  The JSON parser is a
parameter.
-/

namespace StreamGate.Hook

open StreamGate.Lib StreamGate.Task StreamGate.Scheduler

/-! ### Requests -/

inductive HookAction where
  | Publish | PublishDone | Play | PlayDone | StreamNoneReader | StreamNotFound | Unknown
  deriving DecidableEq, Repr

structure ZlmHookRequest where
  action : HookAction
  protocol : StreamProtocol
  app : String
  stream : String
  vhost : String
  client_id : String
  ip : String
  /-- The map of the parameters. -/
  params : String → Option String

namespace ZlmHookRequest

def stream_key (req : ZlmHookRequest) : String := req.vhost ++ "/" ++ req.app ++ "/" ++ req.stream

def get_token (req : ZlmHookRequest) : String := (req.params "token").getD ""

def parse_action (action_str : String) : HookAction :=
  if action_str = "on_publish" then .Publish
  else if action_str = "on_play" then .Play
  else if action_str = "on_publish_done" then .PublishDone
  else if action_str = "on_play_done" then .PlayDone
  else if action_str = "on_stream_none_reader" then .StreamNoneReader
  else .Unknown

/-- Unlike `Task.parseProtocol`, this one knows five protocols and only their lower case names. -/
def parse_protocol (schema_str : String) : StreamProtocol :=
  if schema_str = "rtmp" then .RTMP
  else if schema_str = "http-flv" then .HTTP_FLV
  else if schema_str = "hls" then .HLS
  else if schema_str = "rtsp" then .RTSP
  else if schema_str = "webrtc" then .WebRTC
  else .Unknown

/-- The loop of `parse_url_params` on the text from `pos` on. -/
def urlParams (text : List Char) (out : String → Option String) : String → Option String :=
  match _h : text.dropWhile (· ≠ '=') with
  | [] => out
  | _ :: rest =>
    -- the value ends at the next '&', and the next key starts after it
    let key := String.ofList (text.takeWhile (· ≠ '='))
    let value := String.ofList (rest.takeWhile (· ≠ '&'))
    urlParams (rest.dropWhile (· ≠ '&')).tail (Function.update out key (some value))
  termination_by text.length
  decreasing_by
    have h₁ := congrArg List.length _h
    have h₂ : (text.dropWhile (· ≠ '=')).length ≤ text.length := (List.dropWhile_sublist _).length_le
    have h₃ : (rest.dropWhile (· ≠ '&')).length ≤ rest.length := (List.dropWhile_sublist _).length_le
    rw [List.length_cons] at h₁
    rw [List.length_tail]
    omega

def parse_url_params (query : String) (out : String → Option String) : String → Option String :=
  urlParams query.toList out

/-- The string items of a parameter text that is JSON. -/
def readItems (params_json : Json) : String → Option String :=
  params_json.items.foldl
    (fun params (key, j) => match j with
      | .string s => Function.update params key (some s)
      | _ => params)
    fun _ => none

/-- A parameter text that is no JSON is read as URL parameters.  Only `json::parse_error` is caught here; a number out
of range is left to the handler around `from_json`. -/
def readParams (parse : String → Except ParseFault Json) (j : Json) : Option (String → Option String) :=
  match j.find "params" with
  | some (.string params_str) =>
    if params_str = "" then some fun _ => none
    else match parse params_str with
      | .ok params_json => some (readItems params_json)
      | .error .parse_error => some (parse_url_params params_str fun _ => none)
      | .error .out_of_range => none
  | _ => some fun _ => none

/-- Refused are a member of the wrong kind, a body that is no object, and a parameter text with a number out of range:
every member has a default, and `params` is ignored unless it is a text. -/
def from_json (parse : String → Except ParseFault Json) (j : Json) : Option ZlmHookRequest := do
  let action ← match j.find "action" with
    | some a => a.getString.map parse_action
    | none => some .Unknown
  let protocol ← j.value Json.getString "protocol" "rtmp"
  let schema_str ← j.value Json.getString "schema" protocol
  let app ← j.value Json.getString "app" "live"
  let stream ← j.value Json.getString "stream" ""
  let vhost ← j.value Json.getString "vhost" "__defaultVhost__"
  let client_id ← j.value Json.getString "id" ""
  let ip ← j.value Json.getString "ip" ""
  let params ← readParams parse j
  return { action, protocol := parse_protocol schema_str, app, stream, vhost, client_id, ip, params }

end ZlmHookRequest

/-! ### Decisions and responses -/

inductive ZlmHookResult where
  | SUCCESS | AUTH_DENIED | INVALID_FORMAT | UNSUPPORTED_ACTION | INTERNAL_ERROR | TIMEOUT
  | RESOURCE_NOT_READY
  deriving DecidableEq, Repr

structure ZlmHookResponse where
  code : ZlmHookResult
  message : String := ""
  deriving DecidableEq

inductive Outcome where
  | Allow | Deny | Defer
  deriving DecidableEq, Repr

structure HookDecision where
  outcome : Outcome
  reason : String
  deriving DecidableEq

namespace HookDecision

def allow : HookDecision := ⟨.Allow, "success"⟩

def deny (reason : String) : HookDecision := ⟨.Deny, reason⟩

/-- A refusal is one of authentication if its reason says so. -/
def to_response (d : HookDecision) : ZlmHookResponse :=
  match d.outcome with
  | .Allow => ⟨.SUCCESS, "success"⟩
  | .Defer => ⟨.TIMEOUT, "processing"⟩
  | .Deny =>
    if "auth".toList <:+: d.reason.toList ∨ "Identity".toList <:+: d.reason.toList ∨
        "not found".toList <:+: d.reason.toList then ⟨.AUTH_DENIED, d.reason⟩
    else ⟨.INTERNAL_ERROR, d.reason⟩

end HookDecision

/-- `HookUseCase::mapResult`. -/
def mapResult (res : SchedulerResult) : HookDecision :=
  if res.error = .SUCCESS then .allow else .deny res.message

/-! ### Routing -/

/-- The two kinds of exceptions that the session tells apart. -/
inductive Thrown where
  | json | std
  deriving DecidableEq, Repr

/-- What the scheduler does when a hook calls it: it throws, as a full thread pool or Redis makes
it do, or it returns. -/
inductive Call where
  | throws (e : Thrown)
  | returns
  deriving DecidableEq, Repr

/-- What has become of the callback when `routeHook` ends. -/
inductive Routed where
  /-- It was not called: `routeHook` threw. -/
  | threw (e : Thrown)
  /-- It was called in place. -/
  | called (resp : ZlmHookResponse)
  /-- It is with the thread pool, to be called later. -/
  | kept
  deriving DecidableEq

/-- `StreamTaskScheduler::onPublish` and `onPlay` up to the thread pool: a request with an empty
name is answered in place. -/
def submitRequest (hook : ZlmHookRequest) (call : Call) : Routed :=
  let r : Request :=
    { stream_name := hook.stream_key, client_id := hook.client_id, auth_token := hook.get_token }
  if ¬ validateRequest r then .called (mapResult ⟨.INTERNAL_ERROR, none, "参数缺失"⟩).to_response
  else match call with
    | .throws e => .threw e
    | .returns => .kept

/-- The end of a stream or of a player is handled in place. -/
def doneRequest (call : Call) : Routed :=
  match call with
  | .throws e => .threw e
  | .returns => .called HookDecision.allow.to_response

/-- `HookController::routeHook`. -/
def routeHook (hook : ZlmHookRequest) (call : Call) : Routed :=
  match hook.action with
  | .Publish | .Play => submitRequest hook call
  | .PublishDone | .StreamNoneReader | .PlayDone => doneRequest call
  | .StreamNotFound | .Unknown => .called ⟨.UNSUPPORTED_ACTION, "Unsupported action"⟩

end StreamGate.Hook
