import StreamGate.Lib.Runs
import StreamGate.Hook.Request

/-!
# Sessions

`HookSession`, one connection on which requests are read and answered one after the other.  A
response is written at once (`/metrics`, `/health`, errors), or by the callback of a hook, which
may be called later and from another thread and therefore goes through the strand.  The flag
`_responded` lets one callback through.  It belongs to the session and is never cleared.

A run of a session is a list of events: a read completes, a callback is called, the strand runs
what was posted to it, a write completes.  The requests are those that reads bring; what becomes of
a request that comes while another one is handled is in `Hook.Line`.
-/

namespace StreamGate.Hook

open StreamGate.Lib StreamGate.Scheduler

/-! ### HTTP -/

inductive Verb where
  | get | post | other
  deriving DecidableEq, Repr

/-- A parsed request.  The defaults are those of an empty one. -/
structure HttpRequest where
  version : ℕ := 11
  method : Verb := .other
  target : String := ""
  keep_alive : Bool := true
  body : String := ""
  deriving DecidableEq

/-- The path of the target: what stands before the query. -/
def HttpRequest.path (r : HttpRequest) : String := String.ofList (r.target.toList.takeWhile (· ≠ '?'))

/-- The body of a response: one of the two reports, or the result of a hook. -/
inductive Body where
  | metrics
  | health
  | result (code : ℕ) (msg : String)
  deriving DecidableEq, Repr

structure HttpResponse where
  version : ℕ
  status : ℕ
  keep_alive : Bool
  body : Body
  deriving DecidableEq

def map_path_to_action (path : String) : HookAction :=
  if path = "/index/hook/on_publish" then .Publish
  else if path = "/index/hook/on_play" then .Play
  else if path = "/index/hook/on_publish_done" then .PublishDone
  else if path = "/index/hook/on_play_done" then .PlayDone
  else if path = "/index/hook/on_stream_none_reader" then .StreamNoneReader
  else if path = "/index/hook/on_stream_not_found" then .StreamNotFound
  else .Unknown

/-- The HTTP status and the code in the body. -/
def map_to_http : ZlmHookResult → ℕ × ℕ
  | .SUCCESS => (200, 0)
  | .AUTH_DENIED => (200, 1)
  | .INVALID_FORMAT => (400, 2)
  | .UNSUPPORTED_ACTION => (400, 3)
  | .INTERNAL_ERROR => (200, 4)
  | .TIMEOUT => (504, 5)
  | .RESOURCE_NOT_READY => (503, 6)

/-! ### The session -/

/-- A call of `send_response` on the strand, posted for the request `origin`. -/
structure Posted where
  origin : ℕ
  http_status : ℕ
  business_code : ℕ
  message : String
  deriving DecidableEq

/-- A response to the request `origin`. -/
structure Write where
  origin : ℕ
  response : HttpResponse
  deriving DecidableEq

/-- A session and what surrounds it.  Requests are numbered from 0 in the order of their reads. -/
structure Session where
  /-- What the reads to come will bring, and what the scheduler will do when it is called for it. -/
  sent : List (HttpRequest × Call)
  /-- A read is under way. -/
  reading : Bool := false
  /-- `_request`. -/
  request : HttpRequest := {}
  /-- `_responded`. -/
  responded : Bool := false
  /-- What the strand has yet to run. -/
  posted : List Posted := []
  /-- The writes under way. -/
  writing : List Write := []
  /-- The callbacks that the thread pool has. -/
  kept : List ℕ := []
  /-- Those of them that have not been called. -/
  waiting : List ℕ := []
  /-- How many requests have been read. -/
  delivered : ℕ := 0
  /-- The responses written, in order. -/
  written : List Write := []
  deriving DecidableEq

namespace Session

def do_read (s : Session) : Session := { s with request := {}, reading := true }

/-- `HookSession::start`. -/
def start (rs : List (HttpRequest × Call)) : Session := do_read { sent := rs }

def async_write (origin : ℕ) (response : HttpResponse) (s : Session) : Session :=
  { s with writing := s.writing ++ [⟨origin, response⟩] }

/-- The version and the keep-alive flag are those of the request the session holds when the
response is sent. -/
def send_response (origin http_status business_code : ℕ) (message : String) (s : Session) : Session :=
  s.async_write origin
    ⟨s.request.version, http_status, s.request.keep_alive, .result business_code message⟩

/-- The two reports, which are written without `send_response`. -/
def send_report (origin : ℕ) (body : Body) (s : Session) : Session :=
  s.async_write origin ⟨s.request.version, 200, s.request.keep_alive, body⟩

/-- The callback handed to `routeHook`. -/
def callback (origin : ℕ) (resp : ZlmHookResponse) (s : Session) : Session :=
  if s.responded then s
  else
    let (h_status, b_code) := map_to_http resp.code
    { s with responded := true, posted := s.posted ++ [⟨origin, h_status, b_code, resp.message⟩] }

/-- The callback of a request goes to the thread pool. -/
def keep_callback (origin : ℕ) (s : Session) : Session :=
  { s with kept := origin :: s.kept, waiting := origin :: s.waiting }

/-- The end of a write.  The buffer, which is emptied here, is in `Line.consume`. -/
def on_write (keep_alive : Bool) (s : Session) : Session := if keep_alive then s.do_read else s

/-- What `handle_request` does with a hook, the call of the controller included. -/
def handle_hook (parse : String → Except ParseFault Json) (action : HookAction) (origin : ℕ) (call : Call)
    (s : Session) : Session :=
  match parse s.request.body with
  | .error _ => s.send_response origin 400 2 "Protocol format error"
  | .ok j =>
    match ZlmHookRequest.from_json parse j with
    | none => s.send_response origin 400 2 "Invalid hook format"
    | some hook =>
      match routeHook { hook with action := action } call with
      | .threw .json => s.send_response origin 400 2 "Protocol format error"
      | .threw .std =>
        let (h_status, b_code) := map_to_http .INTERNAL_ERROR
        s.send_response origin h_status b_code "Internal service error"
      | .called resp => s.callback origin resp
      | .kept => s.keep_callback origin

def handle_request (parse : String → Except ParseFault Json) (origin : ℕ) (call : Call) (s : Session) : Session :=
  let path := s.request.path
  if s.request.method = .get then
    if path = "/metrics" then s.send_report origin .metrics
    else if path = "/health" then s.send_report origin .health
    else s.send_response origin 404 999 "Not found"
  else if s.request.method ≠ .post then s.send_response origin 405 999 "Method not allowed"
  else
    let action := map_path_to_action path
    if action = .Unknown then s.send_response origin 404 999 "Not found"
    else s.handle_hook parse action origin call

end Session

/-! ### Runs -/

inductive Event where
  /-- The read under way completes with the next request. -/
  | read
  /-- The thread pool calls a callback it has, with a result of the scheduler. -/
  | callback (i : ℕ) (res : SchedulerResult)
  /-- The strand runs the oldest handler posted to it. -/
  | strand
  /-- The oldest write under way completes. -/
  | wrote

namespace Session

/-- A read completes with the request `r`. -/
def deliver (r : HttpRequest) (sent : List (HttpRequest × Call)) (s : Session) : Session :=
  { s with sent := sent, reading := false, request := r, delivered := s.delivered + 1 }

/-- One event, if it can happen. -/
def step (parse : String → Except ParseFault Json) : Event → Session → Option Session
  | .read, s =>
    match s.sent with
    | [] => none
    | (r, call) :: sent =>
      if s.reading then some (handle_request parse s.delivered call (s.deliver r sent)) else none
  | .callback i res, s =>
    if i ∈ s.kept then
      some (callback i (mapResult res).to_response { s with waiting := s.waiting.erase i })
    else none
  | .strand, s =>
    match s.posted with
    | [] => none
    | p :: posted =>
      some (send_response p.origin p.http_status p.business_code p.message { s with posted := posted })
  | .wrote, s =>
    match s.writing with
    | [] => none
    | w :: writing =>
      some (on_write w.response.keep_alive { s with writing := writing, written := s.written ++ [w] })

/-- A list of events, one after the other. -/
def exec (parse : String → Except ParseFault Json) (es : List Event) (s : Session) : Option Session :=
  tries (step parse) es s

/-- The requests under way: their callback has not been called, or what it posted has not run, or
their response is being written. -/
def pending (s : Session) : List ℕ :=
  s.waiting ++ s.posted.map Posted.origin ++ s.writing.map Write.origin

/-- **One response for each request.**  The responses written are those to the requests 0, 1, 2 and
so on, and every request that has been read and is no longer under way has its response. -/
structure OneEach (s : Session) : Prop where
  order : s.written.map Write.origin = List.range s.written.length
  answered : ∀ i < s.delivered, i ∉ s.pending → i ∈ s.written.map Write.origin

end Session

/-- The request comes to a callback: it is a hook in the right format and the scheduler does not
throw. -/
def callsBack (parse : String → Except ParseFault Json) (r : HttpRequest × Call) : Bool :=
  let action := map_path_to_action r.1.path
  r.1.method = .post && action ≠ .Unknown &&
    match (parse r.1.body).toOption.bind (ZlmHookRequest.from_json parse) with
    | none => false
    | some hook =>
      match routeHook { hook with action := action } r.2 with
      | .threw _ => false
      | _ => true

/-- The requests that a session answers if nothing goes wrong: up to the first one that does not
keep the connection. -/
def served : List (HttpRequest × Call) → List (HttpRequest × Call)
  | [] => []
  | r :: rs => if r.1.keep_alive then r :: served rs else [r]

end StreamGate.Hook
