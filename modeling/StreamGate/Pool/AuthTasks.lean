import StreamGate.Auth.Repository
import StreamGate.Scheduler.TaskScheduler

/-!
# The tasks of the pool

The closures that `AuthManager` puts in the queue of the pool, and within them the callbacks of
`StreamTaskScheduler`, which the worker runs as well.  They are programs like those of the repository and of the
state manager, whose commands they contain, but here every command also says which of the three objects it
uses: the closures have captured `this` of the authentication manager and of the scheduler, and the scheduler
has a reference to the state manager.
-/

namespace StreamGate.Pool

open StreamGate.Lib StreamGate.Task StreamGate.Auth StreamGate.Scheduler

/-- The objects that `main` owns and the tasks use. -/
inductive Obj where
  | scheduler | authManager | stateManager
  deriving DecidableEq, Repr

inductive TaskCmd where
  /-- `_shutdown.load()`. -/
  | shutdown
  /-- A command that `_repository` sends. -/
  | repository (c : Auth.Cmd)
  /-- `fetch_add` of a counter of the scheduler. -/
  | authFail | successPub | successPlay
  | selectBestNode (protocol : StreamProtocol)
  /-- The number and the time of a task. -/
  | createTask
  /-- The call of a method of `_stateManager`. -/
  | stateManager
  /-- A command that such a method sends, or its look at the clock. -/
  | redis (c : Redis.Cmd)

namespace TaskCmd

def Reply : TaskCmd → Type
  | shutdown => Bool
  | repository c => Auth.iface.Reply c
  | authFail | successPub | successPlay => Unit
  | selectBestNode _ => String × Int32
  | createTask => UInt64 × ℤ
  | stateManager => Unit
  | redis c => c.Reply

/-- The objects whose members are read, or whose methods are run. -/
def objects : TaskCmd → List Obj
  | shutdown | repository _ => [.authManager]
  | authFail | successPub | successPlay | selectBestNode _ | createTask => [.scheduler]
  | stateManager => [.scheduler, .stateManager]
  | redis _ => [.stateManager]

theorem objects_ne_nil (c : TaskCmd) : c.objects ≠ [] := by cases c <;> exact List.cons_ne_nil _ _

end TaskCmd

abbrev taskIface : Iface := ⟨TaskCmd, TaskCmd.Reply⟩

/-- A program that a worker runs. -/
abbrev TProg (α : Type) := Prog taskIface α

/-- What the tasks act on: the members of the two objects that they change, Redis and the database. -/
structure Service where
  redis : Redis.World
  auth : Auth.Store
  shutdown : Bool := false
  authFail : UInt64 := 0
  successPub : UInt64 := 0
  successPlay : UInt64 := 0
  nodeIndex : UInt64 := 0
  nextTaskId : UInt64 := 1000

/-- The nodes for a protocol. -/
def nodesFor (node_config : NodeConfig) (protocol : StreamProtocol) : List NodeEndpoint :=
  if protocol = .RTMP ∨ protocol = .SRT then node_config.rtmp_srt else node_config.http_hls

/-- The counter of the nodes stands still when there are none for the protocol. -/
def Service.handle (sql : Sql) (node_config : NodeConfig) : (c : TaskCmd) → Service → c.Reply × Service
  | .shutdown, s => (s.shutdown, s)
  | .repository c, s => ((Auth.handle sql c s.auth).1, { s with auth := (Auth.handle sql c s.auth).2 })
  | .authFail, s => ((), { s with authFail := s.authFail + 1 })
  | .successPub, s => ((), { s with successPub := s.successPub + 1 })
  | .successPlay, s => ((), { s with successPlay := s.successPlay + 1 })
  | .selectBestNode protocol, s =>
    (Scheduler.selectBestNode node_config s.nodeIndex protocol,
      if nodesFor node_config protocol = [] then s else { s with nodeIndex := s.nodeIndex + 1 })
  | .createTask, s => ((s.nextTaskId, s.redis.clock), { s with nextTaskId := s.nextTaskId + 1 })
  | .stateManager, s => ((), s)
  | .redis c, s => ((Redis.handle c s.redis).1, { s with redis := (Redis.handle c s.redis).2 })

/-! ### The closures -/

def load : TProg Bool := .exec .shutdown .ret

def performAuthLogic (cacheTTL : ℤ) (req : AuthRequest) : TProg AuthError :=
  (Auth.performAuthLogic cacheTTL req).embed .repository fun _ r => r

/-- The task of `checkAuth` and of `checkAuthAsync`: `cb` sets the promise, or is the callback. -/
def authTask (cacheTTL : ℤ) (req : AuthRequest) (cb : AuthError → TProg Unit) : TProg Unit := do
  if ← load then return ()
  else do
    let result ← performAuthLogic cacheTTL req
    cb result

/-- A method of the state manager, called by the scheduler. -/
def onStateManager {α : Type} (p : Redis.RProg α) : TProg α :=
  .exec .stateManager fun _ => p.embed .redis fun _ r => r

def createTask (r : Request) (type : StreamType) (ip : String) (port : Int32) : TProg StreamTask :=
  .exec .createTask fun (c : UInt64 × ℤ) => .ret (newTask { r with nextTaskId := c.1 } type ip port c.2)

/-- The callback of `onPublish`, up to the call of its own callback. -/
def publishCallback (r : Request) (code : AuthError) : TProg Unit :=
  if code ≠ .SUCCESS then .exec .authFail .ret
  else
    .exec (.selectBestNode r.protocol) fun (node : String × Int32) => do
      let task ← createTask r .PUBLISHER node.1 node.2
      let _ ← onStateManager (State.getPublisherTask r.stream_name)
      if ← onStateManager (State.registerTask task) then .exec .successPub .ret
      else return ()

/-- The callback of `onPlay`. -/
def playCallback (r : Request) (code : AuthError) : TProg Unit :=
  if code ≠ .SUCCESS then .exec .authFail .ret
  else do
    match ← onStateManager (State.getPublisherTask r.stream_name) with
    | none => return ()
    | some pub =>
      let task ← createTask r .PLAYER pub.server_ip pub.server_port
      if ← onStateManager (State.registerTask task) then .exec .successPlay .ret
      else return ()

/-- What is put in the queue. -/
inductive Job where
  /-- By `checkAuth`. -/
  | check (req : AuthRequest)
  /-- By `onPublish`. -/
  | publish (r : Request)
  /-- By `onPlay`. -/
  | play (r : Request)

def requestOf (r : Request) : AuthRequest := ⟨r.stream_name, r.client_id, r.auth_token⟩

def Job.task (cacheTTL : ℤ) : Job → TProg Unit
  | check req => authTask cacheTTL req fun _ => .ret ()
  | publish r => authTask cacheTTL (requestOf r) (publishCallback r)
  | play r => authTask cacheTTL (requestOf r) (playCallback r)

/-- Every task begins with a look at `_shutdown`. -/
theorem Job.head_task (cacheTTL : ℤ) (job : Job) : (job.task cacheTTL).head = some .shutdown := by
  cases job <;> rfl

end StreamGate.Pool
