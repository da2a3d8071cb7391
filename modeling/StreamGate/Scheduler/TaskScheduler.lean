import Mathlib.Data.List.Dedup
import StreamGate.State.Manager

/-!
# The scheduler

`StreamTaskScheduler`: the handlers of the four hooks and one iteration of the cleanup thread, as
programs over Redis.  What a handler takes from elsewhere is an argument of it: the answer of the
authentication, the counters `_nodeIndex` and `_nextTaskId` as it finds them, and the nodes.
-/

namespace StreamGate.Scheduler

open StreamGate.Redis StreamGate.Task StreamGate.Lib StreamGate.State

/-! ### Results -/

/-- `SchedulerResult::Error`. -/
inductive Error where
  | SUCCESS | ALREADY_PUBLISHING | NO_PUBLISHER | AUTH_FAILED | STATE_STORE_ERROR | INTERNAL_ERROR
  deriving DecidableEq, Repr

structure SchedulerResult where
  error : Error := .SUCCESS
  task : Option StreamTask := none
  message : String := ""
  deriving DecidableEq

def SchedulerResult.isSuccess (r : SchedulerResult) : Bool := r.error = .SUCCESS

/-! ### Nodes -/

structure NodeEndpoint where
  host : String
  port : Int32
  deriving DecidableEq

/-- The two lists of `NodeConfig` that the scheduler reads. -/
structure NodeConfig where
  rtmp_srt : List NodeEndpoint := []
  http_hls : List NodeEndpoint := []

/-- The node for a protocol when the shared counter stands at `nodeIndex`. -/
def selectBestNode (node_config : NodeConfig) (nodeIndex : UInt64) (protocol : StreamProtocol) :
    String × Int32 :=
  let nodes := if protocol = .RTMP ∨ protocol = .SRT then node_config.rtmp_srt else node_config.http_hls
  match nodes[nodeIndex.toNat % nodes.length]? with
  | none => ("127.0.0.1", 1935)
  | some node => (node.host, node.port)

/-! ### Hooks -/

/-- A publish or play request, with the answer of the authentication and the counters as the
handler finds them. -/
structure Request where
  stream_name : String
  client_id : String
  auth_token : String := ""
  protocol : StreamProtocol := .RTMP
  code : ℤ := 0
  nodeIndex : UInt64 := 0
  nextTaskId : UInt64 := 1000

def validateRequest (r : Request) : Bool :=
  r.stream_name ≠ "" && r.client_id ≠ "" && r.auth_token ≠ ""

/-- The task of a request that starts at `now`. -/
def newTask (r : Request) (type : StreamType) (ip : String) (port : Int32) (now : ℤ) : StreamTask where
  task_id := r.nextTaskId
  stream_name := r.stream_name
  client_id := r.client_id
  auth_token := r.auth_token
  type := type
  protocol := r.protocol
  server_ip := ip
  server_port := port
  start_time := now
  last_active_time := now

def createTask (r : Request) (type : StreamType) (ip : String) (port : Int32) : RProg StreamTask := do
  let now ← systemClock
  return newTask r type ip port now

/-- The publisher that stands in the way is looked up for the log only. -/
def onPublish (node_config : NodeConfig) (r : Request) : RProg SchedulerResult :=
  if ¬ validateRequest r then .ret ⟨.INTERNAL_ERROR, none, "参数缺失"⟩
  else if r.code ≠ 0 then .ret ⟨.AUTH_FAILED, none, "鉴权拒绝"⟩
  else do
    let (ip, port) := selectBestNode node_config r.nodeIndex r.protocol
    let task ← createTask r .PUBLISHER ip port
    let _ ← getPublisherTask r.stream_name
    if ← registerTask task then return ⟨.SUCCESS, some task, "推流授权成功"⟩
    else return ⟨.ALREADY_PUBLISHING, none, "该流已在推送中"⟩

/-- A player goes to the node of the publisher. -/
def onPlay (r : Request) : RProg SchedulerResult :=
  if ¬ validateRequest r then .ret ⟨.INTERNAL_ERROR, none, "参数缺失"⟩
  else if r.code ≠ 0 then .ret ⟨.AUTH_FAILED, none, "鉴权拒绝"⟩
  else do
    match ← getPublisherTask r.stream_name with
    | none => return ⟨.NO_PUBLISHER, none, "找不到活跃推流端"⟩
    | some pub =>
      let task ← createTask r .PLAYER pub.server_ip pub.server_port
      if ← registerTask task then return ⟨.SUCCESS, some task, "播放授权成功"⟩
      else return ⟨.STATE_STORE_ERROR, none, "状态注册失败"⟩

/-- The cascade runs only for a client whose own task is that of a publisher. -/
def onPublishDone (stream_name client_id : String) : RProg Unit := do
  let task_opt ← getTask stream_name client_id
  if task_opt.any fun t => t.type = .PUBLISHER then deregisterAllMembers stream_name
  else return ()

def onPlayDone (stream_name client_id : String) : RProg Unit := do
  let _ ← deregisterTask stream_name client_id
  return ()

/-! ### The cleanup thread -/

/-- `publisher_died_streams`, in the order of a `std::set`. -/
def publisherDiedStreams (expired : List StreamTask) : List String :=
  (((expired.filter fun t => t.type = .PUBLISHER).map fun t => t.stream_name).dedup).insertionSort (· ≤ ·)

/-- The cascade for each stream of a list. -/
def deregisterStreams : List String → RProg Unit
  | [] => .ret ()
  | stream :: streams => do
    deregisterAllMembers stream
    deregisterStreams streams

/-- What the cleanup does with the tasks the scan returned: all of them once more as a batch, and
the cascade for every stream whose publisher is among them. -/
def cleanExpired (expired : List StreamTask) : RProg Unit :=
  if expired = [] then .ret ()
  else do
    let _ ← deregisterTasksBatch (expired.map StreamTask.ident)
    deregisterStreams (publisherDiedStreams expired)

/-- One iteration of `timeoutCleanupThread`; the timeout of the configuration is in seconds. -/
def timeoutCleanup (task_timeout : ℤ) : RProg Unit := do
  let expired ← scanTimeoutTasks (1000 * task_timeout)
  cleanExpired expired

theorem nodup_publisherDiedStreams (expired : List StreamTask) :
    (publisherDiedStreams expired).Nodup := by
  unfold publisherDiedStreams
  rw [(List.perm_insertionSort _ _).nodup_iff]
  exact List.nodup_dedup _

theorem mem_publisherDiedStreams {expired : List StreamTask} {s : String} :
    s ∈ publisherDiedStreams expired ↔ ∃ t ∈ expired, t.type = .PUBLISHER ∧ t.stream_name = s := by
  unfold publisherDiedStreams
  rw [List.mem_insertionSort, List.mem_dedup, List.mem_map]
  simp only [List.mem_filter, decide_eq_true_eq, and_assoc]

end StreamGate.Scheduler
