import StreamGate.Task.StreamTask

/-!
# The state manager

`RedisStreamStateManager` as programs over Redis, on top of the wrappers of `CacheManager`.  A
wrapper catches every Redis error and gives an error value instead: a failed read looks like a
missing key.  A pipeline fails as a whole before its first command; once that has been served the
others follow one by one, with commands of other clients in between.

`registerTask` is cut where the source has its blank lines: the conflict check, the hash
(`registerHash`), the indices (`registerIndices`) and the time stamp (`registerTimestamp`).
-/

namespace StreamGate.State

open StreamGate.Redis StreamGate.Task StreamGate.Lib

/-! ### `CacheManager` -/

/-- A single command: `dflt` if it fails, else `f` of the reply. -/
def ask {α : Type} (c : Cmd) (dflt : α) (f : c.Reply → α) : RProg α :=
  Prog.call (E := iface) c fun r => .ret (r.elim dflt f)

def hashSet (key : Key) (fields : Fields) : RProg Bool := ask (.hset key fields) false fun _ => true
def hashGetAll (key : Key) : RProg (Option Fields) := ask (.hgetall key) none id
def hashIncrBy (key : Key) (field : Field) (increment : ℤ) : RProg ℤ :=
  ask (.hincrby key field increment) 0 id
def setAdd (key : Key) (member : String) : RProg Bool := ask (.sadd key member) false fun _ => true
def setMembers (key : Key) : RProg (List String) := ask (.smembers key) [] id
def setCard (key : Key) : RProg ℕ := ask (.scard key) 0 id
def zsetAdd (key : Key) (score : ℤ) (member : Key) : RProg Bool :=
  ask (.zadd key member score) false fun _ => true
def zsetRangeByScore (key : Key) (min max : ℤ) : RProg (List Key) := ask (.zrangebyscore key min max) [] id
def zsetRem (key : Key) (member : Key) : RProg Bool := ask (.zrem key member) false id
def keyDel (key : Key) : RProg Bool := ask (.del key) false id
def keyExists (key : Key) : RProg Bool := ask (.existsKey key) false id

/-- `_cacheTTL`. -/
def cacheTTL : ℤ := 300

/-- A time to live that is not positive is replaced by the default. -/
def keyExpire (key : Key) (seconds : ℤ) : RProg Bool :=
  ask (.expire key (if seconds ≤ 0 then cacheTTL else seconds)) false id

/-- The rest of a pipeline that has been sent. -/
def sendRest : List Cmd → RProg Unit
  | [] => .ret ()
  | c :: cs => Prog.exec (E := iface) c fun _ => sendRest cs

/-- A pipeline, and whether `exec` returned: `false` if it threw. -/
def pipeline : List Cmd → RProg Bool
  | [] => .ret true
  | c :: cs => Prog.call (E := iface) c fun r =>
    if r.isNone then .ret false else do sendRest cs; .ret true

/-- `system_clock::now()`. -/
def systemClock : RProg ℤ := Prog.exec (E := iface) .now fun t => .ret t

/-! ### Queries -/

def TASK_TTL_SEC : ℤ := 60

/-- The task in the reply to `HGETALL`. -/
def readTask (fields : Option Fields) : Option StreamTask := fields.bind deserializeTask

/-- The publisher in the reply to `HGETALL`: a task, and marked active. -/
def readPublisher (fields : Option Fields) : Option StreamTask :=
  fields.bind fun f => if f .active = some "1" then deserializeTask f else none

def getTaskByKey (task_key : Key) : RProg (Option StreamTask) := do
  let fields ← hashGetAll task_key
  return readTask fields

def getTask (stream_name client_id : String) : RProg (Option StreamTask) :=
  getTaskByKey (buildTaskKey stream_name client_id)

def getPublisherTask (stream_name : String) : RProg (Option StreamTask) := do
  let fields ← hashGetAll (buildPublisherKey stream_name)
  return readPublisher fields

def getStreamClientIds (stream_name : String) : RProg (List String) := setMembers (memberKey stream_name)

/-- The tasks of the listed clients that can be read. -/
def readTasks (stream_name : String) : List String → RProg (List StreamTask)
  | [] => .ret []
  | id :: ids => do
    let task ← getTask stream_name id
    let tasks ← readTasks stream_name ids
    return task.toList ++ tasks

def getPlayerTasks (stream_name : String) : RProg (List StreamTask) := do
  let client_ids ← setMembers (buildPlayerSetKey stream_name)
  readTasks stream_name client_ids

/-- The publishers of the listed streams that can be read. -/
def readPublishers : List String → RProg (List StreamTask)
  | [] => .ret []
  | name :: names => do
    let task ← getPublisherTask name
    let tasks ← readPublishers names
    return task.toList ++ tasks

def getAllPublisherTasks : RProg (List StreamTask) := do
  let stream_names ← setMembers buildActivePublishersKey
  readPublishers stream_names

def getActivePublisherCount : RProg ℕ := setCard buildActivePublishersKey

/-- A field `total` that cannot be read counts as `0`; a negative one wraps. -/
def getActivePlayerCount : RProg ℕ := do
  let fields ← hashGetAll buildGlobalPlayerCountKey
  return ((fields.bind fun f => f .total).bind Decimal.stoull).getD 0

def getPlayerCount (stream_name : String) : RProg ℕ := setCard (buildPlayerSetKey stream_name)

/-! ### Deregistration -/

/-- The commands of a batch for one task.  The publisher keys are named by the stream alone. -/
def batchCmds (task : TaskIdentifier) : List Cmd :=
  [.del (buildTaskKey task.streamName task.clientId), .srem (memberKey task.streamName) task.clientId] ++
    match task.type with
    | .PLAYER => [.hincrby buildGlobalPlayerCountKey .total (-1)]
    | .PUBLISHER => [.del (buildPublisherKey task.streamName),
        .srem buildActivePublishersKey task.streamName]

def deregisterTasksBatch (tasks : List TaskIdentifier) : RProg ℕ :=
  if tasks = [] then .ret 0
  else do
    let sent ← pipeline (tasks.flatMap batchCmds)
    return if sent then tasks.length else 0

def deregisterTask (stream_name client_id : String) : RProg Bool := do
  match ← getTask stream_name client_id with
  | none =>
    let _ ← zsetRem buildTaskTimestampZSetKey (buildTaskKey stream_name client_id)
    return true
  | some task =>
    let n ← deregisterTasksBatch [⟨stream_name, client_id, task.type⟩]
    return 0 < n

/-- The identifiers of the clients whose task can be read. -/
def collectMembers (stream_name : String) : List String → RProg (List TaskIdentifier)
  | [] => .ret []
  | cid :: cids => do
    let task_opt ← getTask stream_name cid
    let tasks ← collectMembers stream_name cids
    return (task_opt.map fun t => ⟨stream_name, cid, t.type⟩).toList ++ tasks

def deregisterAllMembers (stream_name : String) : RProg Unit := do
  let clientIds ← getStreamClientIds stream_name
  if clientIds = [] then do
    let _ ← keyDel (memberKey stream_name)
    return ()
  else do
    let tasks ← collectMembers stream_name clientIds
    let _ ← deregisterTasksBatch tasks
    let _ ← keyDel (memberKey stream_name)
    return ()

/-! ### Registration -/

/-- The publisher keys, after a second look at who holds the stream. -/
def registerPublisherIndices (task : StreamTask) : RProg Bool := do
  let current ← getTaskByKey (buildPublisherKey task.stream_name)
  if current.any fun t => t.client_id ≠ task.client_id then return false
  else pipeline [.hset (buildPublisherKey task.stream_name) (serializeTask task),
    .sadd (memberKey task.stream_name) task.client_id,
    .sadd buildActivePublishersKey task.stream_name]

/-- The failure of the increment is only logged. -/
def registerPlayerIndices (task : StreamTask) : RProg Bool := do
  if ← setAdd (memberKey task.stream_name) task.client_id then do
    let _ ← hashIncrBy buildGlobalPlayerCountKey .total 1
    return true
  else return false

/-- The end of a registration that cannot be completed. -/
def rollBack (task : StreamTask) : RProg Bool := do
  let _ ← deregisterTask task.stream_name task.client_id
  return false

def registerTimestamp (task : StreamTask) : RProg Bool := do
  let now ← systemClock
  if ¬ Reasonable (ms now) then rollBack task
  else do
    if ← zsetAdd buildTaskTimestampZSetKey (ms now) task.key then return true
    else rollBack task

def registerIndices (task : StreamTask) : RProg Bool := do
  let index_ok ← if task.type = .PUBLISHER then registerPublisherIndices task else registerPlayerIndices task
  if index_ok then registerTimestamp task else rollBack task

def registerHash (task : StreamTask) : RProg Bool := do
  if ← hashSet task.key (serializeTask task) then do
    if ← keyExpire task.key TASK_TTL_SEC then registerIndices task
    else do
      let _ ← keyDel task.key
      return false
  else return false

/-- A publisher may take a free stream, or take its own again; a player takes its place again. -/
def registerTask (task : StreamTask) : RProg Bool :=
  if task.type = .PUBLISHER then do
    match ← getPublisherTask task.stream_name with
    | none => registerHash task
    | some existing_pub =>
      if existing_pub.client_id ≠ task.client_id then return false
      else do
        let _ ← deregisterTask task.stream_name task.client_id
        registerHash task
  else do
    if ← keyExists task.key then do
      let _ ← deregisterTask task.stream_name task.client_id
      registerHash task
    else registerHash task

/-! ### Heartbeat and timeout -/

/-- The heartbeat: one pipeline, and the result of its second command decides. -/
def touchTask (stream_name client_id : String) : RProg Bool := do
  let task_key := buildTaskKey stream_name client_id
  let now ← systemClock
  Prog.call (E := iface)
    (.hset task_key (Function.update (fun _ => none) .last_active_time_ms
      (some (Decimal.to_string (ms now))))) fun r =>
    if r.isNone then .ret false
    else
      Prog.exec (E := iface) (.expire task_key TASK_TTL_SEC) fun (alive : Bool) =>
      Prog.exec (E := iface) (.zadd buildTaskTimestampZSetKey task_key (ms now)) fun _ =>
      if alive then .ret true
      else do
        let _ ← keyDel task_key
        return false

/-- The candidates of a scan, one by one: take the entry out, look at the task, and put the entry
back or deregister the task. -/
def scanLoop (now_ms timeout : ℤ) : List Key → RProg (List StreamTask)
  | [] => .ret []
  | task_key :: keys => do
    if ← zsetRem buildTaskTimestampZSetKey task_key then do
      match ← getTaskByKey task_key with
      | none => scanLoop now_ms timeout keys
      | some task =>
        if now_ms - ms task.last_active_time < timeout then do
          let _ ← zsetAdd buildTaskTimestampZSetKey (ms task.last_active_time) task_key
          scanLoop now_ms timeout keys
        else do
          let _ ← deregisterTask task.stream_name task.client_id
          let expired_tasks ← scanLoop now_ms timeout keys
          return task :: expired_tasks
    else scanLoop now_ms timeout keys

/-- The timeout is in milliseconds. -/
def scanTimeoutTasks (timeout : ℤ) : RProg (List StreamTask) := do
  let now ← systemClock
  let candidate_keys ← zsetRangeByScore buildTaskTimestampZSetKey 0 (ms now - timeout)
  scanLoop (ms now) timeout candidate_keys

end StreamGate.State
