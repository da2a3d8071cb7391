import StreamGate.State.Manager

/-!
# The operations run alone

What each operation of the state manager does to Redis when it runs alone and nothing fails.  The
result is the program itself with its commands folded into world transformers: `putTask` and
`dropTask` are the two that matter, and for them this module says what is at every key afterwards.
-/

namespace StreamGate.State

open StreamGate.Redis StreamGate.Task StreamGate.Lib

/-! ### Reading -/

/-- The task stored at a key. -/
def taskAt (w : World) (k : Key) : Option StreamTask := readTask (w.fieldsAt k)

/-- The publisher of a stream, as `getPublisherTask` sees it. -/
def pubAt (w : World) (s : String) : Option StreamTask := readPublisher (w.fieldsAt (buildPublisherKey s))

/-! ### World transformers -/

/-- The commands of a list in a row. -/
def after (cs : List Cmd) (w : World) : World := cs.foldl (fun w c => (handle c w).2) w

/-- The batch for one task. -/
def dropTask (id : TaskIdentifier) (w : World) : World := after (batchCmds id) w

/-- The batch for several tasks. -/
def dropTasks (ids : List TaskIdentifier) (w : World) : World := ids.foldl (fun w id => dropTask id w) w

/-- `deregisterTask`: a client without a readable task only loses its time stamp. -/
def forget (s c : String) (w : World) : World :=
  match taskAt w (buildTaskKey s c) with
  | none => w.setZset buildTaskTimestampZSetKey
      ((w.zsets buildTaskTimestampZSetKey).rem (buildTaskKey s c))
  | some t => dropTask ⟨s, c, t.type⟩ w

theorem forget_some {w : World} {s c : String} {t : StreamTask} (ht : taskAt w (buildTaskKey s c) = some t) :
    forget s c w = dropTask ⟨s, c, t.type⟩ w := by
  rw [forget, ht]

theorem forget_none {w : World} {s c : String} (ht : taskAt w (buildTaskKey s c) = none) :
    forget s c w =
      w.setZset buildTaskTimestampZSetKey ((w.zsets buildTaskTimestampZSetKey).rem (buildTaskKey s c)) := by
  rw [forget, ht]

/-- The hash of a task, with its time to live. -/
def putTask (t : StreamTask) (w : World) : World :=
  (w.hset t.key (serializeTask t)).expire t.key TASK_TTL_SEC

def indexPublisher (t : StreamTask) (w : World) : World :=
  after [.hset (buildPublisherKey t.stream_name) (serializeTask t),
    .sadd (memberKey t.stream_name) t.client_id, .sadd buildActivePublishersKey t.stream_name] w

def indexPlayer (t : StreamTask) (w : World) : World :=
  after [.sadd (memberKey t.stream_name) t.client_id, .hincrby buildGlobalPlayerCountKey .total 1] w

/-- The end of a registration whose indices are written. -/
def finish (t : StreamTask) (w : World) : Bool × World :=
  if Reasonable (ms w.clock) then
    (true, w.setZset buildTaskTimestampZSetKey
      ((w.zsets buildTaskTimestampZSetKey).add t.key (ms w.clock)))
  else (false, forget t.stream_name t.client_id w)

/-- A registration after its hash. -/
def place (t : StreamTask) (w : World) : Bool × World :=
  if t.type = .PUBLISHER then
    if (taskAt w (buildPublisherKey t.stream_name)).any fun p => p.client_id ≠ t.client_id then
      (false, forget t.stream_name t.client_id w)
    else finish t (indexPublisher t w)
  else finish t (indexPlayer t w)

/-! ### The programs -/

section Runs

variable (w : World)

@[simp] theorem run_ret {α : Type} (a : α) : w.run (.ret a) = (a, w) := rfl

@[simp] theorem run_bind {α β : Type} (p : RProg α) (f : α → RProg β) :
    w.run (p >>= f) = (w.run p).2.run (f (w.run p).1) := Prog.run_bind handle p f w

@[simp] theorem run_ask {α : Type} (c : Cmd) (d : α) (f : c.Reply → α) :
    w.run (ask c d f) = (f (handle c w).1, (handle c w).2) := rfl

@[simp] theorem run_systemClock : w.run systemClock = (w.clock, w) := rfl

@[simp] theorem run_getTaskByKey (k : Key) : w.run (getTaskByKey k) = (taskAt w k, w) := rfl

@[simp] theorem run_getTask (s c : String) :
    w.run (getTask s c) = (taskAt w (buildTaskKey s c), w) := rfl

@[simp] theorem run_getPublisherTask (s : String) : w.run (getPublisherTask s) = (pubAt w s, w) := rfl

@[simp] theorem run_sendRest (cs : List Cmd) : w.run (sendRest cs) = ((), after cs w) := by
  induction cs generalizing w with
  | nil => rfl
  | cons c cs ih => exact ih (handle c w).2

@[simp] theorem run_pipeline (cs : List Cmd) : w.run (pipeline cs) = (true, after cs w) := by
  cases cs with
  | nil => rfl
  | cons c cs =>
    show World.run (handle c w).2 (do sendRest cs; .ret true) = _
    rw [run_bind, run_sendRest]
    rfl

theorem after_append (cs ds : List Cmd) : after (cs ++ ds) w = after ds (after cs w) :=
  List.foldl_append

theorem after_flatMap_batchCmds (ids : List TaskIdentifier) :
    after (ids.flatMap batchCmds) w = dropTasks ids w := by
  induction ids generalizing w with
  | nil => rfl
  | cons id ids ih =>
    rw [List.flatMap_cons, after_append, ih]
    rfl

@[simp] theorem run_deregisterTasksBatch (ids : List TaskIdentifier) :
    w.run (deregisterTasksBatch ids) = (ids.length, dropTasks ids w) := by
  unfold deregisterTasksBatch
  split
  · rename_i h
    subst h
    rfl
  · rw [run_bind, run_pipeline, after_flatMap_batchCmds]
    rfl

theorem deregisterTask_eq (s c : String) : deregisterTask s c = getTask s c >>= fun task_opt => task_opt.elim
    (zsetRem buildTaskTimestampZSetKey (buildTaskKey s c) >>= fun _ => pure true)
    fun task => deregisterTasksBatch [⟨s, c, task.type⟩] >>= fun n => pure (decide (0 < n)) := by
  unfold deregisterTask
  refine congrArg _ (funext fun task_opt => ?_)
  cases task_opt <;> rfl

@[simp] theorem run_deregisterTask (s c : String) :
    w.run (deregisterTask s c) = (true, forget s c w) := by
  unfold deregisterTask forget
  rw [run_bind, run_getTask]
  cases taskAt w (buildTaskKey s c) with
  | none => rfl
  | some t =>
    rw [run_bind, run_deregisterTasksBatch]
    rfl

theorem run_clock {α : Type} (p : RProg α) : (w.run p).2.clock = w.clock :=
  Prog.Only.run_keeps (h := handle) (I := fun v : World => v.clock = w.clock)
    (fun c v _ hv => (after_clock v c).trans hv) (Prog.only_true p) rfl

theorem run_rollBack (t : StreamTask) :
    w.run (rollBack t) = (false, forget t.stream_name t.client_id w) := by
  rw [rollBack, run_bind, run_deregisterTask]
  rfl

theorem run_registerTimestamp (t : StreamTask) : w.run (registerTimestamp t) = finish t w := by
  unfold registerTimestamp finish
  rw [run_bind, run_systemClock]
  by_cases h : Reasonable (ms w.clock)
  · rw [if_neg (not_not.2 h), if_pos h]
    rfl
  · rw [if_pos h, if_neg h, run_rollBack]

theorem run_registerIndices (t : StreamTask) : w.run (registerIndices t) = place t w := by
  unfold registerIndices place
  by_cases hp : t.type = .PUBLISHER
  · rw [if_pos hp, if_pos hp, run_bind, registerPublisherIndices, run_bind, run_getTaskByKey]
    by_cases hc : (taskAt w (buildPublisherKey t.stream_name)).any fun p => p.client_id ≠ t.client_id
    · rw [if_pos hc, if_pos hc]
      exact run_rollBack w t
    · rw [if_neg hc, if_neg hc, run_pipeline]
      exact run_registerTimestamp _ t
  · rw [if_neg hp, if_neg hp, run_bind]
    exact run_registerTimestamp _ t

theorem run_registerHash (t : StreamTask) : w.run (registerHash t) = place t (putTask t w) := by
  rw [← run_registerIndices]
  have hsome : ((w.hset t.key (serializeTask t)).hashes t.key).isSome := by rw [World.hset_self]; rfl
  show World.run (putTask t w) (if ((w.hset t.key (serializeTask t)).hashes t.key).isSome then
    registerIndices t else _) = _
  rw [if_pos hsome]

/-- A registration. -/
theorem run_registerTask (t : StreamTask) :
    w.run (registerTask t) =
      if t.type = .PUBLISHER then
        match pubAt w t.stream_name with
        | none => place t (putTask t w)
        | some p => if p.client_id ≠ t.client_id then (false, w)
            else place t (putTask t (forget t.stream_name t.client_id w))
      else if w.hasKey t.key then place t (putTask t (forget t.stream_name t.client_id w))
      else place t (putTask t w) := by
  unfold registerTask
  by_cases hp : t.type = .PUBLISHER
  · rw [if_pos hp, if_pos hp, run_bind, run_getPublisherTask]
    cases pubAt w t.stream_name with
    | none => exact run_registerHash w t
    | some p =>
      by_cases hc : p.client_id ≠ t.client_id
      · show World.run w (if _ then _ else _) = if _ then _ else _
        rw [if_pos hc, if_pos hc]
        rfl
      · show World.run w (if _ then _ else _) = if _ then _ else _
        rw [if_neg hc, if_neg hc, run_bind, run_deregisterTask]
        exact run_registerHash _ t
  · rw [if_neg hp, if_neg hp, run_bind]
    show World.run w (if w.hasKey t.key then _ else _) = _
    split
    · rw [run_bind, run_deregisterTask]
      exact run_registerHash _ t
    · exact run_registerHash w t

/-- Another client has the stream. -/
def Barred (w : World) (t : StreamTask) : Prop :=
  t.type = .PUBLISHER ∧ ∃ p, pubAt w t.stream_name = some p ∧ p.client_id ≠ t.client_id

/-- Then the registration is refused, and the store is as before. -/
theorem run_registerTask_barred {w : World} {t : StreamTask} (h : Barred w t) :
    w.run (registerTask t) = (false, w) := by
  obtain ⟨hp, p, hpub, hne⟩ := h
  rw [run_registerTask, if_pos hp, hpub]
  exact if_pos hne

/-- A heartbeat: the hash is there after the first command, so the heartbeat always succeeds. -/
def touch (s c : String) (w : World) : World :=
  after [.hset (buildTaskKey s c) (Function.update (fun _ => none) .last_active_time_ms
      (some (Decimal.to_string (ms w.clock)))),
    .expire (buildTaskKey s c) TASK_TTL_SEC,
    .zadd buildTaskTimestampZSetKey (buildTaskKey s c) (ms w.clock)] w

theorem run_touchTask (s c : String) : w.run (touchTask s c) = (true, touch s c w) := by
  let f : Fields := Function.update (fun _ => none) .last_active_time_ms
    (some (Decimal.to_string (ms w.clock)))
  have hsome : ((w.hset (buildTaskKey s c) f).hashes (buildTaskKey s c)).isSome := by
    rw [World.hset_self]; rfl
  show World.run (touch s c w) (if ((w.hset (buildTaskKey s c) f).hashes (buildTaskKey s c)).isSome then
    .ret true else _) = _
  rw [if_pos hsome]
  rfl

/-- The members of a stream whose task can be read. -/
def memberTasks (w : World) (s : String) (cids : List String) : List TaskIdentifier :=
  cids.filterMap fun c => (taskAt w (buildTaskKey s c)).map fun t => ⟨s, c, t.type⟩

theorem run_collectMembers (s : String) (cids : List String) :
    w.run (collectMembers s cids) = (memberTasks w s cids, w) := by
  induction cids with
  | nil => rfl
  | cons c cids ih =>
    rw [collectMembers, run_bind, run_getTask, run_bind, ih]
    cases ht : taskAt w (buildTaskKey s c) with
    | none => simp [memberTasks, ht]
    | some t => simp [memberTasks, ht]

/-- The cascade. -/
def clearStream (s : String) (w : World) : World :=
  (dropTasks (memberTasks w s (w.sets (memberKey s)).elems) w).del (memberKey s)

theorem run_deregisterAllMembers (s : String) : w.run (deregisterAllMembers s) = ((), clearStream s w) := by
  unfold deregisterAllMembers
  rw [run_bind]
  show World.run w (if (w.sets (memberKey s)).elems = [] then _ else _) = _
  split
  · rename_i h
    rw [clearStream, h]
    rfl
  · rw [run_bind, run_collectMembers, run_bind, run_deregisterTasksBatch]
    rfl

/-- One candidate of a scan. -/
def scanKey (now_ms timeout : ℤ) (k : Key) (w : World) : Option StreamTask × World :=
  if ((w.zsets buildTaskTimestampZSetKey).score k).isSome then
    let w' := w.setZset buildTaskTimestampZSetKey ((w.zsets buildTaskTimestampZSetKey).rem k)
    match taskAt w k with
    | none => (none, w')
    | some t =>
      if now_ms - ms t.last_active_time < timeout then
        (none, w'.setZset buildTaskTimestampZSetKey
          ((w'.zsets buildTaskTimestampZSetKey).add k (ms t.last_active_time)))
      else (some t, forget t.stream_name t.client_id w')
  else (none, w.setZset buildTaskTimestampZSetKey ((w.zsets buildTaskTimestampZSetKey).rem k))

@[simp] theorem run_scanLoop_nil (now_ms timeout : ℤ) : w.run (scanLoop now_ms timeout []) = ([], w) := rfl

theorem run_scanLoop_cons (now_ms timeout : ℤ) (k : Key) (keys : List Key) :
    w.run (scanLoop now_ms timeout (k :: keys)) =
      ((scanKey now_ms timeout k w).1.toList ++
        ((scanKey now_ms timeout k w).2.run (scanLoop now_ms timeout keys)).1,
        ((scanKey now_ms timeout k w).2.run (scanLoop now_ms timeout keys)).2) := by
  rw [scanLoop, run_bind]
  show World.run (w.setZset _ _) (if ((w.zsets buildTaskTimestampZSetKey).score k).isSome then _ else _) = _
  by_cases hz : ((w.zsets buildTaskTimestampZSetKey).score k).isSome
  · rw [if_pos hz, run_bind, run_getTaskByKey, scanKey, if_pos hz]
    show World.run _ (match taskAt w k with | none => _ | some t => _) = _
    cases taskAt w k with
    | none => rfl
    | some t =>
      show World.run _ (if now_ms - ms t.last_active_time < timeout then _ else _) = _
      by_cases hl : now_ms - ms t.last_active_time < timeout
      · simp only [if_pos hl]
        rfl
      · simp only [if_neg hl]
        rw [run_bind, run_deregisterTask, run_bind]
        rfl
  · rw [if_neg hz, scanKey, if_neg hz]
    rfl

theorem run_scanTimeoutTasks (timeout : ℤ) :
    w.run (scanTimeoutTasks timeout) = w.run (scanLoop (ms w.clock) timeout
      ((w.zsets buildTaskTimestampZSetKey).rangeByScore 0 (ms w.clock - timeout))) := rfl

end Runs

/-! ### What is at every key afterwards -/

section Keys

variable (w : World) (s c s' : String) (body : String) (t : StreamTask)

theorem dropTask_task (ty : StreamType) : (dropTask ⟨s, c, ty⟩ w).hashes (.task body) =
    if Key.task body = buildTaskKey s c then none else w.hashes (.task body) := by
  cases ty <;>
    simp [dropTask, after, batchCmds, World.hincrby, World.hset_apply, World.del_hashes_apply,
      buildGlobalPlayerCountKey, buildPublisherKey]

theorem dropTask_pub (ty : StreamType) : (dropTask ⟨s, c, ty⟩ w).hashes (.pub s') =
    if ty = .PUBLISHER ∧ s' = s then none else w.hashes (.pub s') := by
  cases ty <;>
    simp [dropTask, after, batchCmds, World.hincrby, World.hset_apply, World.del_hashes_apply,
      buildGlobalPlayerCountKey, buildPublisherKey, buildTaskKey]

theorem dropTask_members (ty : StreamType) : (dropTask ⟨s, c, ty⟩ w).sets (.members s') =
    if s' = s then (w.sets (.members s)).rem c else w.sets (.members s') := by
  cases ty <;>
    simp [dropTask, after, batchCmds, World.hincrby, World.setSet_apply, World.del_sets_apply,
      buildActivePublishersKey, buildPublisherKey, buildTaskKey, memberKey]

theorem dropTask_active (ty : StreamType) : (dropTask ⟨s, c, ty⟩ w).sets .active_pubs =
    if ty = .PUBLISHER then (w.sets .active_pubs).rem s else w.sets .active_pubs := by
  cases ty <;>
    simp [dropTask, after, batchCmds, World.hincrby, World.setSet_apply, World.del_sets_apply,
      buildActivePublishersKey, buildPublisherKey, buildTaskKey, memberKey]

@[simp] theorem dropTask_zsets (id : TaskIdentifier) :
    (dropTask id w).zsets .task_timestamps = w.zsets .task_timestamps := by
  obtain ⟨s, c, ty⟩ := id
  cases ty <;>
    simp [dropTask, after, batchCmds, World.hincrby, World.del_zsets_apply, buildPublisherKey, buildTaskKey]

@[simp] theorem after_clock_eq (cs : List Cmd) : (after cs w).clock = w.clock := by
  induction cs generalizing w with
  | nil => rfl
  | cons c cs ih =>
    show (after cs (handle c w).2).clock = _
    rw [ih, after_clock]

@[simp] theorem dropTask_clock (id : TaskIdentifier) : (dropTask id w).clock = w.clock :=
  after_clock_eq w _

theorem putTask_task : (putTask t w).hashes (.task body) =
    if Key.task body = t.key then
      some ⟨(serializeTask t).over ((w.fieldsAt t.key).getD fun _ => none),
        some (ms w.clock + 1000 * TASK_TTL_SEC)⟩
    else w.hashes (.task body) := by
  simp only [putTask, World.expire_apply, World.hset_apply, if_true, Option.map_some, World.hset_clock]
  split <;> rfl

@[simp] theorem putTask_pub : (putTask t w).hashes (.pub s') = w.hashes (.pub s') := by
  simp [putTask, World.expire_apply, World.hset_apply, StreamTask.key, buildTaskKey]

@[simp] theorem putTask_global : (putTask t w).hashes .global_players = w.hashes .global_players := by
  simp [putTask, World.expire_apply, World.hset_apply, StreamTask.key, buildTaskKey]

@[simp] theorem putTask_sets : (putTask t w).sets = w.sets := rfl
@[simp] theorem putTask_zsets : (putTask t w).zsets = w.zsets := rfl
@[simp] theorem putTask_clock : (putTask t w).clock = w.clock := rfl

@[simp] theorem indexPublisher_task : (indexPublisher t w).hashes (.task body) = w.hashes (.task body) := by
  simp [indexPublisher, after, World.hset_apply, buildPublisherKey]

theorem indexPublisher_pub : (indexPublisher t w).hashes (.pub s') =
    if s' = t.stream_name then
      some ⟨(serializeTask t).over ((w.fieldsAt (.pub s')).getD fun _ => none),
        (w.hashes (.pub s')).bind Hash.expireAt⟩
    else w.hashes (.pub s') := by
  simp only [indexPublisher, after, List.foldl_cons, List.foldl_nil, after_hset, after_sadd,
    World.setSet_hashes, World.hset_apply, buildPublisherKey, Key.pub.injEq]
  split
  · rename_i h; rw [h]
  · rfl

@[simp] theorem indexPublisher_global :
    (indexPublisher t w).hashes .global_players = w.hashes .global_players := by
  simp [indexPublisher, after, World.hset_apply, buildPublisherKey]

theorem indexPublisher_members : (indexPublisher t w).sets (.members s') =
    if s' = t.stream_name then (w.sets (.members t.stream_name)).add t.client_id else w.sets (.members s') := by
  simp [indexPublisher, after, World.setSet_apply, buildActivePublishersKey, memberKey]

theorem indexPublisher_active : (indexPublisher t w).sets .active_pubs =
    (w.sets .active_pubs).add t.stream_name := by
  simp [indexPublisher, after, World.setSet_apply, buildActivePublishersKey, memberKey]

@[simp] theorem indexPublisher_zsets : (indexPublisher t w).zsets = w.zsets := rfl
@[simp] theorem indexPublisher_clock : (indexPublisher t w).clock = w.clock := rfl

@[simp] theorem indexPlayer_task : (indexPlayer t w).hashes (.task body) = w.hashes (.task body) := by
  simp [indexPlayer, after, World.hincrby, World.hset_apply, buildGlobalPlayerCountKey]

@[simp] theorem indexPlayer_pub : (indexPlayer t w).hashes (.pub s') = w.hashes (.pub s') := by
  simp [indexPlayer, after, World.hincrby, World.hset_apply, buildGlobalPlayerCountKey]

theorem indexPlayer_members : (indexPlayer t w).sets (.members s') =
    if s' = t.stream_name then (w.sets (.members t.stream_name)).add t.client_id else w.sets (.members s') := by
  simp [indexPlayer, after, World.hincrby, World.setSet_apply, memberKey]

@[simp] theorem indexPlayer_active : (indexPlayer t w).sets .active_pubs = w.sets .active_pubs := by
  simp [indexPlayer, after, World.hincrby, World.setSet_apply, memberKey]

@[simp] theorem indexPlayer_zsets : (indexPlayer t w).zsets = w.zsets := rfl
@[simp] theorem indexPlayer_clock : (indexPlayer t w).clock = w.clock := rfl

/-- The fields that a heartbeat writes. -/
def beat (now : ℤ) : Fields :=
  Function.update (fun _ => none) .last_active_time_ms (some (Decimal.to_string (ms now)))

theorem touch_task : (touch s c w).hashes (.task body) =
    if Key.task body = buildTaskKey s c then
      some ⟨(beat w.clock).over ((w.fieldsAt (buildTaskKey s c)).getD fun _ => none),
        some (ms w.clock + 1000 * TASK_TTL_SEC)⟩
    else w.hashes (.task body) := by
  simp only [touch, after, List.foldl_cons, List.foldl_nil, after_hset, after_expire, after_zadd,
    World.setZset_hashes, World.expire_apply, World.hset_apply, if_true, Option.map_some, World.hset_clock]
  split <;> rfl

@[simp] theorem touch_pub : (touch s c w).hashes (.pub s') = w.hashes (.pub s') := by
  simp [touch, after, World.expire_apply, World.hset_apply, buildTaskKey]

@[simp] theorem touch_global : (touch s c w).hashes .global_players = w.hashes .global_players := by
  simp [touch, after, World.expire_apply, World.hset_apply, buildTaskKey]

theorem touch_zset : (touch s c w).zsets buildTaskTimestampZSetKey =
    (w.zsets buildTaskTimestampZSetKey).add (buildTaskKey s c) (ms w.clock) := World.setZset_self ..

@[simp] theorem touch_sets : (touch s c w).sets = w.sets := rfl
@[simp] theorem touch_clock : (touch s c w).clock = w.clock := rfl

end Keys

end StreamGate.State
