import StreamGate.Lib.Runs
import StreamGate.State.Scan
import StreamGate.Scheduler.TaskScheduler

/-!
# Sequential runs

The operations on the store, each run as one step, and the passing of time between them.  A hook of
the scheduler is one of these operations or none (`HookCall.step_eq`), so what holds along the runs of
operations holds along those of hooks.  The first result about runs is the agreement of the two
copies of a publisher (`publisher_copies_agree`).
-/

namespace StreamGate.Scheduler

open StreamGate.Redis StreamGate.Task StreamGate.Lib StreamGate.State

/-- One step of a sequential run.  Time passes only in `pass`, which also drops expired keys. -/
inductive Op where
  | register (t : StreamTask)
  | deregister (stream_name client_id : String)
  | deregisterAll (stream_name : String)
  | touch (stream_name client_id : String)
  | scan (timeout : ℤ)
  | cleanup (task_timeout : ℤ)
  | pass (t : ℤ)

/-- The world after a step. -/
def Op.step : Op → World → World
  | register t, w => (w.run (registerTask t)).2
  | deregister s c, w => (w.run (deregisterTask s c)).2
  | deregisterAll s, w => (w.run (deregisterAllMembers s)).2
  | touch s c, w => (w.run (touchTask s c)).2
  | scan timeout, w => (w.run (scanTimeoutTasks timeout)).2
  | cleanup task_timeout, w => (w.run (timeoutCleanup task_timeout)).2
  | pass t, w => advance t w

/-! ### The scheduler in terms of the state manager -/

section Steps

variable (w : World)

/-- A publish request that passes validation and authentication registers its task. -/
theorem run_onPublish (cfg : NodeConfig) (r : Request) :
    (w.run (onPublish cfg r)).2 =
      if validateRequest r ∧ r.code = 0 then
        (w.run (registerTask (newTask r .PUBLISHER (selectBestNode cfg r.nodeIndex r.protocol).1
          (selectBestNode cfg r.nodeIndex r.protocol).2 w.clock))).2
      else w := by
  unfold onPublish
  by_cases hv : validateRequest r
  · by_cases hc : r.code = 0
    · rw [if_neg (not_not.2 hv), if_neg (not_not.2 hc), if_pos ⟨hv, hc⟩]
      rw [run_bind]
      show (World.run w (do let _ ← getPublisherTask r.stream_name; _)).2 = _
      rw [run_bind, run_getPublisherTask, run_bind]
      dsimp only
      split <;> rfl
    · rw [if_neg (not_not.2 hv), if_pos hc, if_neg fun h => hc h.2]
      rfl
  · rw [if_pos hv, if_neg fun h => hv h.1]
    rfl

/-- A play request that passes validation and authentication registers its task on the node of the
publisher, if there is one. -/
theorem run_onPlay (r : Request) :
    (w.run (onPlay r)).2 =
      match pubAt w r.stream_name with
      | some pub =>
        if validateRequest r ∧ r.code = 0 then
          (w.run (registerTask (newTask r .PLAYER pub.server_ip pub.server_port w.clock))).2
        else w
      | none => w := by
  unfold onPlay
  by_cases hv : validateRequest r
  · by_cases hc : r.code = 0
    · rw [if_neg (not_not.2 hv), if_neg (not_not.2 hc), run_bind, run_getPublisherTask]
      cases pubAt w r.stream_name with
      | none => rfl
      | some pub =>
        dsimp only
        rw [if_pos ⟨hv, hc⟩, run_bind]
        show (World.run w (do let b ← registerTask _; _)).2 = _
        rw [run_bind]
        split <;> rfl
    · rw [if_neg (not_not.2 hv), if_pos hc]
      simp only [hc, and_false, if_false]
      split <;> rfl
  · rw [if_pos hv]
    simp only [hv]
    split <;> rfl

theorem run_onPublishDone (s c : String) :
    (w.run (onPublishDone s c)).2 =
      if (taskAt w (buildTaskKey s c)).any (fun t => t.type = .PUBLISHER) then clearStream s w else w := by
  unfold onPublishDone
  rw [run_bind, run_getTask]
  dsimp only
  split
  · rw [run_deregisterAllMembers]
  · rfl

theorem run_onPlayDone (s c : String) : (w.run (onPlayDone s c)).2 = forget s c w := by
  unfold onPlayDone
  rw [run_bind, run_deregisterTask]
  rfl

/-- The cascades for a list of streams. -/
theorem run_deregisterStreams (streams : List String) :
    (w.run (deregisterStreams streams)).2 = streams.foldl (fun w s => clearStream s w) w := by
  induction streams generalizing w with
  | nil => rfl
  | cons s streams ih =>
    rw [deregisterStreams, run_bind, run_deregisterAllMembers, ih]
    rfl

/-- An iteration of the cleanup: the scan, the batch of what it found, and the cascades. -/
theorem run_timeoutCleanup (task_timeout : ℤ) :
    (w.run (timeoutCleanup task_timeout)).2 =
      (publisherDiedStreams (w.run (scanTimeoutTasks (1000 * task_timeout))).1).foldl
        (fun w s => clearStream s w)
        (dropTasks ((w.run (scanTimeoutTasks (1000 * task_timeout))).1.map StreamTask.ident)
          (w.run (scanTimeoutTasks (1000 * task_timeout))).2) := by
  unfold timeoutCleanup cleanExpired
  rw [run_bind]
  split
  · rename_i h
    rw [h]
    rfl
  · rw [run_bind, run_deregisterTasksBatch, run_deregisterStreams]

end Steps

/-- A hook of the scheduler. -/
inductive HookCall where
  | publish (node_config : NodeConfig) (r : Request)
  | play (r : Request)
  | publishDone (stream_name client_id : String)
  | playDone (stream_name client_id : String)

/-- The world after a hook. -/
def HookCall.step : HookCall → World → World
  | publish cfg r, w => (w.run (onPublish cfg r)).2
  | play r, w => (w.run (onPlay r)).2
  | publishDone s c, w => (w.run (onPublishDone s c)).2
  | playDone s c, w => (w.run (onPlayDone s c)).2

/-- The operation a hook comes down to. -/
def HookCall.op (w : World) : HookCall → Option Op
  | publish cfg r => if validateRequest r ∧ r.code = 0 then
      some (.register (newTask r .PUBLISHER (selectBestNode cfg r.nodeIndex r.protocol).1
        (selectBestNode cfg r.nodeIndex r.protocol).2 w.clock)) else none
  | play r => (pubAt w r.stream_name).bind fun pub => if validateRequest r ∧ r.code = 0 then
      some (.register (newTask r .PLAYER pub.server_ip pub.server_port w.clock)) else none
  | publishDone s c => if (taskAt w (buildTaskKey s c)).any fun t => t.type = .PUBLISHER then
      some (.deregisterAll s) else none
  | playDone s c => some (.deregister s c)

/-- A hook is one operation or none. -/
theorem HookCall.step_eq (h : HookCall) (w : World) : h.step w = runs Op.step (h.op w).toList w := by
  cases h with
  | publish cfg r =>
    rw [HookCall.step, run_onPublish, HookCall.op]
    split <;> rfl
  | play r =>
    rw [HookCall.step, run_onPlay, HookCall.op]
    cases pubAt w r.stream_name with
    | none => rfl
    | some pub =>
      rw [Option.bind_some]
      dsimp only
      split <;> rfl
  | publishDone s c =>
    rw [HookCall.step, run_onPublishDone, HookCall.op]
    split
    · exact (congrArg Prod.snd (run_deregisterAllMembers w s)).symm
    · rfl
  | playDone s c =>
    rw [HookCall.step, run_onPlayDone, HookCall.op]
    exact (congrArg Prod.snd (run_deregisterTask w s c)).symm

/-! ### The copies of a publisher along runs -/

/-- The steps that keep the two copies of a publisher in step: a heartbeat does not change a
publisher, no publisher's hash runs out, and the names of a new publisher have no colon.  A publisher that is
refused may have any names. -/
def KeepsCopies (w : World) : Op → Prop
  | .register t => Barred w t ∨ Plain t
  | .touch s c => BeatSpares w s c
  | .pass t => PublishersLast w t
  | _ => True

/-- The cascades keep what drops keep. -/
theorem clearStreams_drops (streams : List String) (w : World) :
    ∃ ids, Drops w ids (streams.foldl (fun w s => clearStream s w) w) := by
  induction streams generalizing w with
  | nil => exact ⟨_, .refl⟩
  | cons s streams ih =>
    obtain ⟨ids, h⟩ := ih (clearStream s w)
    exact ⟨_, (clearStream_drops w s).trans h⟩

theorem keepsCopies_step (w : World) (op : Op) (hw : Copies w ∧ Stamped w) (h : KeepsCopies w op) :
    Copies (op.step w) ∧ Stamped (op.step w) := by
  have hdrops : ∀ {w' : World}, (∃ ids, Drops w ids w') → Copies w' ∧ Stamped w' :=
    fun ⟨_, hd⟩ => ⟨hw.1.drops hd, hw.2.drops hd⟩
  cases op with
  | register t =>
    rcases h with hbarred | hplain
    · rw [Op.step, run_registerTask_barred hbarred]
      exact hw
    · exact ⟨hw.1.registerTask hplain, hw.2.registerTask t⟩
  | deregister s c =>
    rw [Op.step, run_deregisterTask]
    exact hdrops ⟨_, forget_drops w s c⟩
  | deregisterAll s =>
    rw [Op.step, run_deregisterAllMembers]
    exact hdrops ⟨_, clearStream_drops w s⟩
  | touch s c =>
    rw [Op.step, run_touchTask]
    exact ⟨hw.1.touch h, stamped_add hw.2 _ _⟩
  | scan timeout => exact hdrops (scan_drops w timeout)
  | cleanup task_timeout =>
    rw [Op.step, run_timeoutCleanup]
    obtain ⟨hc, hz⟩ := hdrops (scan_drops w (1000 * task_timeout))
    obtain ⟨ids, hd⟩ := clearStreams_drops
      (publisherDiedStreams (w.run (scanTimeoutTasks (1000 * task_timeout))).1) _
    refine ⟨Copies.drops hd (hc.dropTasks ?_), (hz.dropTasks _).drops hd⟩
    intro id hid
    obtain ⟨t, ht, rfl⟩ := List.mem_map.1 hid
    exact (scan_gone hw.1.keyed hw.2 t ht).dead
  | pass t => exact ⟨hw.1.advance h, hw.2.advance t⟩

/-- **The two copies of a publisher agree** in every state of a run all of whose steps keep them in
step. -/
theorem publisher_copies_agree (clock : ℤ) (ops : List Op)
    (h : Along Op.step KeepsCopies ops (World.initial clock)) (s : String) :
    let w := runs Op.step ops (World.initial clock)
    ((∃ p, (w.run (getPublisherTask s)).1 = some p) ↔
      ∃ c q, (w.run (getTask s c)).1 = some q ∧ q.type = .PUBLISHER) ∧
    ∀ p c q, (w.run (getPublisherTask s)).1 = some p → (w.run (getTask s c)).1 = some q →
      q.type = .PUBLISHER → c = p.client_id ∧ p = q := by
  have hw : Copies (runs Op.step ops (World.initial clock)) :=
    (h.inv (I := fun w => Copies w ∧ Stamped w) keepsCopies_step
      ⟨Copies.initial clock, fun k hk => absurd rfl hk⟩).1
  refine ⟨⟨fun ⟨p, hp⟩ => ?_, fun ⟨c, q, hq, hqp⟩ => ⟨q, hw.pub s c q hq hqp⟩⟩, ?_⟩
  · obtain ⟨ht, htp⟩ := hw.task s p hp
    exact ⟨p.client_id, p, ht, htp⟩
  · intro p c q hp hq hqp
    have hpub := hw.pub s c q hq hqp
    obtain rfl := Option.some.inj (hp.symm.trans hpub)
    exact ⟨(hw.names hq hqp).2.2.2.symm, rfl⟩

/-- The moment at which the runs below start. -/
def start : ℤ := 1700000000000000000

/-- A second, on the clock. -/
def second : ℤ := 1000000000

/-- A task of the client `c` on the stream `live`. -/
def taskOf (c : String) (type : StreamType) (now : ℤ) : StreamTask :=
  newTask { stream_name := "live", client_id := c, auth_token := "t" } type "127.0.0.1" 1935 now

/-- A publisher, a second later a heartbeat of somebody else, and the copies agree. -/
theorem publisher_copies_agree_later :
    let w := runs Op.step [.register (taskOf "a" .PUBLISHER start), .pass (start + second), .touch "live" "b"]
      (World.initial start)
    (∃ p, (w.run (getPublisherTask "live")).1 = some p) ∧
      ∀ p c q, (w.run (getPublisherTask "live")).1 = some p → (w.run (getTask "live" c)).1 = some q →
        q.type = .PUBLISHER → c = p.client_id ∧ p = q := by
  refine ⟨Option.isSome_iff_exists.1 (by decide +kernel), ?_⟩
  refine (publisher_copies_agree start [.register (taskOf "a" .PUBLISHER start), .pass (start + second),
    .touch "live" "b"] ⟨.inr fun _ => by decide, ?_, ?_, trivial⟩ "live").2
  · intro s c q hq _
    by_cases hk : buildTaskKey s c = (taskOf "a" .PUBLISHER start).key
    · rw [hk]
      refine (hashes_advance _ _ _).resolve_left fun h => ?_
      have : ((advance (start + second) (Op.step (.register (taskOf "a" .PUBLISHER start))
          (World.initial start))).hashes (taskOf "a" .PUBLISHER start).key).isSome := by decide +kernel
      rw [h] at this
      cases this
    · have hnone := registerTask_task_of_ne (w := World.initial start) hk
      have := (taskAt_of_none hnone).symm.trans hq
      cases this
  · intro f hf
    have : ((advance (start + second) (Op.step (.register (taskOf "a" .PUBLISHER start))
        (World.initial start))).fieldsAt (buildTaskKey "live" "b")).isNone := by decide +kernel
    cases (Option.isNone_iff_eq_none.1 this).symm.trans hf

/-- A publisher, and a second later its own heartbeat: the two copies differ. -/
theorem publisher_copies_differ :
    let w := runs Op.step [.register (taskOf "a" .PUBLISHER start), .pass (start + second), .touch "live" "a"]
      (World.initial start)
    ∃ p q, (w.run (getPublisherTask "live")).1 = some p ∧ (w.run (getTask "live" "a")).1 = some q ∧
      q.type = .PUBLISHER ∧ p ≠ q := by
  refine ⟨(taskOf "a" .PUBLISHER start).stored,
    { (taskOf "a" .PUBLISHER start).stored with last_active_time := start + second }, ?_, ?_, rfl, ?_⟩
  · decide +kernel
  · decide +kernel
  · decide

end StreamGate.Scheduler
