import Mathlib.Data.Set.Card
import StreamGate.State.Registry
import StreamGate.Scheduler.Listings

/-!
# The scheduler over a registry

Operations of the state manager, iterations of the cleanup and hooks of the scheduler in one run, on Redis and on a
`Registry`.  In runs of which all steps are `Regular` the store stands for the registry after every step
(`refines_of_run`), so what the program replies is what the registry says (`registry_refined`).
-/

namespace StreamGate.State

open StreamGate.Redis StreamGate.Task StreamGate.Lib

namespace Registry

variable {r : Registry} {s c : String}

/-- The publisher of the stream was not seen after the millisecond `t`. -/
def Died (r : Registry) (t : ℤ) (s : String) : Prop := ∃ c e, r.owner s = some c ∧ r.entry s c = some e ∧ e.seen ≤ t

instance (r : Registry) (t : ℤ) (s : String) : Decidable (r.Died t s) :=
  decidable_of_iff ((r.owner s).any fun c => (r.entry s c).any fun e => e.seen ≤ t) (by
    simp only [Died, Option.any_eq_true, decide_eq_true_eq]
    constructor
    · rintro ⟨c, ho, e, he, hle⟩
      exact ⟨c, e, ho, he, hle⟩
    · rintro ⟨c, e, ho, he, hle⟩
      exact ⟨c, ho, e, he, hle⟩)

/-- An iteration of `timeoutCleanupThread`: what was not seen after the millisecond `t` goes, and with a publisher the
stream. -/
def cleanup (t : ℤ) (r : Registry) : Registry := r.filter fun s _ e => t < e.seen ∧ ¬ r.Died t s

end Registry

namespace Refines

variable {w : World} {r : Registry}

/-- A batch for a client that is gone. -/
theorem dropGone (h : Refines w r) {s c : String} {ty : StreamType} (hs : NoColon s) (hnone : r.entry s c = none)
    (hfree : ty = .PUBLISHER → r.owner s = none) : Refines (dropTask ⟨s, c, ty⟩ w) r where
  ordered := h.ordered.dropTask _
  legible := Stored.dropTask h.legible _
  task s' c' hs' := by
    have hread : taskAt (dropTask ⟨s, c, ty⟩ w) (buildTaskKey s' c') =
      if buildTaskKey s' c' = buildTaskKey s c then none else taskAt w (buildTaskKey s' c') :=
        taskAt_dropTask w s c ty _
    rw [hread, h.task s' c' hs']
    split
    · rename_i hk
      obtain ⟨rfl, rfl⟩ := (taskKey_inj hs' hs).1 hk
      rw [Registry.task, hnone]
      rfl
    · rfl
  publisher s' := by
    rw [pubAt_dropTask, h.publisher]
    split
    · rename_i hp
      rw [hp.2, Registry.publisher, hfree hp.1]
      rfl
    · rfl
  member s' c' := by
    rw [dropTask_members]
    split
    · rename_i hss
      subst hss
      rw [RSet.mem_rem, h.member]
      refine and_iff_left_of_imp fun hne => ?_
      rintro rfl
      exact hne hnone
    · exact h.member s' c'
  active s' := by
    rw [dropTask_active]
    split
    · rename_i hp
      rw [RSet.mem_rem, h.active]
      refine and_iff_left_of_imp fun hne => ?_
      rintro rfl
      exact hne (hfree hp)
    · exact h.active s'
  plain := h.plain
  stamp := by
    rw [buildTaskTimestampZSetKey, dropTask_zsets]
    exact h.stamp
  stamped := by
    rw [buildTaskTimestampZSetKey, dropTask_zsets]
    exact h.stamped

theorem dropsGone (h : Refines w r) (ids : List TaskIdentifier)
    (hids : ∀ id ∈ ids, NoColon id.streamName ∧ r.entry id.streamName id.clientId = none ∧
      (id.type = .PUBLISHER → r.owner id.streamName = none)) : Refines (dropTasks ids w) r := by
  induction ids generalizing w with
  | nil => exact h
  | cons id ids ih =>
    obtain ⟨⟨hs, hnone, hfree⟩, hids⟩ := List.forall_mem_cons.1 hids
    exact ih (h.dropGone hs hnone hfree) hids

/-- The cascades. -/
theorem clears (h : Refines w r) (streams : List String) (hs : ∀ s ∈ streams, NoColon s) :
    Refines (streams.foldl (fun w s => clearStream s w) w) (r.filter fun s _ _ => s ∉ streams) := by
  induction streams generalizing w r with
  | nil =>
    have hsame : (r.filter fun s _ _ => s ∉ ([] : List String)) = r :=
      Registry.filter_eq_self fun s c e _ => decide_eq_true List.not_mem_nil
    rw [hsame]
    exact h
  | cons s streams ih =>
    obtain ⟨hs, hstreams⟩ := List.forall_mem_cons.1 hs
    have hsame : ((r.clear s).filter fun s' _ _ => s' ∉ streams) = r.filter fun s' _ _ => s' ∉ s :: streams := by
      rw [Registry.clear, Registry.filter_filter]
      refine Registry.filter_congr fun s' c' e _ => ?_
      rw [← Bool.decide_and, decide_eq_decide, List.mem_cons, not_or]
    rw [← hsame]
    exact ih (h.clear hs) hstreams

end Refines

end StreamGate.State

namespace StreamGate.Scheduler

open StreamGate.Redis StreamGate.Task StreamGate.Lib StreamGate.State

variable {w : World} {r : Registry}

/-! ### The cleanup -/

/-- **`timeoutCleanup`** takes out what is overdue, and the streams whose publisher is. -/
theorem refines_cleanup (h : Refines w r) (task_timeout : ℤ) :
    Refines (w.run (timeoutCleanup task_timeout)).2 (r.cleanup (ms w.clock - 1000 * task_timeout)) := by
  obtain ⟨hfound, hscan⟩ := h.scan (1000 * task_timeout)
  rw [run_timeoutCleanup]
  have hgone : ∀ u ∈ (w.run (scanTimeoutTasks (1000 * task_timeout))).1, NoColon u.stream_name ∧
      (r.expire (ms w.clock - 1000 * task_timeout)).entry u.stream_name u.client_id = none ∧
      (u.type = .PUBLISHER → (r.expire (ms w.clock - 1000 * task_timeout)).owner u.stream_name = none) := by
    intro u hu
    obtain ⟨s, c, e, he, hle, rfl⟩ := (hfound u).1 hu
    obtain ⟨hname, hclient⟩ := r.named s c e he
    rw [show e.task.stream_name = s from hname, show e.task.client_id = c from hclient]
    refine ⟨h.plain s c (he ▸ Option.some_ne_none e), ?_, fun hp => ?_⟩
    · rw [Registry.expire_entry, he, Option.filter_some, if_neg (by simpa using hle)]
    · rw [Registry.expire, Registry.filter_of_owner ((r.owned s c).2 ⟨e, he, hp⟩) he, if_neg (by simpa using hle)]
  have hbatch := hscan.dropsGone ((w.run (scanTimeoutTasks (1000 * task_timeout))).1.map StreamTask.ident)
    (List.forall_mem_map.2 hgone)
  have hstreams : ∀ s, s ∈ publisherDiedStreams (w.run (scanTimeoutTasks (1000 * task_timeout))).1 ↔
      r.Died (ms w.clock - 1000 * task_timeout) s := by
    intro s
    rw [mem_publisherDiedStreams]
    constructor
    · rintro ⟨u, hu, hp, rfl⟩
      obtain ⟨s, c, e, he, hle, rfl⟩ := (hfound u).1 hu
      obtain ⟨rfl, -⟩ := r.named s c e he
      exact ⟨c, e, (r.owned _ c).2 ⟨e, he, hp⟩, he, hle⟩
    · rintro ⟨c, e, ho, he, hle⟩
      obtain ⟨e', he', hp⟩ := (r.owned s c).1 ho
      obtain rfl := Option.some.inj (he.symm.trans he')
      exact ⟨e.task, (hfound _).2 ⟨s, c, e, he, hle, rfl⟩, hp, (r.named s c e he).1⟩
  have hclears := hbatch.clears (publisherDiedStreams (w.run (scanTimeoutTasks (1000 * task_timeout))).1) fun s hs => by
    obtain ⟨u, hu, -, rfl⟩ := mem_publisherDiedStreams.1 hs
    exact (hgone u hu).1
  have hsame : (r.expire (ms w.clock - 1000 * task_timeout)).filter
      (fun s _ _ => s ∉ publisherDiedStreams (w.run (scanTimeoutTasks (1000 * task_timeout))).1) =
        r.cleanup (ms w.clock - 1000 * task_timeout) := by
    rw [Registry.expire, Registry.filter_filter]
    refine Registry.filter_congr fun s c e _ => ?_
    rw [← Bool.decide_and, decide_eq_decide, hstreams]
  rw [← hsame]
  exact hclears

/-! ### The steps -/

/-- An operation, or a hook of the scheduler. -/
inductive Act where
  | op (op : Op)
  | hook (h : HookCall)

def Act.step : Act → World → World
  | op o, w => o.step w
  | hook h, w => h.step w

/-- The same on a registry, at `now`. -/
def Op.spec (now : ℤ) : Op → Registry → Registry
  | register t, r => (r.register now t).2
  | deregister s c, r => r.erase s c
  | deregisterAll s, r => r.clear s
  | touch s c, r => r.touch now s c
  | scan timeout, r => r.expire (ms now - timeout)
  | cleanup task_timeout, r => r.cleanup (ms now - 1000 * task_timeout)
  | pass _, r => r

/-- A publisher comes if the stream is free, a player if it is not, and with the publisher the stream goes. -/
def HookCall.spec (now : ℤ) : HookCall → Registry → Registry
  | publish cfg q, r => if validateRequest q ∧ q.code = 0 then
      (r.register now (newTask q .PUBLISHER (selectBestNode cfg q.nodeIndex q.protocol).1
        (selectBestNode cfg q.nodeIndex q.protocol).2 now)).2 else r
  | play q, r =>
    match r.publisher q.stream_name with
    | some pub => if validateRequest q ∧ q.code = 0 then
        (r.register now (newTask q .PLAYER pub.server_ip pub.server_port now)).2 else r
    | none => r
  | publishDone s c, r => if r.owner s = some c then r.clear s else r
  | playDone s c, r => r.erase s c

/-- The clock beside the registry. -/
def Act.spec : Act → ℤ × Registry → ℤ × Registry
  | op (.pass t), (now, r) => (max now t, r)
  | op o, (now, r) => (now, o.spec now r)
  | hook h, (now, r) => (now, h.spec now r)

/-- The names have no colon, the times are in the accepted range, a task was last active no later than now, and no
task runs out. -/
def Op.Regular (w : World) : Op → Prop
  | register t => NoColon t.stream_name ∧ t.Readable ∧ Reasonable (ms w.clock) ∧ t.last_active_time ≤ w.clock
  | deregister s _ => NoColon s
  | deregisterAll s => NoColon s
  | touch s _ => NoColon s ∧ Reasonable (ms w.clock)
  | scan _ => True
  | cleanup _ => True
  | pass t => ∀ body x, w.hashes (.task body) = some x → x.expired (ms t) = false

def HookCall.Regular (w : World) : HookCall → Prop
  | publish _ q => NoColon q.stream_name ∧ Reasonable (ms w.clock)
  | play q => NoColon q.stream_name ∧ Reasonable (ms w.clock)
  | publishDone s _ => NoColon s
  | playDone s _ => NoColon s

def Act.Regular (w : World) : Act → Prop
  | op o => o.Regular w
  | hook h => h.Regular w

/-- The clock of the store is `now`, and the store stands for the registry. -/
def StandsFor (w : World) (x : ℤ × Registry) : Prop := w.clock = x.1 ∧ Refines w x.2

theorem newTask_regular {q : Request} {type : StreamType} {ip : String} {port : Int32} (hs : NoColon q.stream_name)
    (hclock : Reasonable (ms w.clock)) : (Op.register (newTask q type ip port w.clock)).Regular w :=
  ⟨hs, ⟨hclock, hclock⟩, hclock, le_refl _⟩

theorem Op.step_refines {o : Op} (h : Refines w r) (ho : o.Regular w) : Refines (o.step w) (o.spec w.clock r) := by
  cases o with
  | register t =>
    obtain ⟨hs, ht, hclock, hlast⟩ := ho
    exact (h.register hs ht hclock (ms_mono hlast)).2
  | deregister s c =>
    rw [Op.step, run_deregisterTask]
    exact h.forget ho
  | deregisterAll s =>
    rw [Op.step, run_deregisterAllMembers]
    exact h.clear ho
  | touch s c =>
    rw [Op.step, run_touchTask]
    exact h.touch ho.1 ho.2
  | scan timeout => exact (h.scan timeout).2
  | cleanup task_timeout => exact refines_cleanup h task_timeout
  | pass t => exact h.advance ho

theorem HookCall.step_refines {k : HookCall} (h : Refines w r) (hk : k.Regular w) :
    Refines (k.step w) (k.spec w.clock r) := by
  rw [HookCall.step_eq]
  cases k with
  | publish cfg q =>
    rw [HookCall.op, HookCall.spec]
    split
    · exact Op.step_refines h (newTask_regular hk.1 hk.2)
    · exact h
  | play q =>
    rw [HookCall.op, HookCall.spec, h.publisher]
    cases r.publisher q.stream_name with
    | none => exact h
    | some pub =>
      rw [Option.bind_some]
      dsimp only
      split
      · exact Op.step_refines h (newTask_regular hk.1 hk.2)
      · exact h
  | publishDone s c =>
    have hpub : (taskAt w (buildTaskKey s c)).any (fun t => t.type = .PUBLISHER) = true ↔ r.owner s = some c :=
      h.publishing_iff hk
    rw [HookCall.op, HookCall.spec]
    by_cases ho : r.owner s = some c
    · rw [if_pos ho, if_pos (hpub.2 ho)]
      exact Op.step_refines (o := .deregisterAll s) h hk
    · rw [if_neg ho, if_neg fun hp => ho (hpub.1 hp)]
      exact h
  | playDone s c => exact Op.step_refines (o := .deregister s c) h hk

theorem Act.step_standsFor {x : ℤ × Registry} {a : Act} (h : StandsFor w x) (ha : a.Regular w) :
    StandsFor (a.step w) (a.spec x) := by
  obtain ⟨now, r⟩ := x
  obtain ⟨rfl, h⟩ : w.clock = now ∧ Refines w r := h
  cases a with
  | op o =>
    have href := Op.step_refines h ha
    cases o with
    | pass t =>
      refine ⟨?_, href⟩
      show (advance t w).clock = max w.clock t
      unfold advance
      split
      · exact (max_eq_right ‹_›).symm
      · exact (max_eq_left (Int.le_of_not_le ‹_›)).symm
    | _ => exact ⟨run_clock w _, href⟩
  | hook k =>
    refine ⟨?_, HookCall.step_refines h ha⟩
    cases k with
    | _ => exact run_clock w _

/-- After every run of regular steps the store stands for the registry. -/
theorem refines_of_run {clock : ℤ} {acts : List Act}
    (h : Along Act.step (fun w a => a.Regular w) acts (World.initial clock)) :
    StandsFor (runs Act.step acts (World.initial clock)) (runs Act.spec acts (clock, .empty)) :=
  h.sim (R := StandsFor) (fun w x a hR ha => (Act.step_standsFor hR ha : StandsFor (a.step w) (a.spec x)))
    ⟨rfl, .initial clock⟩

/-! ### The replies -/

/-- What the program replies is what the registry says: the lists without repetition and up to their order, the
scan by the tasks that it returns, and the requests by their error. -/
structure Replies (w : World) (now : ℤ) (r : Registry) : Prop where
  getTask : ∀ s c, NoColon s → (w.run (getTask s c)).1 = r.task s c
  getPublisherTask : ∀ s, (w.run (getPublisherTask s)).1 = r.publisher s
  getAllPublisherTasks : (w.run getAllPublisherTasks).1.Nodup ∧
    ∀ p, p ∈ (w.run getAllPublisherTasks).1 ↔ ∃ s, r.publisher s = some p
  getActivePublisherCount : (w.run getActivePublisherCount).1 = {s | r.owner s ≠ none}.ncard
  getStreamClientIds : ∀ s, (w.run (getStreamClientIds s)).1.Nodup ∧
    ∀ c, c ∈ (w.run (getStreamClientIds s)).1 ↔ r.entry s c ≠ none
  registerTask : ∀ t, (Op.register t).Regular w → (w.run (registerTask t)).1 = (r.register now t).1
  scanTimeoutTasks : ∀ timeout u, u ∈ (w.run (scanTimeoutTasks timeout)).1 ↔ r.Overdue (ms now - timeout) u
  onPublish : ∀ cfg q, (HookCall.publish cfg q).Regular w → (w.run (onPublish cfg q)).1.error =
    if ¬ validateRequest q then .INTERNAL_ERROR
    else if q.code ≠ 0 then .AUTH_FAILED
    else if ∃ c, r.owner q.stream_name = some c ∧ c ≠ q.client_id then .ALREADY_PUBLISHING
    else .SUCCESS
  onPlay : ∀ q, (HookCall.play q).Regular w → (w.run (onPlay q)).1.error =
    if ¬ validateRequest q then .INTERNAL_ERROR
    else if q.code ≠ 0 then .AUTH_FAILED
    else if r.owner q.stream_name = none then .NO_PUBLISHER
    else .SUCCESS

/-- A publish request that is let in has the reply of the registration. -/
theorem onPublish_error_eq (w : World) (cfg : NodeConfig) (q : Request) : (w.run (onPublish cfg q)).1.error =
    if ¬ validateRequest q then .INTERNAL_ERROR
    else if q.code ≠ 0 then .AUTH_FAILED
    else if (w.run (registerTask (newTask q .PUBLISHER (selectBestNode cfg q.nodeIndex q.protocol).1
      (selectBestNode cfg q.nodeIndex q.protocol).2 w.clock))).1 then .SUCCESS
    else .ALREADY_PUBLISHING := by
  unfold onPublish
  split
  · rfl
  · split
    · rfl
    · rw [run_bind]
      show SchedulerResult.error (World.run w (do let _ ← getPublisherTask q.stream_name; _)).1 = _
      rw [run_bind, run_getPublisherTask, run_bind]
      dsimp only
      split
      · exact (if_pos ‹_›).symm
      · exact (if_neg ‹_›).symm

/-- So has a play request, on a stream with a publisher. -/
theorem onPlay_error_eq (w : World) (q : Request) : (w.run (onPlay q)).1.error =
    if ¬ validateRequest q then .INTERNAL_ERROR
    else if q.code ≠ 0 then .AUTH_FAILED
    else match pubAt w q.stream_name with
      | none => .NO_PUBLISHER
      | some pub =>
        if (w.run (registerTask (newTask q .PLAYER pub.server_ip pub.server_port w.clock))).1 then .SUCCESS
        else .STATE_STORE_ERROR := by
  unfold onPlay
  split
  · rfl
  · split
    · rfl
    · rw [run_bind, run_getPublisherTask]
      cases pubAt w q.stream_name with
      | none => rfl
      | some pub =>
        dsimp only
        rw [run_bind]
        show SchedulerResult.error (World.run w (do let b ← registerTask _; _)).1 = _
        rw [run_bind]
        split
        · exact (if_pos ‹_›).symm
        · exact (if_neg ‹_›).symm

theorem replies_of_refines (h : Refines w r) : Replies w w.clock r where
  getTask := h.task
  getPublisherTask := h.publisher
  getAllPublisherTasks := by
    rw [run_getAllPublisherTasks]
    refine ⟨(w.sets .active_pubs).nodup.filterMap fun s s' p hs hs' => ?_, fun p => ?_⟩
    · rw [Option.mem_def, h.publisher] at hs hs'
      exact (Registry.publisher_stream hs).symm.trans (Registry.publisher_stream hs')
    · rw [List.mem_filterMap]
      refine exists_congr fun s => ?_
      rw [h.publisher]
      refine and_iff_right_of_imp fun hp => (h.active s).2 ?_
      rw [ne_eq, ← Registry.publisher_eq_none, hp]
      exact Option.some_ne_none p
  getActivePublisherCount := by
    have hset : {s | r.owner s ≠ none} = ↑(w.sets .active_pubs).elems.toFinset := by
      ext s
      rw [Finset.mem_coe, List.mem_toFinset]
      exact (h.active s).symm
    rw [hset, Set.ncard_coe_finset, List.toFinset_card_of_nodup (w.sets .active_pubs).nodup]
    rfl
  getStreamClientIds s := ⟨(w.sets (memberKey s)).nodup, fun c => h.member s c⟩
  registerTask t ht := (h.register ht.1 ht.2.1 ht.2.2.1 (ms_mono ht.2.2.2)).1
  scanTimeoutTasks timeout := (h.scan timeout).1
  onPublish cfg q hq := by
    have hreg : (Op.register (newTask q .PUBLISHER (selectBestNode cfg q.nodeIndex q.protocol).1
      (selectBestNode cfg q.nodeIndex q.protocol).2 w.clock)).Regular w := newTask_regular hq.1 hq.2
    have htaken : r.Taken (newTask q .PUBLISHER (selectBestNode cfg q.nodeIndex q.protocol).1
        (selectBestNode cfg q.nodeIndex q.protocol).2 w.clock) ↔
          ∃ c, r.owner q.stream_name = some c ∧ c ≠ q.client_id := and_iff_right rfl
    rw [onPublish_error_eq, (h.register hreg.1 hreg.2.1 hreg.2.2.1 (ms_mono hreg.2.2.2)).1, Registry.register_fst]
    simp only [decide_eq_true_eq, htaken, ite_not]
  onPlay q hq := by
    rw [onPlay_error_eq, h.publisher]
    cases hp : r.publisher q.stream_name with
    | none => rw [if_pos (Registry.publisher_eq_none.1 hp)]
    | some pub =>
      have hreg : (Op.register (newTask q .PLAYER pub.server_ip pub.server_port w.clock)).Regular w :=
        newTask_regular hq.1 hq.2
      have hfree : ¬ r.Taken (newTask q .PLAYER pub.server_ip pub.server_port w.clock) := fun ht => nomatch ht.1
      have hother : ¬ r.owner q.stream_name = none := by
        rw [← Registry.publisher_eq_none, hp]
        exact Option.some_ne_none pub
      rw [if_neg hother]
      dsimp only
      rw [(h.register hreg.1 hreg.2.1 hreg.2.2.1 (ms_mono hreg.2.2.2)).1, Registry.register_fst,
        if_pos (decide_eq_true hfree)]

/-- **The program refines the registry.**  After every run of regular operations, iterations of the cleanup and hooks,
every query, registration, scan and request gets the reply that a plain table of who publishes and who plays gives. -/
theorem registry_refined (clock : ℤ) (acts : List Act)
    (h : Along Act.step (fun w a => a.Regular w) acts (World.initial clock)) :
    Replies (runs Act.step acts (World.initial clock)) (runs Act.spec acts (clock, .empty)).1
      (runs Act.spec acts (clock, .empty)).2 := by
  obtain ⟨hclock, href⟩ := refines_of_run h
  rw [← hclock]
  exact replies_of_refines href

/-- Two publish requests, a play request, a heartbeat and an iteration of the cleanup. -/
def evening : List Act :=
  [.hook (.publish {} { stream_name := "live", client_id := "a", auth_token := "t" }),
    .hook (.publish {} { stream_name := "live", client_id := "b", auth_token := "t" }),
    .hook (.play { stream_name := "live", client_id := "c", auth_token := "t" }), .op (.touch "live" "c"),
    .op (.cleanup 60)]

theorem registry_refined_evening :
    (runs Act.spec evening (start, .empty)).2.owner "live" = some "a" ∧
      Replies (runs Act.step evening (World.initial start)) (runs Act.spec evening (start, .empty)).1
        (runs Act.spec evening (start, .empty)).2 :=
  ⟨by decide +kernel, registry_refined start evening
    ⟨⟨by decide, by decide⟩, ⟨by decide, by decide +kernel⟩, ⟨by decide, by decide +kernel⟩,
      ⟨by decide, by decide +kernel⟩, trivial, trivial⟩⟩

end StreamGate.Scheduler
