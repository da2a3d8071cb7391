import StreamGate.Lib.Runs
import StreamGate.State.Calm
import StreamGate.State.Streams
import StreamGate.State.Touch

/-!
# What a deregistration leaves behind

Registration and heartbeats enter the key of a task among the time stamps.  The batch that `deregisterTask` sends for a
task that it finds does not take the entry out; a task that it does not find loses its entry and nothing else.  So a
deregistration leaves something behind whatever it finds.
-/

namespace StreamGate.State

open StreamGate.Redis StreamGate.Task StreamGate.Lib

/-! ### Runs -/

/-- One step of a sequential run without expiry. -/
inductive TaskOp where
  | register (t : StreamTask)
  | touch (stream_name client_id : String)
  | deregister (stream_name client_id : String)
  | tick (t : ℤ)

/-- The world after a step. -/
def TaskOp.step : TaskOp → World → World
  | register t, w => (w.run (registerTask t)).2
  | touch s c, w => (w.run (touchTask s c)).2
  | deregister s c, w => (w.run (deregisterTask s c)).2
  | tick t, w => Redis.tick t w

/-! ### Time stamps -/

/-- A task that can be read has a time stamp. -/
def Entered (w : World) : Prop :=
  ∀ body, taskAt w (.task body) ≠ none → (w.zsets buildTaskTimestampZSetKey).score (.task body) ≠ none

namespace Entered

variable {w : World}

theorem forget (hw : Entered w) (s c : String) : Entered (forget s c w) := by
  intro body hread
  by_cases hk : Key.task body = buildTaskKey s c
  · rw [hk] at hread
    exact absurd (taskAt_forget_self w s c) hread
  · rw [taskAt_forget, if_neg hk] at hread
    rw [forget_score_of_ne hk]
    exact hw body hread

/-- A registration enters the time stamp last, or takes back what it has written. -/
theorem place {t : StreamTask} (hread : taskAt (State.place t w).2 t.key ≠ none) :
    ((State.place t w).2.zsets buildTaskTimestampZSetKey).score t.key ≠ none := by
  have hfinish : ∀ v, taskAt (finish t v).2 t.key ≠ none →
      ((finish t v).2.zsets buildTaskTimestampZSetKey).score t.key ≠ none := by
    intro v
    unfold finish
    split
    · intro _
      rw [World.setZset_self, ZSet.score_add, if_pos rfl]
      exact Option.some_ne_none _
    · intro hread
      exact absurd (taskAt_forget_self v _ _) hread
  revert hread
  unfold State.place
  split
  · split
    · intro hread
      exact absurd (taskAt_forget_self w _ _) hread
    · exact hfinish _
  · exact hfinish _

theorem registerTask (hw : Entered w) (t : StreamTask) : Entered (w.run (registerTask t)).2 := by
  intro body hread
  by_cases hk : Key.task body = t.key
  · rw [hk] at hread ⊢
    have hw := hw body
    rw [hk] at hw
    revert hread
    rw [run_registerTask]
    split
    · split
      · exact place
      · split
        · exact hw
        · exact place
    · split
      · exact place
      · exact place
  · rw [taskAt_congr (registerTask_task_of_ne hk)] at hread
    rw [registerTask_score_of_ne hk]
    exact hw body hread

theorem touch (hw : Entered w) (s c : String) : Entered (touch s c w) := by
  intro body hread
  by_cases hk : Key.task body = buildTaskKey s c
  · rw [hk, touch_score]
    exact Option.some_ne_none _
  · rw [taskAt_congr ((touch_task w s c body).trans (if_neg hk))] at hread
    rw [touch_zset, ZSet.score_add, if_neg hk]
    exact hw body hread

theorem step (hw : Entered w) (op : TaskOp) : Entered (op.step w) := by
  cases op with
  | register t => exact hw.registerTask t
  | touch s c =>
    rw [TaskOp.step, run_touchTask]
    exact hw.touch s c
  | deregister s c =>
    rw [TaskOp.step, run_deregisterTask]
    exact hw.forget s c
  | tick t => exact hw

theorem initial (clock : ℤ) : Entered (World.initial clock) := fun _ h => absurd rfl h

end Entered

/-! ### After a deregistration -/

/-- The client is registered in some sense: it has the hash of a task, or is a member of the stream. -/
def Registered (w : World) (s c : String) : Prop :=
  (w.hashes (buildTaskKey s c)).isSome ∨ c ∈ w.sets (memberKey s)

/-- Nothing is left of a client. -/
structure NoTrace (publisher : Bool) (w : World) (s c : String) : Prop where
  task : w.hashes (buildTaskKey s c) = none
  member : ¬ c ∈ w.sets (memberKey s)
  stamp : (w.zsets buildTaskTimestampZSetKey).score (buildTaskKey s c) = none
  pub : publisher = true → w.hashes (buildPublisherKey s) = none
  active : publisher = true → ¬ s ∈ w.sets buildActivePublishersKey

/-- What `deregisterTask` is for. -/
def Erases (w : World) (s c : String) : Prop :=
  (w.run (deregisterTask s c)).1 = true → NoTrace (publishing w s c) (w.run (deregisterTask s c)).2 s c

section Erases

variable {w : World} {s c : String}

/-- A client is registered once `registerTask` has returned `true`. -/
theorem registered_of_registerTask {t : StreamTask} (h : (w.run (registerTask t)).1 = true) :
    Registered (w.run (registerTask t)).2 t.stream_name t.client_id := by
  have hfinish : ∀ v, t.client_id ∈ v.sets (memberKey t.stream_name) → (finish t v).1 = true →
      t.client_id ∈ (finish t v).2.sets (memberKey t.stream_name) := by
    intro v hv
    unfold finish
    split
    · exact fun _ => hv
    · exact fun h => absurd h Bool.false_ne_true
  have hplace : ∀ v, (place t v).1 = true → t.client_id ∈ (place t v).2.sets (memberKey t.stream_name) := by
    intro v
    unfold place
    split
    · split
      · exact fun h => absurd h Bool.false_ne_true
      · exact hfinish _ (by rw [memberKey, indexPublisher_members, if_pos rfl]; simp)
    · exact hfinish _ (by rw [memberKey, indexPlayer_members, if_pos rfl]; simp)
  right
  revert h
  rw [run_registerTask]
  split
  · split
    · exact hplace _
    · split
      · exact fun h => absurd h Bool.false_ne_true
      · exact hplace _
  · split
    · exact hplace _
    · exact hplace _

/-- A task that is found is gone from everywhere but the time stamps. -/
theorem erases_found {t : StreamTask} (ht : taskAt w (buildTaskKey s c) = some t) :
    Erases w s c ↔ (w.zsets buildTaskTimestampZSetKey).score (buildTaskKey s c) = none := by
  have hstamp : (forget s c w).zsets buildTaskTimestampZSetKey = w.zsets buildTaskTimestampZSetKey := by
    rw [forget_some ht]
    exact dropTask_zsets w _
  have hpublishing : publishing w s c = true → t.type = .PUBLISHER := by
    rw [publishing, ht, Option.any_some, decide_eq_true_eq]
    exact id
  rw [Erases, run_deregisterTask]
  dsimp only
  constructor
  · intro h
    rw [← hstamp]
    exact (h rfl).stamp
  · intro hz _
    constructor
    · rw [forget_some ht]
      exact (dropTask_task w s c _ t.type).trans (if_pos rfl)
    · rw [forget_some ht, memberKey, dropTask_members, if_pos rfl]
      simp
    · rw [hstamp]
      exact hz
    · intro hp
      rw [buildPublisherKey, forget_pub, if_pos ⟨hp, rfl⟩]
    · intro hp
      rw [forget_some ht, buildActivePublishersKey, dropTask_active, if_pos (hpublishing hp)]
      simp

/-- A client whose task is not found loses its time stamp only. -/
theorem erases_missing (ht : taskAt w (buildTaskKey s c) = none) : Erases w s c ↔ ¬ Registered w s c := by
  have hpublishing : publishing w s c = false := by rw [publishing, ht, Option.any_none]
  rw [Erases, run_deregisterTask, forget_none ht, hpublishing]
  constructor
  · rintro h (hsome | hmem)
    · exact absurd hsome (by rw [show w.hashes (buildTaskKey s c) = none from (h rfl).task]; exact Bool.false_ne_true)
    · exact (h rfl).member hmem
  · intro h _
    obtain ⟨htask, hmember⟩ := not_or.1 h
    constructor
    · simpa using htask
    · exact hmember
    · rw [World.setZset_self, ZSet.score_rem, if_pos rfl]
    · exact fun h => absurd h Bool.false_ne_true
    · exact fun h => absurd h Bool.false_ne_true

/-- **A deregistration leaves a trace.**  In every state that a run of registrations, heartbeats and deregistrations
reaches, and for every client that is registered: of a task that is found the time stamp is left, and of one that is not
found everything else. -/
theorem not_erases (clock : ℤ) (ops : List TaskOp) (s c : String)
    (h : Registered (runs TaskOp.step ops (World.initial clock)) s c) :
    ¬ Erases (runs TaskOp.step ops (World.initial clock)) s c := by
  have hentered : Entered (runs TaskOp.step ops (World.initial clock)) :=
    runs_inv (fun w op hw => hw.step op) (Entered.initial clock)
  generalize runs TaskOp.step ops (World.initial clock) = w at h hentered
  cases ht : taskAt w (buildTaskKey s c) with
  | some t =>
    rw [erases_found ht]
    exact hentered _ (by rw [← buildTaskKey, ht]; exact Option.some_ne_none t)
  | none =>
    rw [erases_missing ht]
    exact not_not.2 h

end Erases

/-- A publisher at `now`. -/
def publisherAt (now : ℤ) : StreamTask where
  task_id := 1000
  stream_name := "live"
  client_id := "a"
  type := .PUBLISHER
  protocol := .RTMP
  server_ip := "127.0.0.1"
  server_port := 1935
  start_time := now
  last_active_time := now
  auth_token := "t"

/-- The store after its registration. -/
def published : World :=
  runs TaskOp.step [.register (publisherAt 1700000000000000000)] (World.initial 1700000000000000000)

/-- Its deregistration returns `true`, and leaves the time stamp. -/
theorem published_leaves_stamp :
    (published.run (deregisterTask "live" "a")).1 = true ∧
      ((published.run (deregisterTask "live" "a")).2.zsets buildTaskTimestampZSetKey).score (buildTaskKey "live" "a") =
        some 1700000000000 ∧
      ¬ Erases published "live" "a" := by
  refine ⟨by decide +kernel, by decide +kernel, ?_⟩
  intro h
  have hscore := (h (by decide +kernel)).stamp
  have hsome : (((published.run (deregisterTask "live" "a")).2.zsets buildTaskTimestampZSetKey).score
      (buildTaskKey "live" "a")).isSome := by
    decide +kernel
  rw [hscore] at hsome
  cases hsome

/-- A publisher is registered, and is not erased. -/
theorem published_not_erased : Registered published "live" "a" ∧ ¬ Erases published "live" "a" := by
  have hr : Registered published "live" "a" :=
    registered_of_registerTask (t := publisherAt 1700000000000000000) (by decide +kernel)
  exact ⟨hr, not_erases _ _ _ _ hr⟩

end StreamGate.State
