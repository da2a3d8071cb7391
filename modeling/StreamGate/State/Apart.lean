import StreamGate.State.Copies

/-!
# Tasks of different clients

A registration, a deregistration and a heartbeat write and delete the hash at one key, so the task of
another client stays as it is as long as its key is another one.  Names come from the requests as they
are, and the key of a task does not say where the stream ends: `tasks_apart_iff` says for which pairs
of names the operations keep apart.
-/

namespace StreamGate.State

open StreamGate.Redis StreamGate.Task StreamGate.Lib

/-- The operations for the client `c` of the stream `s` leave the task of `c'` on `s'` alone. -/
def Apart (s c s' c' : String) : Prop :=
  ∀ w : World, (∀ t : StreamTask, t.stream_name = s → t.client_id = c →
      ((w.run (registerTask t)).2.run (getTask s' c')).1 = (w.run (getTask s' c')).1) ∧
    ((w.run (deregisterTask s c)).2.run (getTask s' c')).1 = (w.run (getTask s' c')).1 ∧
    ((w.run (touchTask s c)).2.run (getTask s' c')).1 = (w.run (getTask s' c')).1

theorem apart_of_key_ne {s c s' c' : String} (h : buildTaskKey s' c' ≠ buildTaskKey s c) :
    Apart s c s' c' := by
  intro w
  refine ⟨?_, ?_, ?_⟩
  · rintro t rfl rfl
    exact taskAt_congr (registerTask_task_of_ne h)
  · rw [run_deregisterTask]
    exact taskAt_congr (forget_task_of_ne h)
  · rw [run_touchTask]
    exact taskAt_congr ((touch_task w s c _).trans (if_neg h))

/-- A player of the client, registered in the first millisecond that the code accepts. -/
def firstPlayer (s c : String) : StreamTask where
  stream_name := s
  client_id := c
  start_time := MIN_REASONABLE_MS * 1000000
  last_active_time := MIN_REASONABLE_MS * 1000000

theorem firstPlayer_readable (s c : String) : (firstPlayer s c).Readable := by
  have h : Reasonable (ms (MIN_REASONABLE_MS * 1000000)) := by decide
  exact ⟨h, h⟩

/-- Somebody who has the key of the client can take its task away. -/
theorem not_apart_of_key_eq {s c s' c' : String} (h : buildTaskKey s' c' = buildTaskKey s c) :
    ¬ Apart s c s' c' := by
  intro hapart
  let w := putTask (firstPlayer s c) (World.initial 0)
  have htask : taskAt w (buildTaskKey s c) = some (firstPlayer s c).stored :=
    taskAt_putTask_self.trans (if_pos (firstPlayer_readable s c))
  have hgone : taskAt (forget s c w) (buildTaskKey s c) = none := by
    unfold forget
    rw [htask]
    exact (taskAt_dropTask w s c _ _).trans (if_pos rfl)
  have hsame := (hapart w).2.1
  rw [run_deregisterTask, run_getTask, run_getTask, h] at hsame
  rw [htask] at hsame
  exact absurd (hgone.symm.trans hsame) nofun

/-- **Tasks do not alias**, unless the two pairs of names are different and give the same key. -/
theorem tasks_apart_iff (s c s' c' : String) (hne : (s, c) ≠ (s', c')) :
    Apart s c s' c' ↔ ¬ Joined s c s' c' := by
  have hkey : buildTaskKey s c = buildTaskKey s' c' ↔ Joined s c s' c' := by
    rw [taskKey_eq_iff]
    exact or_iff_right fun ⟨hs, hc⟩ => hne (by rw [hs, hc])
  constructor
  · intro hapart hj
    exact not_apart_of_key_eq (hkey.2 hj).symm hapart
  · intro hj
    exact apart_of_key_ne fun e => hj (hkey.1 e.symm)

/-- Two clients of one stream. -/
theorem tasks_apart_of_two : ("live", "a") ≠ ("live", "b") ∧ Apart "live" "a" "live" "b" := by
  refine ⟨by decide, (tasks_apart_iff "live" "a" "live" "b" (by decide)).2 fun hj => ?_⟩
  exact absurd (taskKey_client.1 (taskKey_eq_iff.2 (.inr hj))) (by decide)

/-- The client `x:b` of the stream `live` leaves, and takes the task of `b` on `live:x` with it. -/
theorem tasks_alias :
    ("live", "x:b") ≠ ("live:x", "b") ∧ ¬ Apart "live" "x:b" "live:x" "b" :=
  ⟨by decide, not_apart_of_key_eq (by decide)⟩

end StreamGate.State
