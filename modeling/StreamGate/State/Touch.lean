import StreamGate.State.Alone

/-!
# Heartbeats without a task

`touchTask` takes the reply to its `EXPIRE` for whether there was a task.  The `HSET` before it has created the hash by
then, so the reply is always `true`: a heartbeat for a client without a task succeeds, and leaves a hash with one field
and an entry among the time stamps.
-/

namespace StreamGate.State

open StreamGate.Redis StreamGate.Task StreamGate.Lib

/-- What a heartbeat is meant to do: it succeeds for a client with a task, and changes nothing for one without. -/
structure Honest (w : World) (s c : String) : Prop where
  result : (w.run (touchTask s c)).1 = true ↔ (w.hashes (buildTaskKey s c)).isSome
  unchanged : w.hashes (buildTaskKey s c) = none → (w.run (touchTask s c)).2 = w

section Touch

variable {w : World} {s c : String}

theorem touch_score (w : World) (s c : String) :
    ((touch s c w).zsets buildTaskTimestampZSetKey).score (buildTaskKey s c) = some (ms w.clock) := by
  rw [touch_zset, ZSet.score_add, if_pos rfl]

/-- **A heartbeat creates what it does not find.**  It does what it is meant to exactly if the hash of the task is
there. -/
theorem honest_iff (w : World) (s c : String) : Honest w s c ↔ (w.hashes (buildTaskKey s c)).isSome := by
  constructor
  · intro h
    exact h.result.1 (by rw [run_touchTask])
  · intro hsome
    constructor
    · rw [run_touchTask]
      exact iff_of_true rfl hsome
    · intro hnone
      rw [hnone] at hsome
      cases hsome

end Touch

/-- Nobody has registered anything. -/
theorem touch_nobody :
    let w := World.initial 1700000000000000000
    w.hashes (buildTaskKey "live" "a") = none ∧ ¬ Honest w "live" "a" ∧
      (w.run (touchTask "live" "a")).1 = true ∧
      ((w.run (touchTask "live" "a")).2.hashes (buildTaskKey "live" "a")).isSome ∧
      ((w.run (touchTask "live" "a")).2.zsets buildTaskTimestampZSetKey).score (buildTaskKey "live" "a") =
        some 1700000000000 := by
  refine ⟨rfl, ?_, rfl, rfl, ?_⟩
  · rw [honest_iff]
    exact Bool.false_ne_true
  · rw [run_touchTask]
    exact touch_score _ _ _

end StreamGate.State
