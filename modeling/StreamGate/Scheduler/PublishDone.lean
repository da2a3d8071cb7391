import StreamGate.State.Streams
import StreamGate.Scheduler.Ops

/-!
# The end of a publication

`onPublishDone` looks at the task of the client, which has a time to live, and not at the publisher
key of the stream, which has none.  `publishDone_frees_iff` says exactly when it frees the stream;
sixty seconds without a heartbeat are enough for it to do nothing (`publishDone_keeps_stream`).
-/

namespace StreamGate.Scheduler

open StreamGate.Redis StreamGate.Task StreamGate.Lib StreamGate.State

/-- The stream `s` is free for everybody but `c`. -/
def FreeFor (w : World) (s c : String) : Prop :=
  (w.run (getPublisherTask s)).1 = none ∧
    ∀ t : StreamTask, t.type = .PUBLISHER → t.stream_name = s → t.client_id ≠ c →
      (w.run (registerTask t)).1 = true

/-- A stream without a publisher key. -/
theorem freeFor_of_none {w : World} {s : String} (c : String) (hfree : w.hashes (.pub s) = none)
    (hclock : Reasonable (ms w.clock)) : FreeFor w s c := by
  refine ⟨pubAt_of_none hfree, fun t hp hs _ => ?_⟩
  subst hs
  rw [registerTask_free hp hfree, decide_eq_true hclock]

/-- A registration that succeeds has found the clock in range. -/
theorem reasonable_of_registerTask {w : World} {t : StreamTask} (hp : t.type = .PUBLISHER)
    (hfree : w.hashes (.pub t.stream_name) = none) (h : (w.run (registerTask t)).1 = true) :
    Reasonable (ms w.clock) := by
  rw [registerTask_free hp hfree] at h
  exact of_decide_eq_true h

theorem append_ne_self (c : String) : c ++ "x" ≠ c := by
  intro h
  have := congrArg (fun s => s.toList.length) h
  simp at this

/-- **The end of a publication frees the stream** exactly if the clock is in range, the task of the
client can still be read as a publisher's, and a publisher's task is found among the members. -/
theorem publishDone_frees_iff (w : World) (s c : String) (p : StreamTask)
    (hpub : (w.run (getPublisherTask s)).1 = some p) :
    FreeFor (w.run (onPublishDone s c)).2 s c ↔
      Reasonable (ms w.clock) ∧ ((taskAt w (buildTaskKey s c)).any fun t => t.type = .PUBLISHER) ∧
        HasPublisher w s := by
  have hpub : pubAt w s = some p := hpub
  rw [run_onPublishDone]
  constructor
  · rintro ⟨hnone, hothers⟩
    have hnone : pubAt _ s = none := hnone
    split at hnone
    · rename_i htask
      rw [if_pos htask] at hothers
      have hfree : (clearStream s w).hashes (.pub s) = none := by
        rw [clearStream_pub]
        split
        · rfl
        · rename_i h
          -- the publisher key is as it was
          rw [pubAt_congr ((clearStream_pub w s s).trans (if_neg h)), hpub] at hnone
          cases hnone
      have hhas : HasPublisher w s := by
        by_contra h
        rw [clearStream_pub, if_neg fun h' => h h'.1] at hfree
        rw [pubAt_of_none hfree] at hpub
        cases hpub
      have hclock := reasonable_of_registerTask
        (t := { p with stream_name := s, client_id := c ++ "x", type := .PUBLISHER })
        rfl hfree (hothers _ rfl rfl (append_ne_self c))
      rw [clearStream_clock] at hclock
      exact ⟨hclock, htask, hhas⟩
    · rw [hpub] at hnone
      cases hnone
  · rintro ⟨hclock, htask, hhas⟩
    rw [if_pos htask]
    refine freeFor_of_none c ?_ ?_
    · rw [clearStream_pub, if_pos ⟨hhas, rfl⟩]
    · rw [clearStream_clock]
      exact hclock

/-- A publication that ends after a second. -/
theorem publishDone_frees_after_second :
    let w := runs Op.step [.register (taskOf "a" .PUBLISHER start), .pass (start + second)] (World.initial start)
    FreeFor (w.run (onPublishDone "live" "a")).2 "live" "a" := by
  refine (publishDone_frees_iff _ "live" "a" (taskOf "a" .PUBLISHER start).stored ?_).2 ⟨?_, ?_, ?_⟩
  · decide +kernel
  · decide +kernel
  · decide +kernel
  · decide +kernel

/-- A publication that ends after sixty-one seconds without a heartbeat: the hash of the task is gone,
the stream stays taken, and nobody else gets it. -/
theorem publishDone_keeps_stream :
    let w := runs Op.step [.register (taskOf "a" .PUBLISHER start), .pass (start + 61 * second)]
      (World.initial start)
    (∃ p, (w.run (getPublisherTask "live")).1 = some p ∧ p.client_id = "a") ∧
      ¬ FreeFor (w.run (onPublishDone "live" "a")).2 "live" "a" ∧
      (((w.run (onPublishDone "live" "a")).2).run
        (registerTask (taskOf "b" .PUBLISHER (start + 61 * second)))).1 = false := by
  refine ⟨⟨(taskOf "a" .PUBLISHER start).stored, ?_, rfl⟩, fun h => ?_, ?_⟩
  · decide +kernel
  · exact absurd h.1 (by decide +kernel)
  · decide +kernel

end StreamGate.Scheduler
