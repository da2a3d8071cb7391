import StreamGate.State.Traces

/-!
# A scan run alone

What `scanTimeoutTasks` returns and what it leaves, for the stores that registrations, heartbeats and deregistrations
reach one after the other.  Every candidate is under its own key (`Keyed`), so what one of them loses concerns no other,
and the loop can be read as if all of them were looked at in the store that it starts from.
-/

namespace StreamGate.State

open StreamGate.Redis StreamGate.Task StreamGate.Lib

/-- The last activity of a task is at least the timeout ago. -/
def overdue (now_ms timeout : ℤ) (t : StreamTask) : Bool := ms t.last_active_time ≤ now_ms - timeout

/-- The tasks at the keys of a list that are overdue. -/
def reclaimed (w : World) (now_ms timeout : ℤ) (keys : List Key) : List StreamTask :=
  keys.filterMap fun k => (taskAt w k).filter (overdue now_ms timeout)

/-- The keys with an old time stamp. -/
def candidates (w : World) (timeout : ℤ) : List Key :=
  (w.zsets buildTaskTimestampZSetKey).rangeByScore 0 (ms w.clock - timeout)

section Key

variable {w : World} {now_ms timeout : ℤ} {body : String}

theorem not_overdue {t : StreamTask} : overdue now_ms timeout t = false ↔ now_ms - ms t.last_active_time < timeout := by
  rw [overdue, decide_eq_false_iff_not]
  omega

/-- The time stamp that is left of a candidate: none, or the last activity of its task. -/
def restamp (now_ms timeout : ℤ) (t : Option StreamTask) : Option ℤ :=
  (t.filter fun t => !overdue now_ms timeout t).map fun t => ms t.last_active_time

variable (now_ms timeout) in
/-- One candidate: what is returned, who is no longer a member, and the time stamp. -/
theorem scanKey_spec (hw : Keyed w) (hz : ((w.zsets buildTaskTimestampZSetKey).score (.task body)).isSome) :
    let r := scanKey now_ms timeout (.task body) w
    r.1 = (taskAt w (.task body)).filter (overdue now_ms timeout) ∧
      (∀ s c, c ∈ r.2.sets (.members s) ↔
        c ∈ w.sets (.members s) ∧ ¬ ∃ t ∈ r.1, t.stream_name = s ∧ t.client_id = c) ∧
      (r.2.zsets buildTaskTimestampZSetKey).score (.task body) = restamp now_ms timeout (taskAt w (.task body)) := by
  intro r
  have hr : r = scanKey now_ms timeout (.task body) w := rfl
  unfold scanKey at hr
  rw [if_pos hz] at hr
  cases ht : taskAt w (.task body) with
  | none =>
    simp only [ht] at hr
    rw [hr]
    refine ⟨rfl, fun s c => by simp, ?_⟩
    rw [World.setZset_self, ZSet.score_rem, if_pos rfl]
    rfl
  | some t =>
    simp only [ht] at hr
    by_cases hl : now_ms - ms t.last_active_time < timeout
    · have hdue := not_overdue.2 hl
      rw [if_pos hl] at hr
      rw [hr]
      refine ⟨by rw [Option.filter_some, hdue]; rfl, fun s c => by simp, ?_⟩
      rw [World.setZset_self, ZSet.score_add, if_pos rfl, restamp, Option.filter_some, hdue]
      rfl
    · have hdue : overdue now_ms timeout t = true := by
        rw [← Bool.not_eq_false, not_overdue]
        exact hl
      rw [if_neg hl, forget_found hw ht] at hr
      rw [hr]
      refine ⟨by rw [Option.filter_some, hdue]; rfl, fun s c => ?_, ?_⟩
      · rw [StreamTask.ident, dropTask_members]
        simp only [Option.mem_some_iff, exists_eq_left', World.setZset_sets]
        split
        · rename_i hs
          rw [RSet.mem_rem, hs]
          simp [eq_comm]
        · rename_i hs
          simp [Ne.symm hs]
      · rw [buildTaskTimestampZSetKey, dropTask_zsets, ← buildTaskTimestampZSetKey, World.setZset_self, ZSet.score_rem,
          if_pos rfl, restamp, Option.filter_some, hdue]
        rfl

theorem reclaimed_cons (k : Key) (keys : List Key) : reclaimed w now_ms timeout (k :: keys) =
    ((taskAt w k).filter (overdue now_ms timeout)).toList ++ reclaimed w now_ms timeout keys := by
  unfold reclaimed
  rw [List.filterMap_cons]
  cases (taskAt w k).filter (overdue now_ms timeout) <;> rfl

variable (now_ms timeout) in
/-- **The loop**, over different candidates that have a time stamp. -/
theorem scanLoop_spec (hw : Keyed w) {bodies : List String} (hn : bodies.Nodup)
    (hz : ∀ body ∈ bodies, ((w.zsets buildTaskTimestampZSetKey).score (.task body)).isSome) :
    let r := w.run (scanLoop now_ms timeout (bodies.map Key.task))
    r.1 = reclaimed w now_ms timeout (bodies.map Key.task) ∧
      (∀ s c, c ∈ r.2.sets (.members s) ↔
        c ∈ w.sets (.members s) ∧ ¬ ∃ t ∈ r.1, t.stream_name = s ∧ t.client_id = c) ∧
      ∀ k, (r.2.zsets buildTaskTimestampZSetKey).score k =
        if k ∈ bodies.map Key.task then restamp now_ms timeout (taskAt w k)
        else (w.zsets buildTaskTimestampZSetKey).score k := by
  induction bodies generalizing w with
  | nil =>
    refine ⟨rfl, fun s c => ?_, fun k => ?_⟩
    · simp
    · simp
  | cons body bodies ih =>
    obtain ⟨hbody, hn⟩ := List.nodup_cons.1 hn
    have hne := task_ne_of_notMem hbody
    obtain ⟨ids, hd⟩ := scanKey_drops w now_ms timeout (.task body)
    obtain ⟨hfst, hmember, hscore⟩ := scanKey_spec now_ms timeout hw (hz body List.mem_cons_self)
    have hother : ∀ k, k ≠ .task body →
        ((scanKey now_ms timeout (.task body) w).2.zsets buildTaskTimestampZSetKey).score k =
          (w.zsets buildTaskTimestampZSetKey).score k := fun k hk => scanKey_score_of_ne hw hk
    obtain ⟨hrest, hmembers, hscores⟩ := ih (Stored.drops hd hw) hn fun body' h => by
      rw [hother _ (hne body' h)]
      exact hz body' (List.mem_cons_of_mem _ h)
    have hsame : ∀ k ∈ bodies.map Key.task, taskAt (scanKey now_ms timeout (.task body) w).2 k = taskAt w k := by
      intro k hk
      obtain ⟨body', h, rfl⟩ := List.mem_map.1 hk
      exact taskAt_congr (scanKey_task_of_ne hw (hne body' h))
    have hreclaimed : reclaimed (scanKey now_ms timeout (.task body) w).2 now_ms timeout (bodies.map Key.task) =
        reclaimed w now_ms timeout (bodies.map Key.task) := by
      unfold reclaimed
      exact List.filterMap_congr fun k hk => by rw [hsame k hk]
    rw [List.map_cons, run_scanLoop_cons]
    refine ⟨?_, fun s c => ?_, fun k => ?_⟩
    · rw [reclaimed_cons, ← hfst, hrest, hreclaimed]
    · rw [hmembers, hmember, and_assoc, ← not_or]
      simp only [List.mem_append, Option.mem_toList, Option.mem_def, or_and_right, exists_or]
    · rw [hscores]
      by_cases hk : k = .task body
      · subst hk
        have hnot : Key.task body ∉ bodies.map Key.task := by
          intro h
          obtain ⟨body', h, e⟩ := List.mem_map.1 h
          exact hne body' h e
        rw [if_neg hnot, if_pos List.mem_cons_self, hscore]
      · rw [hother k hk]
        simp only [List.mem_cons, hk, false_or]
        split
        · rename_i h
          rw [hsame k h]
        · rfl

end Key

/-! ### After a sequential run -/

/-- A store that registrations, heartbeats and deregistrations reach one after the other, from an empty one.  Time
passes between them, and takes hashes away. -/
inductive TaskRun : World → Prop
  | initial (clock : ℤ) : TaskRun (World.initial clock)
  | step {w : World} (hw : TaskRun w) (op : TaskOp) : TaskRun (op.step w)
  | pass {w : World} (hw : TaskRun w) (t : ℤ) : TaskRun (advance t w)

namespace TaskRun

variable {w : World}

theorem keyed (hw : TaskRun w) : Keyed w := by
  induction hw with
  | initial clock => exact Stored.initial clock
  | step _ op ih =>
    cases op with
    | register t => exact ih.registerTask
    | touch s c =>
      rw [TaskOp.step, run_touchTask]
      exact ih.touch s c
    | deregister s c =>
      rw [TaskOp.step, run_deregisterTask]
      exact Stored.drops (forget_drops _ s c) ih
    | tick t => exact ih
  | pass _ t ih => exact Stored.advance ih t

theorem stamped (hw : TaskRun w) : Stamped w := by
  induction hw with
  | initial clock => exact fun _ h => absurd rfl h
  | step _ op ih =>
    cases op with
    | register t => exact ih.registerTask t
    | touch s c =>
      rw [TaskOp.step, run_touchTask]
      exact stamped_add ih _ _
    | deregister s c =>
      rw [TaskOp.step, run_deregisterTask]
      exact ih.drops (forget_drops _ s c)
    | tick t => exact ih
  | pass _ t ih => exact ih.advance t

theorem entered (hw : TaskRun w) : Entered w := by
  induction hw with
  | initial clock => exact .initial clock
  | step _ op ih => exact ih.step op
  | @pass w _ t ih =>
    intro body hread
    have hstamps : (advance t w).zsets = w.zsets := by
      unfold advance
      split <;> rfl
    rw [hstamps]
    rcases hashes_advance t w (.task body) with h | h
    · exact absurd (taskAt_of_none h) hread
    · exact ih body (taskAt_congr h ▸ hread)

end TaskRun

section Alone

variable {w : World} {timeout : ℤ}

theorem mem_candidates {k : Key} : k ∈ candidates w timeout ↔
    ∃ x, (w.zsets buildTaskTimestampZSetKey).score k = some x ∧ 0 ≤ x ∧ x ≤ ms w.clock - timeout :=
  ZSet.mem_rangeByScore

variable (timeout) in
/-- The loop over the candidates. -/
theorem scan_spec (hw : TaskRun w) :
    let r := w.run (scanTimeoutTasks timeout)
    r.1 = reclaimed w (ms w.clock) timeout (candidates w timeout) ∧
      (∀ s c, c ∈ r.2.sets (.members s) ↔
        c ∈ w.sets (.members s) ∧ ¬ ∃ t ∈ r.1, t.stream_name = s ∧ t.client_id = c) ∧
      ∀ k, (r.2.zsets buildTaskTimestampZSetKey).score k =
        if k ∈ candidates w timeout then restamp (ms w.clock) timeout (taskAt w k)
        else (w.zsets buildTaskTimestampZSetKey).score k := by
  intro r
  obtain ⟨bodies, hb, hn, hz⟩ := range_bodies hw.stamped timeout
  have hb : candidates w timeout = bodies.map Key.task := hb
  have hr : r = w.run (scanLoop (ms w.clock) timeout (bodies.map Key.task)) := by
    show w.run (scanTimeoutTasks timeout) = _
    rw [run_scanTimeoutTasks, ← hb]
    rfl
  rw [hr, hb]
  exact scanLoop_spec (ms w.clock) timeout hw.keyed hn hz

/-- A task is returned if its own key is a candidate and it is overdue. -/
theorem mem_scan_iff (hw : TaskRun w) {t : StreamTask} : t ∈ (w.run (scanTimeoutTasks timeout)).1 ↔
    t.key ∈ candidates w timeout ∧ taskAt w t.key = some t ∧ ms t.last_active_time ≤ ms w.clock - timeout := by
  rw [mem_scan hw.keyed hw.stamped]
  constructor
  · rintro ⟨k, x, hx, h0, h1, ht, hl⟩
    obtain ⟨body, rfl⟩ := hw.stamped k (by rw [hx]; exact Option.some_ne_none x)
    obtain hkey : Key.task body = t.key := hw.keyed.of_taskAt ht
    rw [hkey] at hx ht
    exact ⟨mem_candidates.2 ⟨x, hx, h0, h1⟩, ht, by omega⟩
  · rintro ⟨hk, ht, hl⟩
    obtain ⟨x, hx, h0, h1⟩ := mem_candidates.1 hk
    exact ⟨t.key, x, hx, h0, h1, ht, by omega⟩

/-- Different candidates hold different tasks. -/
theorem scan_once (hw : TaskRun w) : (w.run (scanTimeoutTasks timeout)).1.Nodup := by
  obtain ⟨bodies, hb, hn, -⟩ := range_bodies hw.stamped timeout
  have hb : candidates w timeout = bodies.map Key.task := hb
  rw [(scan_spec timeout hw).1, hb, reclaimed, List.filterMap_map]
  refine hn.filterMap fun body body' t ht ht' => ?_
  have hread : taskAt w (.task body) = some t := (Option.filter_eq_some_iff.1 ht).1
  have hread' : taskAt w (.task body') = some t := (Option.filter_eq_some_iff.1 ht').1
  exact Key.task.inj ((hw.keyed.of_taskAt hread).trans (hw.keyed.of_taskAt hread').symm)

/-- The time stamp of a task that is not returned. -/
theorem scan_stamp (hw : TaskRun w) {body : String} {t : StreamTask} (ht : taskAt w (.task body) = some t)
    (hnot : t ∉ (w.run (scanTimeoutTasks timeout)).1) :
    ((w.run (scanTimeoutTasks timeout)).2.zsets buildTaskTimestampZSetKey).score (.task body) =
      if .task body ∈ candidates w timeout then some (ms t.last_active_time)
      else (w.zsets buildTaskTimestampZSetKey).score (.task body) := by
  have hbody : Key.task body = t.key := hw.keyed.of_taskAt ht
  rw [(scan_spec timeout hw).2.2]
  split
  · rename_i hk
    have hdue : overdue (ms w.clock) timeout t = false := by
      rw [← Bool.not_eq_true]
      intro h
      exact hnot ((mem_scan_iff hw).2 ⟨hbody ▸ hk, hbody ▸ ht, of_decide_eq_true h⟩)
    rw [ht, restamp, Option.filter_some, hdue]
    rfl
  · rfl

/-- The key of a task that is not returned is not the key of one that is. -/
theorem ne_key_of_not_mem_scan (hw : TaskRun w) {body : String} {t : StreamTask} (ht : taskAt w (.task body) = some t)
    (hnot : t ∉ (w.run (scanTimeoutTasks timeout)).1) :
    ∀ q ∈ (w.run (scanTimeoutTasks timeout)).1, Key.task body ≠ q.key := by
  intro q hq e
  have hread := ((mem_scan_iff hw).1 hq).2.1
  rw [← e, ht] at hread
  exact hnot (Option.some.inj hread ▸ hq)

end Alone

/-- What is to be expected of a scan from `w` that returned `expired` and left `w'`. -/
structure ScanExact (w : World) (timeout : ℤ) (expired : List StreamTask) (w' : World) : Prop where
  /-- It returns, once each, the tasks with an old time stamp and an old last activity. -/
  result : ∀ t, t ∈ expired ↔ ∃ k x, (w.zsets buildTaskTimestampZSetKey).score k = some x ∧
    0 ≤ x ∧ x ≤ ms w.clock - timeout ∧ taskAt w k = some t ∧ ms t.last_active_time ≤ ms w.clock - timeout
  once : expired.Nodup
  /-- Nothing is left of them. -/
  gone : ∀ t ∈ expired, w'.hashes t.key = none ∧ (w'.zsets buildTaskTimestampZSetKey).score t.key = none ∧
    ¬ t.client_id ∈ w'.sets (memberKey t.stream_name)
  /-- The others keep what they have.  The time stamp of a candidate becomes its last activity. -/
  kept : ∀ body t, taskAt w (.task body) = some t → t ∉ expired →
    w'.hashes (.task body) = w.hashes (.task body) ∧
    (t.client_id ∈ w'.sets (memberKey t.stream_name) ↔ t.client_id ∈ w.sets (memberKey t.stream_name)) ∧
    (w'.zsets buildTaskTimestampZSetKey).score (.task body) ≠ none ∧
    (w'.zsets buildTaskTimestampZSetKey).score (.task body) =
      if .task body ∈ candidates w timeout then some (ms t.last_active_time)
      else (w.zsets buildTaskTimestampZSetKey).score (.task body)

/-- **A scan run alone is exact.** -/
theorem scan_exact {w : World} (hw : TaskRun w) (timeout : ℤ) :
    ScanExact w timeout (w.run (scanTimeoutTasks timeout)).1 (w.run (scanTimeoutTasks timeout)).2 := by
  obtain ⟨-, hmember, hscore⟩ := scan_spec timeout hw
  constructor
  · intro t
    have hl : ¬ ms w.clock - ms t.last_active_time < timeout ↔ ms t.last_active_time ≤ ms w.clock - timeout := by
      omega
    rw [mem_scan hw.keyed hw.stamped, Due, hl]
  · exact scan_once hw
  · intro t ht
    obtain ⟨hk, hread, hl⟩ := (mem_scan_iff hw).1 ht
    have hdue : overdue (ms w.clock) timeout t = true := decide_eq_true hl
    refine ⟨(scan_gone hw.keyed hw.stamped t ht).1, ?_, fun h => ((hmember _ _).1 h).2 ⟨t, ht, rfl, rfl⟩⟩
    rw [hscore, if_pos hk, hread, restamp, Option.filter_some, hdue]
    rfl
  · intro body t ht hnot
    have hbody : Key.task body = t.key := hw.keyed.of_taskAt ht
    have hne := ne_key_of_not_mem_scan hw ht hnot
    have hstamp := scan_stamp hw ht hnot
    refine ⟨scan_task_of_ne hne, ?_, ?_, hstamp⟩
    · rw [memberKey, hmember]
      refine and_iff_left ?_
      rintro ⟨q, hq, hs, hc⟩
      exact hne q hq (by rw [hbody, StreamTask.key, StreamTask.key, hs, hc])
    · rw [hstamp]
      split
      · exact Option.some_ne_none _
      · exact hw.entered body (by rw [ht]; exact Option.some_ne_none _)

/-- A publisher is registered and a minute passes without a heartbeat while its hash is still there. -/
theorem scan_exact_publisher :
    let start := 1700000000000000000
    let w := (TaskOp.tick (start + 60000000000)).step ((TaskOp.register (publisherAt start)).step (World.initial start))
    TaskRun w ∧ ScanExact w 30000 (w.run (scanTimeoutTasks 30000)).1 (w.run (scanTimeoutTasks 30000)).2 := by
  intro start w
  have hw : TaskRun w := .step (.step (.initial start) _) _
  exact ⟨hw, scan_exact hw 30000⟩

end StreamGate.State
