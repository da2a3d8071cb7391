import StreamGate.State.Copies
import StreamGate.State.Streams

/-!
# What a scan finds

`scanTimeoutTasks` goes through the old time stamps and decides by the hash behind each of them.
It returns exactly the tasks that are `Due` when it starts (`mem_scan`): with an old time stamp, a
hash that can be read, and an old last activity in the hash.
-/

namespace StreamGate.State

open StreamGate.Redis StreamGate.Task StreamGate.Lib

/-- A task whose time stamp is old, and so is its last activity. -/
def Due (w : World) (timeout : ℤ) (t : StreamTask) : Prop :=
  ∃ k x, (w.zsets buildTaskTimestampZSetKey).score k = some x ∧ 0 ≤ x ∧ x ≤ ms w.clock - timeout ∧
    taskAt w k = some t ∧ ¬ ms w.clock - ms t.last_active_time < timeout

section Scan

variable {w : World} {now_ms timeout : ℤ} {body body' : String}

/-- What one candidate contributes. -/
theorem scanKey_fst (hz : ((w.zsets buildTaskTimestampZSetKey).score (.task body)).isSome) (t : StreamTask) :
    (scanKey now_ms timeout (.task body) w).1 = some t ↔
      taskAt w (.task body) = some t ∧ ¬ now_ms - ms t.last_active_time < timeout := by
  unfold scanKey
  rw [if_pos hz]
  cases hk : taskAt w (.task body) with
  | none => simp
  | some q =>
    by_cases hl : now_ms - ms q.last_active_time < timeout
    · simp only [if_pos hl]
      refine ⟨nofun, fun h => ?_⟩
      obtain rfl := Option.some.inj h.1
      exact absurd hl h.2
    · simp only [if_neg hl]
      refine ⟨fun h => ⟨h, Option.some.inj h ▸ hl⟩, fun h => h.1⟩

/-- The keys of other tasks. -/
theorem task_ne_of_notMem {body : String} {bodies : List String} (h : body ∉ bodies) :
    ∀ body' ∈ bodies, Key.task body' ≠ .task body := by
  intro body' hmem e
  exact h (Key.task.inj e ▸ hmem)

/-- A candidate takes away no hash but its own. -/
theorem scanKey_task_of_ne (hw : Keyed w) (hne : Key.task body' ≠ .task body) :
    (scanKey now_ms timeout (.task body) w).2.hashes (.task body') = w.hashes (.task body') := by
  unfold scanKey
  split
  · cases hk : taskAt w (.task body) with
    | none => rfl
    | some t =>
      dsimp only
      split
      · rfl
      · refine (forget_task_of_ne ?_).trans rfl
        rw [hw.of_taskAt hk] at hne
        exact hne
  · rfl

theorem forget_score_of_ne {s c : String} {k : Key} (hne : k ≠ buildTaskKey s c) :
    ((forget s c w).zsets buildTaskTimestampZSetKey).score k =
      (w.zsets buildTaskTimestampZSetKey).score k := by
  unfold forget
  split
  · rw [World.setZset_self, ZSet.score_rem, if_neg hne]
  · rw [buildTaskTimestampZSetKey, dropTask_zsets]

/-- A candidate takes away no time stamp but its own. -/
theorem scanKey_score_of_ne (hw : Keyed w) {k : Key} (hne : k ≠ .task body) :
    ((scanKey now_ms timeout (.task body) w).2.zsets buildTaskTimestampZSetKey).score k =
      (w.zsets buildTaskTimestampZSetKey).score k := by
  unfold scanKey
  split
  · cases hk : taskAt w (.task body) with
    | none =>
      dsimp only
      rw [World.setZset_self, ZSet.score_rem, if_neg hne]
    | some t =>
      dsimp only
      split
      · rw [World.setZset_self, World.setZset_self, ZSet.score_add, if_neg hne, ZSet.score_rem, if_neg hne]
      · have hkey : k ≠ buildTaskKey t.stream_name t.client_id := by
          rw [hw.of_taskAt hk] at hne
          exact hne
        rw [forget_score_of_ne hkey, World.setZset_self, ZSet.score_rem, if_neg hne]
  · rw [World.setZset_self, ZSet.score_rem, if_neg hne]

/-- The result of a scan of different candidates, each with a time stamp. -/
theorem mem_scanLoop (hw : Keyed w) {bodies : List String} (hn : bodies.Nodup)
    (hz : ∀ body ∈ bodies, ((w.zsets buildTaskTimestampZSetKey).score (.task body)).isSome) (t : StreamTask) :
    t ∈ (w.run (scanLoop now_ms timeout (bodies.map Key.task))).1 ↔
      ∃ body ∈ bodies, taskAt w (.task body) = some t ∧ ¬ now_ms - ms t.last_active_time < timeout := by
  induction bodies generalizing w with
  | nil => simp
  | cons body bodies ih =>
    obtain ⟨hbody, hn⟩ := List.nodup_cons.1 hn
    have hne := task_ne_of_notMem hbody
    obtain ⟨ids, hd⟩ := scanKey_drops w now_ms timeout (.task body)
    have hrest := ih (w := (scanKey now_ms timeout (.task body) w).2) (Stored.drops hd hw) hn
      fun body' h => by
        rw [scanKey_score_of_ne hw (hne body' h)]
        exact hz body' (by simp [h])
    have hsame : ∀ body' ∈ bodies, taskAt (scanKey now_ms timeout (.task body) w).2 (.task body') =
        taskAt w (.task body') := fun body' h => taskAt_congr (scanKey_task_of_ne hw (hne body' h))
    rw [List.map_cons, run_scanLoop_cons, List.mem_append, hrest, Option.mem_toList,
      scanKey_fst (hz body (by simp)), List.exists_mem_cons_iff]
    refine or_congr_right (exists_congr fun body' => and_congr_right fun h => ?_)
    rw [hsame body' h]

/-- A scan takes away no hash but those of the tasks it returns. -/
theorem scanLoop_task_of_ne {keys : List Key} {body : String}
    (hne : ∀ t ∈ (w.run (scanLoop now_ms timeout keys)).1, Key.task body ≠ t.key) :
    (w.run (scanLoop now_ms timeout keys)).2.hashes (.task body) = w.hashes (.task body) := by
  induction keys generalizing w with
  | nil => rfl
  | cons k keys ih =>
    rw [run_scanLoop_cons] at hne ⊢
    refine (ih fun t ht => hne t (List.mem_append_right _ ht)).trans ?_
    have hkey : ∀ t, (scanKey now_ms timeout k w).1 = some t → Key.task body ≠ t.key :=
      fun t ht => hne t (List.mem_append_left _ (by rw [ht]; simp))
    unfold scanKey at hkey ⊢
    split
    · rename_i hz
      rw [if_pos hz] at hkey
      cases hk : taskAt w k with
      | none => rfl
      | some t =>
        dsimp only
        split
        · rfl
        · rename_i hl
          simp only [hk, if_neg hl] at hkey
          exact (forget_task_of_ne (hkey t rfl)).trans rfl
    · rfl

theorem scan_task_of_ne {body : String}
    (hne : ∀ t ∈ (w.run (scanTimeoutTasks timeout)).1, Key.task body ≠ t.key) :
    (w.run (scanTimeoutTasks timeout)).2.hashes (.task body) = w.hashes (.task body) := by
  rw [run_scanTimeoutTasks] at hne ⊢
  exact scanLoop_task_of_ne hne

/-- Keys of tasks, by what stands after the prefix. -/
theorem exists_bodies {keys : List Key} (h : ∀ k ∈ keys, ∃ body, k = Key.task body) :
    ∃ bodies : List String, keys = bodies.map Key.task := by
  induction keys with
  | nil => exact ⟨[], rfl⟩
  | cons k keys ih =>
    obtain ⟨body, rfl⟩ := h k (by simp)
    obtain ⟨bodies, rfl⟩ := ih fun k' hk' => h k' (by simp [hk'])
    exact ⟨body :: bodies, rfl⟩

/-- The old time stamps are of different tasks. -/
theorem range_bodies (hz : Stamped w) (timeout : ℤ) : ∃ bodies : List String,
    (w.zsets buildTaskTimestampZSetKey).rangeByScore 0 (ms w.clock - timeout) = bodies.map Key.task ∧ bodies.Nodup ∧
      ∀ body ∈ bodies, ((w.zsets buildTaskTimestampZSetKey).score (.task body)).isSome := by
  have htask : ∀ k ∈ (w.zsets buildTaskTimestampZSetKey).rangeByScore 0 (ms w.clock - timeout),
      ∃ body, k = Key.task body := by
    intro k hk
    obtain ⟨x, hx, -⟩ := ZSet.mem_rangeByScore.1 hk
    exact hz k (by rw [hx]; exact nofun)
  obtain ⟨bodies, hb⟩ := exists_bodies htask
  have hn := ZSet.nodup_rangeByScore (w.zsets buildTaskTimestampZSetKey) 0 (ms w.clock - timeout)
  rw [hb] at hn
  refine ⟨bodies, hb, hn.of_map, fun body hbody => ?_⟩
  have hmem : Key.task body ∈ bodies.map Key.task := List.mem_map_of_mem hbody
  rw [← hb] at hmem
  obtain ⟨x, hx, -⟩ := ZSet.mem_rangeByScore.1 hmem
  rw [hx]
  rfl

/-- **A scan returns the tasks that are due.** -/
theorem mem_scan (hw : Keyed w) (hz : Stamped w) (timeout : ℤ) (t : StreamTask) :
    t ∈ (w.run (scanTimeoutTasks timeout)).1 ↔ Due w timeout t := by
  obtain ⟨bodies, hb, hn, hstamp⟩ := range_bodies hz timeout
  rw [run_scanTimeoutTasks, hb, mem_scanLoop hw hn hstamp]
  constructor
  · rintro ⟨body, hbody, ht, hl⟩
    have hmem : Key.task body ∈ bodies.map Key.task := List.mem_map_of_mem hbody
    rw [← hb] at hmem
    obtain ⟨x, hx, h0, h1⟩ := ZSet.mem_rangeByScore.1 hmem
    exact ⟨_, x, hx, h0, h1, ht, hl⟩
  · rintro ⟨k, x, hx, h0, h1, ht, hl⟩
    have hmem := ZSet.mem_rangeByScore.2 ⟨x, hx, h0, h1⟩
    rw [hb] at hmem
    obtain ⟨body, hbody, rfl⟩ := List.mem_map.1 hmem
    exact ⟨body, hbody, ht, hl⟩

/-! ### What is left of what it finds -/

/-- Nothing is left of a task. -/
def Gone (w : World) (id : TaskIdentifier) : Prop :=
  w.hashes (buildTaskKey id.streamName id.clientId) = none ∧
    (id.type = .PUBLISHER → w.hashes (.pub id.streamName) = none)

theorem Gone.dead {id : TaskIdentifier} (h : Gone w id) : Dead w id :=
  ⟨taskAt_of_none h.1, fun hp => pubAt_of_none (h.2 hp)⟩

theorem Gone.drops {ids : List TaskIdentifier} {w' : World} (hd : Drops w ids w') {id : TaskIdentifier}
    (h : Gone w id) : Gone w' id := by
  refine ⟨?_, fun hp => hd.pub (h.2 hp)⟩
  refine Option.eq_none_iff_forall_ne_some.2 fun x hx => ?_
  cases h.1.symm.trans (hd.hashes hx)

theorem gone_dropTask (s c : String) (ty : StreamType) : Gone (dropTask ⟨s, c, ty⟩ w) ⟨s, c, ty⟩ :=
  ⟨(dropTask_task w s c _ ty).trans (if_pos rfl), fun hp => (dropTask_pub w s c s ty).trans (if_pos ⟨hp, rfl⟩)⟩

/-- What a candidate loses is the task that was found: it is stored under its own key. -/
theorem forget_found (hw : Keyed w) {z : ZSet} {t : StreamTask} (hk : taskAt w (.task body) = some t) :
    forget t.stream_name t.client_id (w.setZset buildTaskTimestampZSetKey z) =
      dropTask t.ident (w.setZset buildTaskTimestampZSetKey z) := by
  have hkey : taskAt (w.setZset buildTaskTimestampZSetKey z) (buildTaskKey t.stream_name t.client_id) =
      some t := by
    rw [hw.of_taskAt hk] at hk
    exact hk
  rw [forget, hkey]
  rfl

theorem scanLoop_gone (hw : Keyed w) {keys : List Key} (hkeys : ∀ k ∈ keys, ∃ body, k = Key.task body) :
    ∀ t ∈ (w.run (scanLoop now_ms timeout keys)).1, Gone (w.run (scanLoop now_ms timeout keys)).2 t.ident := by
  induction keys generalizing w with
  | nil => exact fun t ht => by cases ht
  | cons k keys ih =>
    intro t ht
    rw [run_scanLoop_cons] at ht ⊢
    obtain ⟨ids, hd⟩ := scanKey_drops w now_ms timeout k
    rcases List.mem_append.1 ht with ht | ht
    · obtain ⟨ids', hd'⟩ := scanLoop_drops (scanKey now_ms timeout k w).2 now_ms timeout keys
      apply Gone.drops hd'
      obtain ⟨body, rfl⟩ := hkeys k (by simp)
      unfold scanKey at ht ⊢
      split at ht
      · rename_i hz
        rw [if_pos hz]
        cases hk : taskAt w (.task body) with
        | none => rw [hk] at ht; cases ht
        | some q =>
          simp only [hk] at ht ⊢
          split at ht
          · cases ht
          · rename_i hl
            rw [if_neg hl]
            obtain rfl : t = q := by simpa using ht
            rw [forget_found hw hk]
            exact gone_dropTask _ _ _
      · cases ht
    · exact ih (Stored.drops hd hw) (fun k' hk' => hkeys k' (by simp [hk'])) t ht

/-- A scan takes away no publisher key but those of the publishers it returns. -/
theorem scanLoop_pub_of_ne (hw : Keyed w) {keys : List Key} (hkeys : ∀ k ∈ keys, ∃ body, k = Key.task body)
    {s : String} (hne : ∀ t ∈ (w.run (scanLoop now_ms timeout keys)).1, t.type = .PUBLISHER → t.stream_name ≠ s) :
    (w.run (scanLoop now_ms timeout keys)).2.hashes (.pub s) = w.hashes (.pub s) := by
  induction keys generalizing w with
  | nil => rfl
  | cons k keys ih =>
    rw [run_scanLoop_cons] at hne ⊢
    obtain ⟨ids, hd⟩ := scanKey_drops w now_ms timeout k
    refine (ih (Stored.drops hd hw) (fun k' hk' => hkeys k' (by simp [hk']))
      fun t ht => hne t (List.mem_append_right _ ht)).trans ?_
    have hfound : ∀ t, (scanKey now_ms timeout k w).1 = some t → t.type = .PUBLISHER → t.stream_name ≠ s :=
      fun t ht => hne t (List.mem_append_left _ (by rw [ht]; simp))
    obtain ⟨body, rfl⟩ := hkeys k (by simp)
    unfold scanKey at hfound ⊢
    split
    · rename_i hz
      rw [if_pos hz] at hfound
      cases hk : taskAt w (.task body) with
      | none => rfl
      | some t =>
        dsimp only
        split
        · rfl
        · rename_i hl
          simp only [hk, if_neg hl] at hfound
          rw [forget_found hw hk, dropTask_pub, if_neg fun h => hfound t rfl h.1 h.2.symm]
          rfl
    · rfl

theorem scan_pub_of_ne (hw : Keyed w) (hz : Stamped w) {s : String}
    (hne : ∀ t ∈ (w.run (scanTimeoutTasks timeout)).1, t.type = .PUBLISHER → t.stream_name ≠ s) :
    (w.run (scanTimeoutTasks timeout)).2.hashes (.pub s) = w.hashes (.pub s) := by
  rw [run_scanTimeoutTasks] at hne ⊢
  refine scanLoop_pub_of_ne hw (fun k hk => ?_) hne
  obtain ⟨x, hx, -⟩ := ZSet.mem_rangeByScore.1 hk
  exact hz k (by rw [hx]; exact nofun)

/-- What a scan returns is gone when it returns. -/
theorem scan_gone (hw : Keyed w) (hz : Stamped w) :
    ∀ t ∈ (w.run (scanTimeoutTasks timeout)).1, Gone (w.run (scanTimeoutTasks timeout)).2 t.ident := by
  rw [run_scanTimeoutTasks]
  refine scanLoop_gone hw fun k hk => ?_
  obtain ⟨x, hx, -⟩ := ZSet.mem_rangeByScore.1 hk
  exact hz k (by rw [hx]; exact nofun)

end Scan

end StreamGate.State
