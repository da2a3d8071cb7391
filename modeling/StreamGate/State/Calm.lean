import StreamGate.State.Scan

/-!
# Since when a task is idle

`Calm w L body` bounds what the store says about the last activity of a task by the millisecond
`L`: the last activity in its hash, if the hash can be read, and its time stamp, which is there as
long as the hash can be read.  Registration and heartbeats of the task itself set both to now; every
other operation keeps the bound, also the scan, which takes time stamps out and puts them back.
-/

namespace StreamGate.State

open StreamGate.Redis StreamGate.Task StreamGate.Lib

/-- Nothing in the store says that the task was active after `L`, and a task that can be read has a
time stamp. -/
structure Calm (w : World) (L : ℤ) (body : String) : Prop where
  last : ∀ q, taskAt w (.task body) = some q → ms q.last_active_time ≤ L
  scored : ∀ q, taskAt w (.task body) = some q →
    ∃ y, (w.zsets buildTaskTimestampZSetKey).score (.task body) = some y ∧ 0 ≤ y
  stamp : ∀ y, (w.zsets buildTaskTimestampZSetKey).score (.task body) = some y → y ≤ L

/-- What `deregisterTask` leaves cannot be read. -/
theorem taskAt_forget_self (w : World) (s c : String) : taskAt (forget s c w) (buildTaskKey s c) = none := by
  unfold forget
  cases ht : taskAt w (buildTaskKey s c) with
  | none => exact ht
  | some t => exact (taskAt_dropTask w s c t.type _).trans (if_pos rfl)

theorem forget_score_noneNew (w : World) (s c : String) (k : Key) (y : ℤ)
    (hy : ((forget s c w).zsets buildTaskTimestampZSetKey).score k = some y) :
    (w.zsets buildTaskTimestampZSetKey).score k = some y := by
  unfold forget at hy
  split at hy
  · rw [World.setZset_self, ZSet.score_rem] at hy
    split at hy
    · cases hy
    · exact hy
  · rw [buildTaskTimestampZSetKey, dropTask_zsets] at hy
    exact hy

/-- A registration leaves the time stamps of other clients alone. -/
theorem registerTask_score_of_ne {w : World} {t : StreamTask} {k : Key} (h : k ≠ t.key) :
    ((w.run (registerTask t)).2.zsets buildTaskTimestampZSetKey).score k =
      (w.zsets buildTaskTimestampZSetKey).score k :=
  registerTask_inv (I := fun v => (v.zsets buildTaskTimestampZSetKey).score k =
      (w.zsets buildTaskTimestampZSetKey).score k)
    (fun _ hv => (forget_score_of_ne h).trans hv) (fun _ hv => hv) (fun _ _ hv => hv) (fun _ _ hv => hv)
    (fun v hv => by rw [World.setZset_self, ZSet.score_add, if_neg h]; exact hv) rfl

namespace Calm

variable {w w' : World} {L : ℤ} {body : String} {t : StreamTask}

theorem mono {L' : ℤ} (h : L ≤ L') (hw : Calm w L body) : Calm w L' body :=
  ⟨fun q hq => (hw.last q hq).trans h, hw.scored, fun y hy => (hw.stamp y hy).trans h⟩

/-- A change that adds no hash and leaves the time stamp. -/
theorem of_sub (hw : Calm w L body)
    (htask : ∀ x, w'.hashes (.task body) = some x → w.hashes (.task body) = some x)
    (hz : (w'.zsets buildTaskTimestampZSetKey).score (.task body) =
      (w.zsets buildTaskTimestampZSetKey).score (.task body)) : Calm w' L body := by
  have hread : ∀ q, taskAt w' (.task body) = some q → taskAt w (.task body) = some q := by
    intro q hq
    obtain ⟨x, hx, -⟩ := taskAt_eq_some hq
    rwa [taskAt_congr (hx.trans (htask x hx).symm)] at hq
  exact ⟨fun q hq => hw.last q (hread q hq), fun q hq => hz ▸ hw.scored q (hread q hq),
    fun y hy => hw.stamp y (hz ▸ hy)⟩

/-- A task that cannot be read. -/
theorem of_none (hnone : taskAt w (.task body) = none)
    (hz : ∀ y, (w.zsets buildTaskTimestampZSetKey).score (.task body) = some y → y ≤ L) : Calm w L body := by
  refine ⟨fun q hq => ?_, fun q hq => ?_, hz⟩
  · rw [hnone] at hq; cases hq
  · rw [hnone] at hq; cases hq

theorem forget (hw : Calm w L body) (s c : String) : Calm (forget s c w) L body := by
  by_cases hk : Key.task body = buildTaskKey s c
  · refine of_none (by rw [hk]; exact taskAt_forget_self w s c) fun y hy => ?_
    exact hw.stamp y (forget_score_noneNew w s c _ y hy)
  · exact hw.of_sub (fun x hx => forget_task_of_ne hk ▸ hx) (forget_score_of_ne hk)

theorem dropTasks (hw : Calm w L body) (ids : List TaskIdentifier) : Calm (dropTasks ids w) L body := by
  induction ids generalizing w with
  | nil => exact hw
  | cons id ids ih =>
    refine ih (hw.of_sub (fun x hx => ?_) (by rw [buildTaskTimestampZSetKey, dropTask_zsets]))
    rw [dropTask_task] at hx
    split at hx
    · cases hx
    · exact hx

theorem clearStream (hw : Calm w L body) (s : String) : Calm (clearStream s w) L body := by
  have h1 : Key.task body ≠ memberKey s := nofun
  have h2 : buildTaskTimestampZSetKey ≠ memberKey s := nofun
  refine (hw.dropTasks (memberTasks w s (w.sets (memberKey s)).elems)).of_sub (fun x hx => ?_) ?_
  · rw [State.clearStream, World.del_hashes_of_ne _ _ _ h1] at hx
    exact hx
  · rw [State.clearStream, World.del_zsets_of_ne _ _ _ h2]

/-! ### The scan -/

/-- The candidate itself: its entry goes out, and comes back as old as the hash says. -/
theorem scanKey_self (hw : Calm w L body) (hk : Keyed w) (now_ms timeout : ℤ) :
    Calm (scanKey now_ms timeout (.task body) w).2 L body := by
  have hrem : ∀ y, ((w.zsets buildTaskTimestampZSetKey).rem (.task body)).score (.task body) = some y →
      y ≤ L := fun y hy => by rw [ZSet.score_rem, if_pos rfl] at hy; cases hy
  unfold scanKey
  split
  · cases ht : taskAt w (.task body) with
    | none =>
      refine of_none ht fun y hy => hrem y ?_
      rwa [World.setZset_self] at hy
    | some t =>
      obtain ⟨x, hx, hd⟩ := taskAt_eq_some ht
      obtain ⟨-, -, -, -, -, hr⟩ := deserialize_some hd
      have hscore := fun z : ZSet => ZSet.score_add z (.task body) (.task body) (ms t.last_active_time)
      dsimp only
      split
      · refine ⟨hw.last, fun q _ => ⟨ms t.last_active_time, ?_, ?_⟩, fun y hy => ?_⟩
        · rw [World.setZset_self, hscore, if_pos rfl]
        · exact le_trans (by decide) hr.2.1
        · rw [World.setZset_self, hscore, if_pos rfl] at hy
          exact Option.some.inj hy ▸ hw.last t ht
      · have hkey : Key.task body = buildTaskKey t.stream_name t.client_id := hk.of_taskAt ht
        refine of_none (by rw [hkey]; exact taskAt_forget_self _ _ _) fun y hy => hrem y ?_
        have := forget_score_noneNew _ _ _ _ y hy
        rwa [World.setZset_self] at this
  · refine ⟨hw.last, fun q hq => ?_, fun y hy => hrem y (by rwa [World.setZset_self] at hy)⟩
    obtain ⟨y, hy, -⟩ := hw.scored q hq
    rename_i hno
    rw [hy] at hno
    exact absurd rfl hno

theorem scanKey (hw : Calm w L body) (hk : Keyed w) (now_ms timeout : ℤ) (body' : String) :
    Calm (scanKey now_ms timeout (.task body') w).2 L body := by
  by_cases hne : Key.task body = .task body'
  · rw [← hne]
    exact hw.scanKey_self hk now_ms timeout
  · exact hw.of_sub (fun x hx => scanKey_task_of_ne hk hne ▸ hx) (scanKey_score_of_ne hk hne)

theorem scanLoop (hw : Calm w L body) (hk : Keyed w) (now_ms timeout : ℤ) {keys : List Key}
    (hkeys : ∀ k ∈ keys, ∃ body, k = Key.task body) :
    Calm (w.run (scanLoop now_ms timeout keys)).2 L body := by
  induction keys generalizing w with
  | nil => exact hw
  | cons k keys ih =>
    obtain ⟨body', rfl⟩ := hkeys k (by simp)
    obtain ⟨ids, hd⟩ := scanKey_drops w now_ms timeout (.task body')
    rw [run_scanLoop_cons]
    exact ih (hw.scanKey hk now_ms timeout body') (Stored.drops hd hk) fun k' hk' => hkeys k' (by simp [hk'])

theorem scan (hw : Calm w L body) (hk : Keyed w) (hz : Stamped w) (timeout : ℤ) :
    Calm (w.run (scanTimeoutTasks timeout)).2 L body := by
  rw [run_scanTimeoutTasks]
  refine hw.scanLoop hk _ _ fun k hk => ?_
  obtain ⟨x, hx, -⟩ := ZSet.mem_rangeByScore.1 hk
  exact hz k (by rw [hx]; exact nofun)

/-! ### Registration, heartbeats and time -/

/-- The registration of a client sets what is stored about it to now. -/
theorem registerTask (hw : Calm w L body) (ht : t.last_active_time ≤ w.clock)
    (hL : t.key = .task body → ms w.clock ≤ L) : Calm (w.run (registerTask t)).2 L body := by
  by_cases hk : Key.task body = t.key
  · have hL := hL hk.symm
    have hfinish : ∀ v, v.clock = w.clock → (∀ y, (v.zsets buildTaskTimestampZSetKey).score (.task body) = some y →
        y ≤ L) → taskAt v t.key = (if t.Readable then some t.stored else none) → Calm (finish t v).2 L body := by
      intro v hclock hv hread
      unfold finish
      split
      · rename_i hr
        rw [hclock] at hr ⊢
        have hscore := ZSet.score_add (v.zsets buildTaskTimestampZSetKey) t.key t.key (ms w.clock)
        rw [if_pos rfl] at hscore
        refine ⟨fun q hq => ?_, fun q hq => ⟨ms w.clock, ?_, ?_⟩, fun y hy => ?_⟩
        · rw [hk] at hq
          have hq := hread.symm.trans hq
          split at hq
          · obtain rfl := Option.some.inj hq
            rw [StreamTask.stored, ms_mul]
            exact (ms_mono ht).trans hL
          · cases hq
        · rw [hk, World.setZset_self, hscore]
        · exact le_trans (by decide) hr.1
        · rw [hk, World.setZset_self, hscore] at hy
          exact Option.some.inj hy ▸ hL
      · refine of_none (by rw [hk]; exact taskAt_forget_self _ _ _) fun y hy => hv y ?_
        exact forget_score_noneNew _ _ _ _ y hy
    have hplace : ∀ v, v.clock = w.clock → Calm v L body → Calm (place t (putTask t v)).2 L body := by
      intro v hclock hv
      unfold place
      split
      · split
        · refine of_none (by rw [hk]; exact taskAt_forget_self _ _ _) fun y hy => hv.stamp y ?_
          exact forget_score_noneNew (putTask t v) _ _ _ y hy
        · refine hfinish _ hclock hv.stamp ?_
          exact (taskAt_congr (indexPublisher_task _ _ t)).trans taskAt_putTask_self
      · refine hfinish _ hclock hv.stamp ?_
        exact (taskAt_congr (indexPlayer_task _ _ t)).trans taskAt_putTask_self
    rw [run_registerTask]
    split
    · split
      · exact hplace w rfl hw
      · split
        · exact hw
        · exact hplace _ (forget_clock w _ _) (hw.forget _ _)
    · split
      · exact hplace _ (forget_clock w _ _) (hw.forget _ _)
      · exact hplace w rfl hw
  · exact hw.of_sub (fun x hx => registerTask_task_of_ne hk ▸ hx) (registerTask_score_of_ne hk)

/-- So does its heartbeat. -/
theorem touch (hw : Calm w L body) (s c : String) (hL : buildTaskKey s c = .task body → ms w.clock ≤ L) :
    Calm (touch s c w) L body := by
  have hzset := touch_zset w s c
  by_cases hk : Key.task body = buildTaskKey s c
  · have hL := hL hk.symm
    have hscore := ZSet.score_add (w.zsets buildTaskTimestampZSetKey) (buildTaskKey s c) (buildTaskKey s c)
      (ms w.clock)
    rw [if_pos rfl] at hscore
    -- a hash that can be read has the present millisecond in it
    have hlast : ∀ q, taskAt (State.touch s c w) (.task body) = some q →
        ms q.last_active_time = ms w.clock ∧ Reasonable (ms w.clock) := by
      intro q hq
      obtain ⟨x, hx, hd⟩ := taskAt_eq_some hq
      rw [touch_task, if_pos hk] at hx
      obtain rfl := Option.some.inj hx
      obtain ⟨-, -, -, -, ⟨v, hv, hz⟩, hr⟩ := deserialize_some hd
      obtain rfl : Decimal.to_string (ms w.clock) = v := Option.some.inj hv
      have hr : Reasonable (ms w.clock) := by
        by_contra hno
        exact stoll_of_not_reasonable hno hz hr.2
      rw [Decimal.stoll_to_string hr.fits] at hz
      exact ⟨(Option.some.inj hz).symm, hr⟩
    refine ⟨fun q hq => (hlast q hq).1.trans_le hL, fun q hq => ⟨ms w.clock, ?_, ?_⟩, fun y hy => ?_⟩
    · rw [hk, hzset, hscore]
    · exact le_trans (by decide) (hlast q hq).2.1
    · rw [hk, hzset, hscore] at hy
      exact Option.some.inj hy ▸ hL
  · refine hw.of_sub (fun x hx => (touch_task w s c body).trans (if_neg hk) ▸ hx) ?_
    rw [hzset, ZSet.score_add, if_neg hk]

theorem advance (hw : Calm w L body) (t : ℤ) : Calm (advance t w) L body := by
  refine hw.of_sub (fun x hx => ?_) ?_
  · rcases hashes_advance t w (.task body) with h | h
    · rw [h] at hx; cases hx
    · exact h ▸ hx
  · unfold Redis.advance
    split <;> rfl

theorem initial (clock L : ℤ) (body : String) : Calm (World.initial clock) L body :=
  ⟨(fun _ h => nomatch h), (fun _ h => nomatch h), (fun _ h => nomatch h)⟩

end Calm

end StreamGate.State
