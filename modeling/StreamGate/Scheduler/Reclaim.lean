import StreamGate.State.Calm
import StreamGate.State.Owner
import StreamGate.Scheduler.Ops

/-!
# What a cleanup reclaims

A publisher that has been silent for the timeout is reclaimed by one iteration of the cleanup if its
hash can still be read, and is not if the hash has run out before (`cleanup_reclaims_iff`): the
iteration starts from the time stamps but decides by the hashes, and it drops the time stamp of a
hash that is gone.  The default timeout is the time to live of the hash, so that an iteration that
comes a second late finds nothing (`cleanup_abandons`).
-/

namespace StreamGate.Scheduler

open StreamGate.Redis StreamGate.Task StreamGate.Lib StreamGate.State

/-- The tasks of a run are made by `createTask` before they are registered, and the names of
publishers have no colon. -/
def Created (w : World) : Op → Prop
  | .register t => t.start_time = t.last_active_time ∧ t.last_active_time ≤ w.clock ∧ Plain t
  | _ => True

/-- The step registers or touches the client. -/
def Op.Renews (s c : String) : Op → Prop
  | .register t => t.stream_name = s ∧ t.client_id = c
  | .touch s' c' => s' = s ∧ c' = c
  | _ => False

/-- The step is for the task key `task:body`. -/
def Op.Hits (body : String) : Op → Prop
  | .register t => t.key = .task body
  | .touch s c => buildTaskKey s c = .task body
  | _ => False

/-- Nothing is left of a stream. -/
def Reclaimed (w : World) (s : String) : Prop :=
  w.hashes (buildPublisherKey s) = none ∧ ¬ s ∈ w.sets buildActivePublishersKey ∧
    w.sets (memberKey s) = .empty

/-- Names without a colon have their key for themselves. -/
theorem renews_of_hits {s c : String} (hs : NoColon s) (hc : NoColon c) {op : Op}
    (h : op.Hits (s ++ ":" ++ c)) : op.Renews s c := by
  cases op with
  | register t =>
    obtain ⟨h1, h2⟩ := taskKey_inj_of_noColon hs hc h.symm
    exact ⟨h1.symm, h2.symm⟩
  | touch s' c' =>
    obtain ⟨h1, h2⟩ := taskKey_inj_of_noColon hs hc h.symm
    exact ⟨h1.symm, h2.symm⟩
  | deregister _ _ => exact h
  | deregisterAll _ => exact h
  | scan _ => exact h
  | cleanup _ => exact h
  | pass _ => exact h

/-! ### Steps -/

section Steps

variable {w : World}

theorem owner_clearStreams (hw : Owner w) (streams : List String) :
    Owner (streams.foldl (fun w s => clearStream s w) w) := by
  obtain ⟨ids, hd⟩ := clearStreams_drops streams w
  exact hw.drops hd

theorem owner_step (hw : Owner w) {op : Op} (hop : Created w op) : Owner (op.step w) := by
  cases op with
  | register t => exact hw.registerTask hop.2.2 hop.1
  | deregister s c =>
    rw [Op.step, run_deregisterTask]
    exact hw.forget s c
  | deregisterAll s =>
    rw [Op.step, run_deregisterAllMembers]
    exact hw.drops (clearStream_drops w s)
  | touch s c =>
    rw [Op.step, run_touchTask]
    exact hw.touch s c
  | scan timeout =>
    obtain ⟨ids, hd⟩ := scan_drops w timeout
    exact hw.drops hd
  | cleanup task_timeout =>
    rw [Op.step, run_timeoutCleanup]
    obtain ⟨ids, hd⟩ := scan_drops w (1000 * task_timeout)
    refine owner_clearStreams ((hw.drops hd).dropTasks fun id hid => ?_) _
    obtain ⟨t, ht, rfl⟩ := List.mem_map.1 hid
    exact scan_gone hw.keyed hw.stamped t ht
  | pass t => exact hw.advance t

theorem calm_clearStreams {L : ℤ} {body : String} (hw : Calm w L body) (streams : List String) :
    Calm (streams.foldl (fun w s => clearStream s w) w) L body := by
  induction streams generalizing w with
  | nil => exact hw
  | cons s streams ih => exact ih (hw.clearStream s)

theorem calm_step (hw : Owner w) {L : ℤ} {body : String} (hc : Calm w L body) {op : Op} (hop : Created w op)
    (hL : op.Hits body → ms w.clock ≤ L) : Calm (op.step w) L body := by
  cases op with
  | register t => exact hc.registerTask hop.2.1 hL
  | deregister s c =>
    rw [Op.step, run_deregisterTask]
    exact hc.forget s c
  | deregisterAll s =>
    rw [Op.step, run_deregisterAllMembers]
    exact hc.clearStream s
  | touch s c =>
    rw [Op.step, run_touchTask]
    exact hc.touch s c hL
  | scan timeout => exact hc.scan hw.keyed hw.stamped timeout
  | cleanup task_timeout =>
    rw [Op.step, run_timeoutCleanup]
    exact calm_clearStreams ((hc.scan hw.keyed hw.stamped _).dropTasks _) _
  | pass t => exact hc.advance t

theorem clock_step (w : World) (op : Op) : w.clock ≤ (op.step w).clock := by
  cases op with
  | pass t =>
    show w.clock ≤ (advance t w).clock
    unfold advance
    split
    · assumption
    · exact le_rfl
  | register t => exact (run_clock w _).ge
  | deregister s c => exact (run_clock w _).ge
  | deregisterAll s => exact (run_clock w _).ge
  | touch s c => exact (run_clock w _).ge
  | scan timeout => exact (run_clock w _).ge
  | cleanup task_timeout => exact (run_clock w _).ge

end Steps

/-! ### Runs -/

/-- In every state of a run the owners are in order and no task has been active in the future. -/
theorem runs_owner {clock : ℤ} {ops : List Op} (h : Along Op.step Created ops (World.initial clock)) :
    Owner (runs Op.step ops (World.initial clock)) ∧
      ∀ body, Calm (runs Op.step ops (World.initial clock)) (ms (runs Op.step ops (World.initial clock)).clock)
        body :=
  h.inv (I := fun w => Owner w ∧ ∀ body, Calm w (ms w.clock) body)
    (fun w op hw hop => ⟨owner_step hw.1 hop, fun body =>
      (calm_step hw.1 (hw.2 body) hop fun _ => le_rfl).mono (ms_mono (clock_step w op))⟩)
    ⟨Owner.initial clock, fun body => Calm.initial clock _ body⟩

/-- A task that no step of a run hits stays as old as it was. -/
theorem runs_calm {w : World} {ops : List Op} {L : ℤ} {body : String} (h : Along Op.step Created ops w)
    (hops : ∀ op ∈ ops, ¬ op.Hits body) (hw : Owner w) (hc : Calm w L body) :
    Calm (runs Op.step ops w) L body := by
  induction ops generalizing w with
  | nil => exact hc
  | cons op ops ih =>
    exact ih h.2 (fun o ho => hops o (by simp [ho])) (owner_step hw h.1)
      (calm_step hw hc h.1 fun hit => absurd hit (hops op (by simp)))

/-! ### One iteration of the cleanup -/

section Iteration

variable {w : World} {s : String} {task_timeout : ℤ}

theorem clearStreams_members {streams : List String} (hs : s ∈ streams) (w : World) :
    (streams.foldl (fun w s => clearStream s w) w).sets (memberKey s) = .empty := by
  induction streams generalizing w with
  | nil => cases hs
  | cons s' streams ih =>
    by_cases h : s = s'
    · subst h
      obtain ⟨ids, hd⟩ := clearStreams_drops streams (clearStream s w)
      exact hd.members (clearStream_members w s)
    · exact ih ((List.mem_cons.1 hs).resolve_left h) _

theorem clearStreams_pub {streams : List String} (hs : s ∉ streams) (w : World) :
    (streams.foldl (fun w s => clearStream s w) w).hashes (.pub s) = w.hashes (.pub s) := by
  induction streams generalizing w with
  | nil => rfl
  | cons s' streams ih =>
    obtain ⟨hne, hs⟩ := not_or.1 (mt List.mem_cons.2 hs)
    apply (ih hs _).trans
    rw [clearStream_pub, if_neg fun h => hne h.2]

/-- A stream with a publisher that is due is reclaimed. -/
theorem cleanup_reclaims (hw : Owner w) {t : StreamTask} (hdue : Due w (1000 * task_timeout) t)
    (hp : t.type = .PUBLISHER) (hs : t.stream_name = s) : Reclaimed ((Op.cleanup task_timeout).step w) s := by
  have hfound := (mem_scan hw.keyed hw.stamped _ t).2 hdue
  have hnames : NamesPublisher ((w.run (scanTimeoutTasks (1000 * task_timeout))).1.map StreamTask.ident) s :=
    ⟨t.ident, List.mem_map_of_mem hfound, hp, hs⟩
  have hdied : s ∈ publisherDiedStreams (w.run (scanTimeoutTasks (1000 * task_timeout))).1 :=
    mem_publisherDiedStreams.2 ⟨t, hfound, hp, hs⟩
  rw [Op.step, run_timeoutCleanup]
  obtain ⟨ids, hd⟩ := clearStreams_drops
    (publisherDiedStreams (w.run (scanTimeoutTasks (1000 * task_timeout))).1) _
  refine ⟨hd.pub ?_, hd.active ?_, clearStreams_members hdied _⟩
  · rw [dropTasks_pub, if_pos hnames]
  · rw [mem_dropTasks_active]
    exact fun h => h.1 hnames

/-- A stream without a publisher that is due keeps its publisher key. -/
theorem cleanup_pub (hw : Owner w)
    (hdue : ∀ t, Due w (1000 * task_timeout) t → t.type = .PUBLISHER → t.stream_name ≠ s) :
    ((Op.cleanup task_timeout).step w).hashes (.pub s) = w.hashes (.pub s) := by
  have hne : ∀ t ∈ (w.run (scanTimeoutTasks (1000 * task_timeout))).1, t.type = .PUBLISHER →
      t.stream_name ≠ s := fun t ht => hdue t ((mem_scan hw.keyed hw.stamped _ t).1 ht)
  rw [Op.step, run_timeoutCleanup, clearStreams_pub, dropTasks_pub, if_neg]
  · exact scan_pub_of_ne hw.keyed hw.stamped hne
  · rintro ⟨id, hid, hp, hs⟩
    obtain ⟨t, ht, rfl⟩ := List.mem_map.1 hid
    exact hne t ht hp hs
  · intro hs
    obtain ⟨t, ht, hp, hs⟩ := mem_publisherDiedStreams.1 hs
    exact hne t ht hp hs

end Iteration

/-- Milliseconds of a later moment. -/
theorem ms_add_le {a b n : ℤ} (ha : 0 ≤ a) (h : a + 1000000000 * n ≤ b) : ms a + 1000 * n ≤ ms b := by
  have h1 : ms a = a / 1000000 := Int.tdiv_eq_ediv_of_nonneg ha
  have h2 : b / 1000000 ≤ ms b := by
    unfold ms
    rw [Int.tdiv_eq_ediv, Int.sign_eq_one_of_pos (by decide)]
    split <;> omega
  omega

/-- **A cleanup reclaims the stream of a publisher** that was not registered or touched for the timeout
exactly if the publisher's task can still be read. -/
theorem cleanup_reclaims_iff (clock task_timeout : ℤ) (before idle : List Op) (s c : String) (p : StreamTask)
    (hruns : Along Op.step Created (before ++ idle) (World.initial clock))
    (hidle : ∀ op ∈ idle, ¬ op.Renews s c)
    (htime : (runs Op.step before (World.initial clock)).clock + 1000000000 * task_timeout ≤
      (runs Op.step (before ++ idle) (World.initial clock)).clock)
    (hpub : ((runs Op.step (before ++ idle) (World.initial clock)).run (getPublisherTask s)).1 = some p)
    (hc : p.client_id = c) :
    Reclaimed ((Op.cleanup task_timeout).step (runs Op.step (before ++ idle) (World.initial clock))) s ↔
      (taskAt (runs Op.step (before ++ idle) (World.initial clock)) (buildTaskKey s c)).any
        fun t => t.type = .PUBLISHER := by
  obtain ⟨hw, -⟩ := runs_owner hruns
  obtain ⟨hbefore, hafter⟩ := hruns.of_append
  obtain ⟨hw₁, hc₁⟩ := runs_owner hbefore
  rw [runs_append] at hw hpub htime ⊢
  have hpub : pubAt _ s = some p := hpub
  rw [Option.any_eq_true]
  constructor
  · rintro ⟨hnone, -, -⟩
    by_contra hno
    -- no publisher of the stream is due, so its key is still there
    have hdue : ∀ t, Due (runs Op.step idle (runs Op.step before (World.initial clock))) (1000 * task_timeout) t →
        t.type = .PUBLISHER → t.stream_name ≠ s := by
      intro t hdue hp hs
      obtain ⟨k, x, hx, -, -, hk, -⟩ := hdue
      obtain ⟨body, rfl⟩ := hw.stamped k (by rw [hx]; exact nofun)
      obtain ⟨p', hp', hpc⟩ := hw.holder hk hp
      rw [hs, hpub] at hp'
      obtain rfl := Option.some.inj hp'
      rw [hw.keyed.of_taskAt hk, StreamTask.key, hs, ← hpc, hc] at hk
      exact hno ⟨t, hk, decide_eq_true hp⟩
    rw [pubAt_of_none ((cleanup_pub hw hdue).symm.trans hnone)] at hpub
    cases hpub
  · rintro ⟨t, ht, hp⟩
    have hp := of_decide_eq_true hp
    obtain ⟨hs, hcl, hts, -⟩ := hw.plain.of_taskAt hw.keyed ht hp
    -- nothing hit the key of the task since
    have hmiss : ∀ op ∈ idle, ¬ op.Hits (s ++ ":" ++ c) :=
      fun op hop hit => hidle op hop (renews_of_hits hs hcl hit)
    have hcalm := runs_calm hafter hmiss hw₁ (hc₁ _)
    obtain ⟨y, hy, hy0⟩ := hcalm.scored t ht
    obtain ⟨x, hx, hd⟩ := taskAt_eq_some ht
    obtain ⟨-, -, -, -, -, hr⟩ := deserialize_some hd
    have hlast := hcalm.last t ht
    have hpos : 0 ≤ (runs Op.step before (World.initial clock)).clock := by
      by_contra hneg
      have h0 : ms (runs Op.step before (World.initial clock)).clock ≤ 0 := ms_mono (b := 0) (by omega)
      have h1 : (1577836800000 : ℤ) ≤ ms t.last_active_time := hr.2.1
      omega
    have hms := ms_add_le hpos htime
    have hyL := hcalm.stamp y hy
    exact cleanup_reclaims hw ⟨_, y, hy, hy0, by omega, ht, by omega⟩ hp hts

/-- A publisher that is silent for the timeout of thirty seconds is reclaimed. -/
theorem cleanup_reclaims_after_thirty :
    Reclaimed ((Op.cleanup 30).step (runs Op.step ([.register (taskOf "a" .PUBLISHER start)] ++
      [.pass (start + 30 * second)]) (World.initial start))) "live" := by
  refine (cleanup_reclaims_iff start 30 [.register (taskOf "a" .PUBLISHER start)]
    [.pass (start + 30 * second)] "live" "a" (taskOf "a" .PUBLISHER start).stored ?_ ?_ ?_ ?_ rfl).2 ?_
  · exact ⟨⟨rfl, by decide, fun _ => by decide⟩, trivial, trivial⟩
  · intro op hop
    rw [List.mem_singleton.1 hop]
    exact id
  · decide +kernel
  · decide +kernel
  · decide +kernel

/-- With the default timeout of sixty seconds a publisher that is silent for sixty-one seconds is not
reclaimed: its hash is gone, and the stream stays taken. -/
theorem cleanup_abandons :
    let w := runs Op.step [.register (taskOf "a" .PUBLISHER start), .pass (start + 61 * second)]
      (World.initial start)
    (∃ p, (w.run (getPublisherTask "live")).1 = some p ∧ p.client_id = "a") ∧
      ((Op.cleanup 60).step w).hashes (buildPublisherKey "live") ≠ none ∧
      "live" ∈ ((Op.cleanup 60).step w).sets buildActivePublishersKey ∧
      ((Op.cleanup 60).step w).sets (memberKey "live") ≠ .empty := by
  refine ⟨⟨(taskOf "a" .PUBLISHER start).stored, ?_, rfl⟩, Option.isSome_iff_ne_none.1 ?_, ?_, ?_⟩
  · decide +kernel
  · decide +kernel
  · decide +kernel
  · decide +kernel

end StreamGate.Scheduler
