import StreamGate.Scheduler.Reclaim
import StreamGate.Scheduler.Refinement

/-!
# A publisher that keeps beating

A publisher keeps its stream as long as it sends heartbeats: whatever other clients do, however many iterations of the
cleanup run and whatever else runs out, its task and its publisher key stay, and no other client can publish the stream
(`beating_publisher_stays`).  Between two heartbeats there must be less than the timeout of the cleanup, and no more
than the time to live.

Of the other clients this needs the names only: their tasks may run out, and their streams be left behind.
-/

namespace StreamGate.Scheduler

open StreamGate.Redis StreamGate.Task StreamGate.Lib StreamGate.State

/-! ### How long a task lives -/

/-- Every task lives for the time to live after its last activity. -/
def Lasting : World → Prop :=
  Stored fun _ x => ∃ d, x.expireAt = some d ∧
    ∀ t, deserializeTask x.fields = some t → ms t.last_active_time + 1000 * TASK_TTL_SEC ≤ d

section Lasting

variable {w : World}

/-- What is read after a heartbeat has its time. -/
theorem last_of_beat {f : Fields} {now : ℤ} {t : StreamTask} (h : deserializeTask ((beat now).over f) = some t) :
    ms t.last_active_time = ms now := by
  obtain ⟨-, -, -, -, ⟨v, hv, hz⟩, hr⟩ := deserialize_some h
  obtain rfl : Decimal.to_string (ms now) = v := Option.some.inj hv
  have hnow : Reasonable (ms now) := by
    by_contra hno
    exact stoll_of_not_reasonable hno hz hr.2
  rw [Decimal.stoll_to_string hnow.fits] at hz
  exact (Option.some.inj hz).symm

theorem Lasting.drops {w' : World} {ids : List TaskIdentifier} (hd : Drops w ids w') (hw : Lasting w) : Lasting w' :=
  Stored.drops hd hw

theorem Lasting.dropTasks (hw : Lasting w) (ids : List TaskIdentifier) : Lasting (dropTasks ids w) := by
  refine Stored.mono (fun body x hx => ?_) hw
  rw [dropTasks_task] at hx
  split at hx
  · cases hx
  · exact hx

theorem Lasting.registerTask (hw : Lasting w) {t : StreamTask} (ht : t.last_active_time ≤ w.clock) :
    Lasting (w.run (registerTask t)).2 := by
  refine (registerTask_inv (I := fun v => Lasting v ∧ v.clock = w.clock)
    (fun v hv => ⟨hv.1.drops (forget_drops v _ _), (forget_clock v _ _).trans hv.2⟩) ?_ ?_ ?_ (fun v hv => hv)
    ⟨hw, rfl⟩).1
  · rintro v ⟨hv, hclock⟩
    refine ⟨fun body x hx => ?_, hclock⟩
    rw [putTask_task] at hx
    split at hx
    · obtain rfl := Option.some.inj hx
      refine ⟨_, rfl, fun u hu => ?_⟩
      have hread := deserialize_over t ((v.fieldsAt t.key).getD fun _ => none)
      rw [hread] at hu
      split at hu
      · obtain rfl := Option.some.inj hu
        have hlast : ms t.stored.last_active_time = ms t.last_active_time := ms_mul _
        have := ms_mono ht
        rw [hlast, hclock]
        omega
      · cases hu
    · exact hv body x hx
  · exact fun _ v hv => ⟨Stored.mono (fun body _ hx => indexPublisher_task v body t ▸ hx) hv.1, hv.2⟩
  · exact fun _ v hv => ⟨Stored.mono (fun body _ hx => indexPlayer_task v body t ▸ hx) hv.1, hv.2⟩

theorem Lasting.touch (hw : Lasting w) (s c : String) : Lasting (touch s c w) := by
  intro body x hx
  rw [touch_task] at hx
  split at hx
  · obtain rfl := Option.some.inj hx
    refine ⟨_, rfl, fun t ht => ?_⟩
    rw [last_of_beat ht]
  · exact hw body x hx

theorem lasting_step (hw : Lasting w) {op : Op} (hop : Created w op) : Lasting (op.step w) := by
  cases op with
  | register t => exact hw.registerTask hop.2.1
  | deregister s c =>
    rw [Op.step, run_deregisterTask]
    exact hw.drops (forget_drops w s c)
  | deregisterAll s =>
    rw [Op.step, run_deregisterAllMembers]
    exact hw.drops (clearStream_drops w s)
  | touch s c =>
    rw [Op.step, run_touchTask]
    exact hw.touch s c
  | scan timeout =>
    obtain ⟨ids, hd⟩ := scan_drops w timeout
    exact hw.drops hd
  | cleanup task_timeout =>
    rw [Op.step, run_timeoutCleanup]
    obtain ⟨ids, hd⟩ := scan_drops w (1000 * task_timeout)
    obtain ⟨ids', hd'⟩ := clearStreams_drops
      (publisherDiedStreams (w.run (scanTimeoutTasks (1000 * task_timeout))).1)
      (dropTasks ((w.run (scanTimeoutTasks (1000 * task_timeout))).1.map StreamTask.ident)
        (w.run (scanTimeoutTasks (1000 * task_timeout))).2)
    exact ((hw.drops hd).dropTasks _).drops hd'
  | pass t => exact Stored.advance hw t

end Lasting

/-! ### One step -/

/-- The client publishes, and was active at `L` or later. -/
def Lively (s c : String) (L : ℤ) (w : World) : Prop :=
  ∃ t, taskAt w (buildTaskKey s c) = some t ∧ t.type = .PUBLISHER ∧ L ≤ ms t.last_active_time

/-- The operation is not one on the task itself or its whole stream but for heartbeats in the accepted range, and comes
in time after `L`. -/
def Op.Spares (s c : String) (w : World) (L : ℤ) : Op → Prop
  | register t => ¬ (t.stream_name = s ∧ t.client_id = c)
  | deregister s' c' => ¬ (s' = s ∧ c' = c)
  | deregisterAll s' => s' ≠ s
  | touch s' c' => s' = s ∧ c' = c → Reasonable (ms w.clock)
  | scan timeout => ms w.clock < L + timeout
  | cleanup task_timeout => ms w.clock < L + 1000 * task_timeout
  | pass t => ms t ≤ L + 1000 * TASK_TTL_SEC

/-- The millisecond of the last heartbeat. -/
def Op.beat (s c : String) (w : World) (L : ℤ) : Op → ℤ
  | touch s' c' => if s' = s ∧ c' = c then ms w.clock else L
  | _ => L

section Step

variable {w : World} {s c : String} {L : ℤ}

/-- The names have their key for themselves. -/
theorem Lively.key_ne (h : Lively s c L w) (hw : Owner w) {s' c' : String} (hne : ¬ (s' = s ∧ c' = c)) :
    buildTaskKey s c ≠ buildTaskKey s' c' := by
  obtain ⟨t, ht, hp, -⟩ := h
  obtain ⟨hs, hc, -⟩ := hw.plain.of_taskAt hw.keyed ht hp
  intro hk
  obtain ⟨rfl, rfl⟩ := taskKey_inj_of_noColon hs hc hk
  exact hne ⟨rfl, rfl⟩

/-- The stream is the client's. -/
theorem Lively.publisher (h : Lively s c L w) (hw : Owner w) : ∃ p, pubAt w s = some p ∧ p.client_id = c := by
  obtain ⟨t, ht, hp, -⟩ := h
  obtain ⟨-, -, rfl, rfl⟩ := hw.plain.of_taskAt hw.keyed ht hp
  exact hw.holder ht hp

/-- A step that leaves the hash. -/
theorem Lively.of_task (h : Lively s c L w) {w' : World}
    (htask : w'.hashes (buildTaskKey s c) = w.hashes (buildTaskKey s c)) : Lively s c L w' := by
  obtain ⟨t, ht, hp, hL⟩ := h
  exact ⟨t, (taskAt_congr htask).trans ht, hp, hL⟩

/-- A scan in time does not find the task. -/
theorem Lively.not_found (h : Lively s c L w) (hw : Owner w) {timeout : ℤ} (hlt : ms w.clock < L + timeout) :
    ∀ u ∈ (w.run (scanTimeoutTasks timeout)).1, buildTaskKey s c ≠ u.key := by
  rintro u hu hk
  obtain ⟨t, ht, -, hL⟩ := h
  obtain ⟨k, x, hx, -, -, hread, hold⟩ := (mem_scan hw.keyed hw.stamped timeout u).1 hu
  obtain ⟨body, rfl⟩ := hw.stamped k (by rw [hx]; exact Option.some_ne_none x)
  rw [hw.keyed.of_taskAt hread, ← hk, ht] at hread
  obtain rfl := Option.some.inj hread
  omega

theorem Lively.scan (h : Lively s c L w) (hw : Owner w) {timeout : ℤ} (hlt : ms w.clock < L + timeout) :
    Lively s c L (w.run (scanTimeoutTasks timeout)).2 :=
  h.of_task (scan_task_of_ne (h.not_found hw hlt))

theorem Lively.clearStreams (h : Lively s c L w) (hs : NoColon s) (hc : NoColon c) {streams : List String}
    (hne : s ∉ streams) : Lively s c L (streams.foldl (fun w s => clearStream s w) w) := by
  induction streams generalizing w with
  | nil => exact h
  | cons s' streams ih =>
    rw [List.mem_cons, not_or] at hne
    refine ih (h.of_task (clearStream_task_of_ne fun c' hk => ?_)) hne.2
    exact hne.1 (taskKey_inj_of_noColon hs hc hk).1

/-- An iteration of the cleanup: neither is the task overdue, nor is another publisher of the stream, as there is
none. -/
theorem Lively.cleanup (h : Lively s c L w) (hw : Owner w) {task_timeout : ℤ}
    (hlt : ms w.clock < L + 1000 * task_timeout) : Lively s c L (w.run (timeoutCleanup task_timeout)).2 := by
  have hfound := h.not_found hw hlt
  have hscan := h.scan hw hlt
  obtain ⟨t, ht, hp, -⟩ := h
  obtain ⟨hs, hc, hts, htc⟩ := hw.plain.of_taskAt hw.keyed ht hp
  rw [run_timeoutCleanup]
  have hbatch : Lively s c L (dropTasks ((w.run (scanTimeoutTasks (1000 * task_timeout))).1.map StreamTask.ident)
      (w.run (scanTimeoutTasks (1000 * task_timeout))).2) := by
    refine hscan.of_task (dropTasks_task_of_ne fun id hid => ?_)
    obtain ⟨u, hu, rfl⟩ := List.mem_map.1 hid
    exact hfound u hu
  refine hbatch.clearStreams hs hc fun hdied => ?_
  obtain ⟨u, hu, hup, hus⟩ := mem_publisherDiedStreams.1 hdied
  obtain ⟨k, x, hx, -, -, hread, -⟩ := (mem_scan hw.keyed hw.stamped _ u).1 hu
  obtain ⟨body, rfl⟩ := hw.stamped k (by rw [hx]; exact Option.some_ne_none x)
  obtain ⟨p, hpub, hpc⟩ := hw.holder ht hp
  obtain ⟨p', hpub', hpc'⟩ := hw.holder hread hup
  rw [hus, ← hts, hpub] at hpub'
  obtain rfl := Option.some.inj hpub'
  -- so the overdue publisher is the client itself
  refine hfound u hu ?_
  rw [StreamTask.key, hus, ← hpc', hpc, htc]

theorem Lively.pass (h : Lively s c L w) (hl : Lasting w) {t : ℤ} (ht : ms t ≤ L + 1000 * TASK_TTL_SEC) :
    Lively s c L (advance t w) := by
  refine h.of_task ?_
  obtain ⟨u, hu, -, hL⟩ := h
  obtain ⟨x, hx, hd⟩ := taskAt_eq_some hu
  obtain ⟨d, hexpire, hlast⟩ := hl _ x hx
  have := hlast u hd
  unfold advance
  split
  · show Option.filter _ (w.hashes _) = w.hashes _
    rw [hx, Option.filter_some, if_pos]
    simp only [Hash.expired, hexpire, Option.any_some, Bool.not_eq_true', decide_eq_false_iff_not]
    omega
  · rfl

/-- **One step.** -/
theorem lively_step (h : Lively s c L w) (hw : Owner w) (hl : Lasting w) {op : Op} (hop : op.Spares s c w L) :
    Lively s c (op.beat s c w L) (op.step w) := by
  cases op with
  | register t => exact h.of_task (registerTask_task_of_ne (h.key_ne hw hop))
  | deregister s' c' =>
    rw [Op.step, run_deregisterTask]
    exact h.of_task (forget_task_of_ne (h.key_ne hw hop))
  | deregisterAll s' =>
    rw [Op.step, run_deregisterAllMembers]
    exact h.of_task (clearStream_task_of_ne fun c' => h.key_ne hw fun e => hop e.1)
  | touch s' c' =>
    rw [Op.step, run_touchTask, Op.beat]
    split
    · rename_i hsc
      obtain ⟨rfl, rfl⟩ := hsc
      obtain ⟨t, ht, hp, -⟩ := h
      obtain ⟨x, hx, hd⟩ := taskAt_eq_some ht
      have hhash : (touch s' c' w).hashes (buildTaskKey s' c') = _ := (touch_task w s' c' _).trans (if_pos rfl)
      rw [World.fieldsAt, hx, Option.map_some, Option.getD_some] at hhash
      refine ⟨{ t with last_active_time := ms w.clock * 1000000 }, ?_, hp, (ms_mul _).ge⟩
      dsimp only
      rw [taskAt, World.fieldsAt, hhash]
      exact deserialize_beat hd (hop ⟨rfl, rfl⟩)
    · rename_i hne
      exact h.of_task ((touch_task w s' c' _).trans (if_neg (h.key_ne hw hne)))
  | scan timeout => exact h.scan hw hop
  | cleanup task_timeout => exact h.cleanup hw hop
  | pass t => exact h.pass hl hop

end Step

/-! ### Runs -/

/-- The conditions of `owner_step`, for a hook on the task that it makes: the names of a publisher have no colon, also
where its hook is refused. -/
def Act.Created (w : World) : Act → Prop
  | op o => Scheduler.Created w o
  | hook (.publish _ q) => NoColon q.stream_name ∧ NoColon q.client_id
  | hook _ => True

/-- No hook is one of the client itself. -/
def Act.Spares (s c : String) (x : World × ℤ) : Act → Prop
  | op o => o.Spares s c x.1 x.2
  | hook (.publish _ q) => ¬ (q.stream_name = s ∧ q.client_id = c)
  | hook (.play q) => ¬ (q.stream_name = s ∧ q.client_id = c)
  | hook (.publishDone s' c') => ¬ (s' = s ∧ c' = c)
  | hook (.playDone s' c') => ¬ (s' = s ∧ c' = c)

/-- The store, and the last heartbeat. -/
def Act.beat (s c : String) (a : Act) (x : World × ℤ) : World × ℤ :=
  (a.step x.1, match a with
    | op o => o.beat s c x.1 x.2
    | hook _ => x.2)

section Runs

variable {w : World} {s c : String} {L : ℤ}

/-- The task of a hook is made at its registration. -/
theorem HookCall.created {h : HookCall} (hh : (Act.hook h).Created w) {o : Op} (ho : h.op w = some o) :
    Created w o := by
  cases h with
  | publish cfg q =>
    rw [HookCall.op] at ho
    split at ho
    · obtain rfl := Option.some.inj ho
      exact ⟨rfl, le_refl _, fun _ => hh⟩
    · cases ho
  | play q =>
    obtain ⟨p, -, ho⟩ := Option.bind_eq_some_iff.1 ho
    split at ho
    · obtain rfl := Option.some.inj ho
      exact ⟨rfl, le_refl _, fun h => by cases h⟩
    · cases ho
  | publishDone s c =>
    rw [HookCall.op] at ho
    split at ho
    · obtain rfl := Option.some.inj ho
      trivial
    · cases ho
  | playDone s c =>
    obtain rfl := Option.some.inj ho
    trivial

/-- A hook of another client leaves the task: only the publisher ends its stream. -/
theorem HookCall.spares {h : HookCall} (hlive : Lively s c L w) (hw : Owner w) (hh : (Act.hook h).Spares s c (w, L))
    {o : Op} (ho : h.op w = some o) : o.Spares s c w L ∧ o.beat s c w L = L := by
  cases h with
  | publish cfg q =>
    rw [HookCall.op] at ho
    split at ho
    · obtain rfl := Option.some.inj ho
      exact ⟨hh, rfl⟩
    · cases ho
  | play q =>
    obtain ⟨p, -, ho⟩ := Option.bind_eq_some_iff.1 ho
    split at ho
    · obtain rfl := Option.some.inj ho
      exact ⟨hh, rfl⟩
    · cases ho
  | publishDone s' c' =>
    rw [HookCall.op] at ho
    split at ho
    · rename_i hp
      obtain rfl := Option.some.inj ho
      refine ⟨?_, rfl⟩
      rintro rfl
      obtain ⟨u, hu, hup⟩ := (Option.any_eq_true _ _).1 hp
      obtain ⟨-, -, hus, huc⟩ := hw.plain.of_taskAt hw.keyed hu (of_decide_eq_true hup)
      obtain ⟨p, hpub, hpc⟩ := hlive.publisher hw
      obtain ⟨p', hpub', hpc'⟩ := hw.holder hu (of_decide_eq_true hup)
      rw [hus, hpub] at hpub'
      obtain rfl := Option.some.inj hpub'
      exact hh ⟨rfl, huc.symm.trans (hpc'.symm.trans hpc)⟩
    · cases ho
  | playDone s' c' =>
    obtain rfl := Option.some.inj ho
    exact ⟨hh, rfl⟩

theorem Act.step_kept {a : Act} (hw : Owner w) (hl : Lasting w) (ha : a.Created w) :
    Owner (a.step w) ∧ Lasting (a.step w) := by
  cases a with
  | op o => exact ⟨owner_step hw ha, lasting_step hl ha⟩
  | hook h =>
    rw [Act.step, HookCall.step_eq]
    cases ho : h.op w with
    | none => exact ⟨hw, hl⟩
    | some o => exact ⟨owner_step hw (HookCall.created ha ho), lasting_step hl (HookCall.created ha ho)⟩

theorem Act.step_lively {a : Act} (h : Lively s c L w) (hw : Owner w) (hl : Lasting w) (ha : a.Spares s c (w, L)) :
    Lively s c (a.beat s c (w, L)).2 (a.beat s c (w, L)).1 := by
  cases a with
  | op o => exact lively_step h hw hl ha
  | hook k =>
    show Lively s c L (k.step w)
    rw [HookCall.step_eq]
    cases ho : k.op w with
    | none => exact h
    | some o =>
      obtain ⟨hspares, hbeat⟩ := HookCall.spares h hw ha ho
      have hstep := lively_step h hw hl hspares
      rw [hbeat] at hstep
      exact hstep

/-- In every state of a run the owners are in order, and the tasks last. -/
theorem kept_of_run {clock : ℤ} {acts : List Act}
    (h : Along Act.step (fun w a => a.Created w) acts (World.initial clock)) :
    Owner (runs Act.step acts (World.initial clock)) ∧ Lasting (runs Act.step acts (World.initial clock)) :=
  h.inv (I := fun w => Owner w ∧ Lasting w) (fun _ _ hw ha => Act.step_kept hw.1 hw.2 ha)
    ⟨Owner.initial clock, Stored.initial clock⟩

/-- The stream is the client's, for everybody. -/
structure Publishes (w : World) (s c : String) : Prop where
  task : ∃ t, (w.run (getTask s c)).1 = some t ∧ t.type = .PUBLISHER
  publisher : ∃ p, (w.run (getPublisherTask s)).1 = some p ∧ p.client_id = c
  others : ∀ cfg q, q.stream_name = s → q.client_id ≠ c → validateRequest q → q.code = 0 →
    (w.run (onPublish cfg q)).1.error = .ALREADY_PUBLISHING

theorem Lively.publishes (h : Lively s c L w) (hw : Owner w) : Publishes w s c := by
  obtain ⟨p, hp, hpc⟩ := h.publisher hw
  obtain ⟨t, ht, htp, -⟩ := h
  refine ⟨⟨t, ht, htp⟩, ⟨p, hp, hpc⟩, fun cfg q hq hne hvalid hcode => ?_⟩
  have hbarred : Barred w (newTask q .PUBLISHER (selectBestNode cfg q.nodeIndex q.protocol).1
      (selectBestNode cfg q.nodeIndex q.protocol).2 w.clock) := by
    refine ⟨rfl, p, ?_, fun e => hne (e.symm.trans hpc)⟩
    show pubAt w q.stream_name = some p
    rw [hq]
    exact hp
  rw [onPublish_error_eq, if_neg (not_not.2 hvalid), if_neg (not_not.2 hcode), run_registerTask_barred hbarred]
  rfl

/-- **A publisher that keeps beating keeps its stream.**  A client publishes `s` after some run in which no publisher
has a colon in its names and tasks are made at their registration (`Created`).  Then anything of this kind may happen
but for operations and hooks of the client itself and the end of its stream (`Spares`): as long as its heartbeats are
in the accepted range, each scan and each iteration of the cleanup comes less than the timeout after its last heartbeat
and each moment no more than the time to live, its task is there, the stream is its own, and a publish request of
another client is refused. -/
theorem beating_publisher_stays (clock : ℤ) (before acts : List Act) (s c : String) (p : StreamTask)
    (hbefore : Along Act.step (fun w a => a.Created w) before (World.initial clock))
    (hp : ((runs Act.step before (World.initial clock)).run (getTask s c)).1 = some p) (htype : p.type = .PUBLISHER)
    (hacts : Along (Act.beat s c) (fun x a => a.Created x.1 ∧ a.Spares s c x) acts
      (runs Act.step before (World.initial clock), ms p.last_active_time)) :
    Publishes (runs Act.step (before ++ acts) (World.initial clock)) s c := by
  obtain ⟨howner, hlasting⟩ := kept_of_run hbefore
  have hfst : (runs (Act.beat s c) acts (runs Act.step before (World.initial clock), ms p.last_active_time)).1 =
      runs Act.step (before ++ acts) (World.initial clock) := by
    rw [runs_append]
    exact hacts.sim (R := fun x v => x.1 = v) (fun x v a hx _ => congrArg a.step hx) rfl
  have hend := hacts.inv (I := fun x : World × ℤ => Owner x.1 ∧ Lasting x.1 ∧ Lively s c x.2 x.1)
    (fun x a hx ha => ⟨(Act.step_kept hx.1 hx.2.1 ha.1).1, (Act.step_kept hx.1 hx.2.1 ha.1).2,
      Act.step_lively hx.2.2 hx.1 hx.2.1 ha.2⟩) ⟨howner, hlasting, p, hp, htype, le_refl _⟩
  rw [hfst] at hend
  exact hend.2.2.publishes hend.1

/-- A publisher, another one that wants the stream, a heartbeat, time, an iteration of the cleanup. -/
def vigil : List Act :=
  [.op (.pass (start + 50 * second)), .op (.touch "live" "a"), .op (.pass (start + 100 * second)), .op (.cleanup 60),
    .hook (.publish {} { stream_name := "live", client_id := "b", auth_token := "t" }),
    .hook (.publishDone "live" "b")]

theorem vigil_kept : Publishes (runs Act.step
    ([.hook (.publish {} { stream_name := "live", client_id := "a", auth_token := "t" })] ++ vigil)
      (World.initial start))
    "live" "a" := by
  refine beating_publisher_stays start _ vigil "live" "a" (taskOf "a" .PUBLISHER start).stored
    ⟨⟨by decide, by decide⟩, trivial⟩ (by decide +kernel) rfl ?_
  refine ⟨⟨trivial, ?_⟩, ⟨trivial, fun _ => ?_⟩, ⟨trivial, ?_⟩, ⟨trivial, ?_⟩, ⟨⟨by decide, by decide⟩, ?_⟩,
    ⟨trivial, ?_⟩, trivial⟩
  · show (_ : ℤ) ≤ _
    decide +kernel
  · show Reasonable _
    decide +kernel
  · show (_ : ℤ) ≤ _
    decide +kernel
  · show (_ : ℤ) < _
    decide +kernel
  · show ¬ _
    decide
  · show ¬ _
    decide

end Runs

end StreamGate.Scheduler
