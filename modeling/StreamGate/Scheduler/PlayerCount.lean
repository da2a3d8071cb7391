import StreamGate.State.Tally
import StreamGate.Scheduler.Ops

/-!
# The player counter along runs

A run is taken together with the pairs of stream and client that are registered as players: a pair
comes in by a registration as a player, and goes out by a registration as a publisher, by a
deregistration, and by a cleanup that found its task or the publisher of its stream.  The counter
stands at the number of the pairs in every state of a run whose steps meet `KeepsCount`
(`player_count_exact`).  A cleanup that finds a player counts it down twice
(`player_count_wraps`).
-/

namespace StreamGate.Scheduler

open StreamGate.Redis StreamGate.Task StreamGate.Lib StreamGate.State

/-- The pairs registered as players after a step. -/
def Op.players (w : World) (P : Finset (String × String)) : Op → Finset (String × String)
  | register t =>
    if (w.run (registerTask t)).1 then
      match t.type with
      | .PLAYER => insert (t.stream_name, t.client_id) P
      | .PUBLISHER => P.erase (t.stream_name, t.client_id)
    else P
  | deregister s c => P.erase (s, c)
  | deregisterAll s => P.filter fun p => p.1 ≠ s
  | touch _ _ => P
  | scan timeout => without (w.run (scanTimeoutTasks timeout)).1 P
  | cleanup task_timeout =>
    let expired := (w.run (scanTimeoutTasks (1000 * task_timeout))).1
    (without expired P).filter fun p => p.1 ∉ publisherDiedStreams expired
  | pass _ => P

/-- A step together with the pairs. -/
def Op.count (op : Op) (c : World × Finset (String × String)) : World × Finset (String × String) :=
  (op.step c.1, op.players c.1 c.2)

/-- The steps that count right: every pair that leaves can be read as a player when it leaves. -/
def KeepsCount (c : World × Finset (String × String)) : Op → Prop
  | .register t => Reasonable (ms c.1.clock) ∧
    match t.type with
    | .PLAYER => NoColon t.stream_name ∧ NoColon t.client_id ∧
      ((t.stream_name, t.client_id) ∈ c.2 → playing c.1 t.stream_name t.client_id)
    | .PUBLISHER => (t.stream_name, t.client_id) ∈ c.2 → ∃ p, pubAt c.1 t.stream_name = some p ∧
      (p.client_id = t.client_id → playing c.1 t.stream_name t.client_id)
  | .deregister s cl => (s, cl) ∈ c.2 → playing c.1 s cl
  | .deregisterAll s => ∀ cl, (s, cl) ∈ c.2 → playing c.1 s cl
  | .cleanup task_timeout => ∀ t, Due c.1 (1000 * task_timeout) t → t.type = .PUBLISHER ∧
    ∀ cl, (t.stream_name, cl) ∈ c.2 → playing c.1 t.stream_name cl
  | .touch _ _ => True
  | .scan _ => True
  | .pass _ => True

section Steps

variable {w : World} {P : Finset (String × String)}

/-- The cascades of several streams. -/
theorem tally_clearStreams {streams : List String} (hw : Tally w P)
    (hlive : ∀ s ∈ streams, ∀ c, (s, c) ∈ P → playing w s c) :
    Tally (streams.foldl (fun w s => clearStream s w) w) (P.filter fun p => p.1 ∉ streams) := by
  induction streams generalizing w P with
  | nil => simpa using hw
  | cons s streams ih =>
    have hP : (P.filter fun p => p.1 ∉ s :: streams) =
        (P.filter fun p => p.1 ≠ s).filter fun p => p.1 ∉ streams := by
      ext p
      simp only [Finset.mem_filter, List.mem_cons, not_or, and_assoc, ne_eq]
    rw [hP]
    refine ih (hw.clearStream (hlive s (by simp))) fun s' hs' c hm => ?_
    obtain ⟨hm, hne⟩ := Finset.mem_filter.1 hm
    rw [playing_congr (clearStream_task_of_ne fun c' e => hne ?_)]
    · exact hlive s' (by simp [hs']) c hm
    · exact congrArg Prod.fst (hw.key_inj hm e)

/-- A cleanup that finds publishers only. -/
theorem tally_cleanup (hw : Tally w P) (task_timeout : ℤ)
    (hdue : ∀ t, Due w (1000 * task_timeout) t → t.type = .PUBLISHER ∧
      ∀ c, (t.stream_name, c) ∈ P → playing w t.stream_name c) :
    Tally ((Op.cleanup task_timeout).step w) ((Op.cleanup task_timeout).players w P) := by
  have hfound : ∀ t ∈ (w.run (scanTimeoutTasks (1000 * task_timeout))).1, Due w (1000 * task_timeout) t :=
    fun t => (mem_scan hw.keyed hw.stamped _ t).1
  -- what the scan returns was never counted
  have hout : ∀ t ∈ (w.run (scanTimeoutTasks (1000 * task_timeout))).1, (t.stream_name, t.client_id) ∉ P := by
    intro t ht hm
    obtain ⟨k, x, hx, -, -, hk, -⟩ := hfound t ht
    obtain ⟨body, rfl⟩ := hw.stamped k (by rw [hx]; exact nofun)
    rw [hw.keyed.of_taskAt hk] at hk
    have := (hw.mem_iff hk).1 hm
    rw [(hdue t (hfound t ht)).1] at this
    cases this
  have hsame : without (w.run (scanTimeoutTasks (1000 * task_timeout))).1 P = P :=
    Finset.filter_true_of_mem fun p hp t ht e => hout t ht (e ▸ hp)
  have hscan := hw.scan (1000 * task_timeout)
  rw [hsame] at hscan
  have hids : ∀ id ∈ (w.run (scanTimeoutTasks (1000 * task_timeout))).1.map StreamTask.ident,
      id.type = .PUBLISHER ∧ (id.streamName, id.clientId) ∉ P := by
    intro id hid
    obtain ⟨t, ht, rfl⟩ := List.mem_map.1 hid
    exact ⟨(hdue t (hfound t ht)).1, hout t ht⟩
  have hbatch := hscan.dropPublishers hids
  rw [Op.step, run_timeoutCleanup, Op.players, hsame]
  refine tally_clearStreams hbatch fun s hs c hm => ?_
  obtain ⟨t, ht, -, rfl⟩ := mem_publisherDiedStreams.1 hs
  -- the pairs play after the scan and the batch if they did before
  have hkey : ∀ q ∈ (w.run (scanTimeoutTasks (1000 * task_timeout))).1,
      buildTaskKey t.stream_name c ≠ buildTaskKey q.stream_name q.client_id :=
    fun q hq e => hout q hq (hw.key_inj hm e ▸ hm)
  rw [playing_congr ((dropTasks_task_of_ne fun id hid => ?_).trans (scan_task_of_ne hkey))]
  · exact (hdue t (hfound t ht)).2 c hm
  · obtain ⟨q, hq, rfl⟩ := List.mem_map.1 hid
    exact hkey q hq

theorem keepsCount_step (c : World × Finset (String × String)) (op : Op) (hw : Tally c.1 c.2)
    (h : KeepsCount c op) : Tally (op.count c).1 (op.count c).2 := by
  obtain ⟨w, P⟩ := c
  cases op with
  | register t =>
    obtain ⟨hclock, h⟩ := h
    show Tally (w.run (registerTask t)).2 (Op.players w P (.register t))
    rw [Op.players]
    cases hp : t.type with
    | PUBLISHER =>
      rw [hp] at h
      exact hw.registerTask_publisher hp hclock h
    | PLAYER =>
      rw [hp] at h
      obtain ⟨hok, ht⟩ := hw.registerTask_player hp h.1 h.2.1 hclock h.2.2
      rw [hok]
      exact ht
  | deregister s cl =>
    show Tally (w.run (deregisterTask s cl)).2 _
    rw [run_deregisterTask]
    exact hw.forget h
  | deregisterAll s =>
    show Tally (w.run (deregisterAllMembers s)).2 _
    rw [run_deregisterAllMembers]
    exact hw.clearStream h
  | touch s cl =>
    show Tally (w.run (touchTask s cl)).2 _
    rw [run_touchTask]
    exact hw.touch s cl
  | scan timeout => exact hw.scan timeout
  | cleanup task_timeout => exact tally_cleanup hw task_timeout h
  | pass t => exact hw.advance t

end Steps

/-- The pairs are kept beside the run and do not change it. -/
theorem runs_count_fst (ops : List Op) (c : World × Finset (String × String)) :
    (runs Op.count ops c).1 = runs Op.step ops c.1 := by
  induction ops generalizing c with
  | nil => rfl
  | cons op ops ih => exact ih (op.count c)

/-- **The player counter is exact** in every state of a run all of whose steps count right, and is
read without wrapping. -/
theorem player_count_exact (clock : ℤ) (ops : List Op)
    (h : Along Op.count KeepsCount ops (World.initial clock, ∅)) :
    let w := runs Op.step ops (World.initial clock)
    let P := (runs Op.count ops (World.initial clock, ∅)).2
    counterOf ((w.fieldsAt buildGlobalPlayerCountKey).getD fun _ => none) .total = P.card ∧
      (w.run getActivePlayerCount).1 = if P.card < 2 ^ 64 then P.card else 0 := by
  have hw : Tally (runs Op.count ops (World.initial clock, ∅)).1
      (runs Op.count ops (World.initial clock, ∅)).2 :=
    h.inv (I := fun c => Tally c.1 c.2) keepsCount_step (Tally.initial clock)
  rw [runs_count_fst] at hw
  exact ⟨hw.total.counterOf_eq, hw.total.run_getActivePlayerCount⟩

/-- Two players, one of which leaves. -/
theorem player_count_exact_of_two :
    let ops := [Op.register (taskOf "a" .PLAYER start), .register (taskOf "b" .PLAYER start),
      .pass (start + second), .deregister "live" "a"]
    let w := runs Op.step ops (World.initial start)
    (w.run getActivePlayerCount).1 = 1 ∧ (runs Op.count ops (World.initial start, ∅)).2.card = 1 := by
  have h := player_count_exact start [Op.register (taskOf "a" .PLAYER start),
    .register (taskOf "b" .PLAYER start), .pass (start + second), .deregister "live" "a"]
    ⟨⟨by decide, by decide, by decide, fun h => absurd h (by decide)⟩,
      ⟨by decide +kernel, by decide, by decide, fun h => absurd h (by decide +kernel)⟩, trivial,
      fun _ => by decide +kernel, trivial⟩
  have hcard : (runs Op.count [Op.register (taskOf "a" .PLAYER start),
    .register (taskOf "b" .PLAYER start), .pass (start + second), .deregister "live" "a"]
    (World.initial start, ∅)).2.card = 1 := by decide +kernel
  refine ⟨h.2.trans ?_, hcard⟩
  rw [hcard]
  rfl

/-- A player times out: the scan deregisters it and the batch of the cleanup counts it down once
more. -/
theorem player_count_wraps :
    let ops := [Op.register (taskOf "a" .PLAYER start), .pass (start + 30 * second), .cleanup 30]
    let w := runs Op.step ops (World.initial start)
    (runs Op.count ops (World.initial start, ∅)).2 = ∅ ∧
      counterOf ((w.fieldsAt buildGlobalPlayerCountKey).getD fun _ => none) .total = -1 ∧
      (w.run getActivePlayerCount).1 = 18446744073709551615 := by
  refine ⟨?_, ?_, ?_⟩
  · decide +kernel
  · decide +kernel
  · decide +kernel

end StreamGate.Scheduler
