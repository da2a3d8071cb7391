import StreamGate.State.Streams
import StreamGate.Scheduler.PlayerCount

/-!
# The listings

What the state manager lists, along sequential runs.  The index of the active publishers is exact
(`active_publishers_exact`): `active_pubs` has the streams that have a publisher key, and every such key
is read as the publisher of its stream.  The listing of the players of a stream is not: it reads the
set `players:s`, and the players are entered in `stream:members:s`, so it is right only for a stream
without players (`player_listing_iff`).
-/

namespace StreamGate.Scheduler

open StreamGate.Redis StreamGate.Task StreamGate.Lib StreamGate.State

/-! ### Changes -/

/-- One step of a run: an operation, a batch with targets of the caller, or time that passes without
anything running out. -/
inductive Change where
  | op (o : Op)
  | batch (tasks : List TaskIdentifier)
  | tick (t : ℤ)

/-- The world after a change. -/
def Change.step : Change → World → World
  | op o, w => o.step w
  | batch tasks, w => (w.run (deregisterTasksBatch tasks)).2
  | tick t, w => Redis.tick t w

/-- The tasks that a change registers satisfy `A`. -/
def Change.Registers (A : StreamTask → Prop) : Change → Prop
  | op (.register t) => A t
  | _ => True

theorem Change.registers_any (c : Change) : c.Registers fun _ => True := by
  cases c with
  | op o => cases o <;> trivial
  | batch tasks => trivial
  | tick t => trivial

/-- A property that every change to the store keeps, if the registered tasks satisfy `A`. -/
structure Kept (A : StreamTask → Prop) (I : World → Prop) : Prop where
  drop : ∀ w id, I w → I (dropTask id w)
  stamp : ∀ w z, I w → I (w.setZset buildTaskTimestampZSetKey z)
  clear : ∀ w s, I w → I (w.del (memberKey s))
  put : ∀ w t, I w → I (putTask t w)
  publisher : ∀ w t, A t → t.type = .PUBLISHER → I w → I (indexPublisher t w)
  player : ∀ w t, I w → I (indexPlayer t w)
  touch : ∀ w s c, I w → I (touch s c w)
  advance : ∀ w t, I w → I (advance t w)
  tick : ∀ w t, I w → I (Redis.tick t w)

namespace Kept

variable {A : StreamTask → Prop} {I : World → Prop} {w w' : World}

theorem drops (h : Kept A I) {ids : List TaskIdentifier} (hd : Drops w ids w') (hw : I w) : I w' :=
  hd.inv (fun v _ _ _ hv _ => h.drop v _ hv) (fun v z hv _ => h.stamp v z hv) (fun v s hv => h.clear v s hv) hw

theorem dropTasks (h : Kept A I) (ids : List TaskIdentifier) (hw : I w) : I (dropTasks ids w) := by
  induction ids generalizing w with
  | nil => exact hw
  | cons id ids ih => exact ih (h.drop w id hw)

theorem registerTask (h : Kept A I) {t : StreamTask} (ht : A t) (hw : I w) : I (w.run (registerTask t)).2 :=
  registerTask_inv (fun v hv => h.drops (forget_drops v _ _) hv) (fun v hv => h.put v t hv)
    (fun hp v hv => h.publisher v t ht hp hv) (fun _ v hv => h.player v t hv) (fun v hv => h.stamp v _ hv) hw

theorem step (h : Kept A I) {c : Change} (hc : c.Registers A) (hw : I w) : I (c.step w) := by
  cases c with
  | batch tasks =>
    rw [Change.step, run_deregisterTasksBatch]
    exact h.dropTasks tasks hw
  | tick t => exact h.tick w t hw
  | op o =>
    show I (o.step w)
    cases o with
    | register t => exact h.registerTask hc hw
    | deregister s c =>
      rw [Op.step, run_deregisterTask]
      exact h.drops (forget_drops w s c) hw
    | deregisterAll s =>
      rw [Op.step, run_deregisterAllMembers]
      exact h.drops (clearStream_drops w s) hw
    | touch s c =>
      rw [Op.step, run_touchTask]
      exact h.touch w s c hw
    | scan timeout =>
      obtain ⟨ids, hd⟩ := scan_drops w timeout
      exact h.drops hd hw
    | cleanup task_timeout =>
      obtain ⟨ids, hd⟩ := scan_drops w (1000 * task_timeout)
      obtain ⟨ids', hd'⟩ := clearStreams_drops
        (publisherDiedStreams (w.run (scanTimeoutTasks (1000 * task_timeout))).1) _
      rw [Op.step, run_timeoutCleanup]
      exact h.drops hd' (h.dropTasks _ (h.drops hd hw))
    | pass t => exact h.advance w t hw

/-- **Along runs.** -/
theorem runs (h : Kept A I) {cs : List Change} (hcs : ∀ c ∈ cs, c.Registers A) (hw : I w) :
    I (runs Change.step cs w) := by
  induction cs generalizing w with
  | nil => exact hw
  | cons c cs ih =>
    exact ih (fun d hd => hcs d (List.mem_cons_of_mem _ hd)) (h.step (hcs c List.mem_cons_self) hw)

end Kept

/-! ### The active publishers -/

/-- The index of the publishers is exact. -/
structure Indexed (w : World) : Prop where
  /-- A stream is listed exactly if it has a publisher key. -/
  active : ∀ s, s ∈ w.sets .active_pubs ↔ (w.hashes (.pub s)).isSome
  /-- A publisher key is the active publisher of its stream, and does not expire. -/
  pub : ∀ s x, w.hashes (.pub s) = some x → x.fields .active = some "1" ∧ x.expireAt = none ∧
    ∃ t, deserializeTask x.fields = some t ∧ t.stream_name = s ∧ t.type = .PUBLISHER

namespace Indexed

variable {w w' : World}

/-- What happens elsewhere does not matter. -/
theorem of_eq (hw : Indexed w) (hs : w'.sets .active_pubs = w.sets .active_pubs)
    (hp : ∀ s, w'.hashes (.pub s) = w.hashes (.pub s)) : Indexed w' := by
  refine ⟨fun s => ?_, fun s x hx => hw.pub s x (hp s ▸ hx)⟩
  rw [hs, hp]
  exact hw.active s

theorem dropTask (hw : Indexed w) (id : TaskIdentifier) : Indexed (dropTask id w) := by
  obtain ⟨s', c, ty⟩ := id
  refine ⟨fun s => ?_, fun s x hx => ?_⟩
  · rw [dropTask_active, dropTask_pub]
    by_cases hp : ty = .PUBLISHER
    · by_cases hs : s = s'
      · simp [hp, hs]
      · simp [hp, hs, hw.active s]
    · simp [hp, hw.active s]
  · rw [dropTask_pub] at hx
    split at hx
    · cases hx
    · exact hw.pub s x hx

theorem indexPublisher (hw : Indexed w) {t : StreamTask} (ht : t.Readable) (hp : t.type = .PUBLISHER) :
    Indexed (indexPublisher t w) := by
  refine ⟨fun s => ?_, fun s x hx => ?_⟩
  · rw [indexPublisher_active, indexPublisher_pub, RSet.mem_add]
    by_cases hs : s = t.stream_name
    · simp [hs]
    · simp [hs, hw.active s]
  · rw [indexPublisher_pub] at hx
    split at hx
    · rename_i hs
      obtain rfl := Option.some.inj hx
      refine ⟨rfl, ?_, t.stored, (deserialize_over t _).trans (if_pos ht), hs.symm, hp⟩
      -- the key has never had a time to live
      cases hold : w.hashes (.pub s) with
      | none => rfl
      | some y => exact (hw.pub s y hold).2.1
    · exact hw.pub s x hx

theorem advance (hw : Indexed w) (t : ℤ) : Indexed (advance t w) := by
  have hkept : PubsKept w := fun s x hx => ⟨(hw.pub s x hx).1, (hw.pub s x hx).2.1⟩
  refine hw.of_eq ?_ (hkept.advance_eq t)
  unfold Redis.advance
  split
  · rfl
  · rfl

theorem kept : Kept StreamTask.Readable Indexed where
  drop _ id hw := hw.dropTask id
  stamp _ _ hw := hw.of_eq rfl fun _ => rfl
  clear _ _ hw := hw.of_eq (World.del_sets_of_ne _ _ _ (by simp [memberKey]))
    fun _ => World.del_hashes_of_ne _ _ _ (by simp [memberKey])
  put w t hw := hw.of_eq rfl fun s => putTask_pub w s t
  publisher _ _ ht hp hw := hw.indexPublisher ht hp
  player w t hw := hw.of_eq (indexPlayer_active w t) fun s => indexPlayer_pub w s t
  touch w s c hw := hw.of_eq rfl fun s' => touch_pub w s c s'
  advance _ t hw := hw.advance t
  tick _ _ hw := hw.of_eq rfl fun _ => rfl

theorem initial (clock : ℤ) : Indexed (World.initial clock) where
  active s := by simp [World.initial]
  pub s x hx := by cases hx

/-- A listed stream has a publisher that can be read. -/
theorem pubAt_isSome (hw : Indexed w) {s : String} (hs : s ∈ w.sets .active_pubs) : (pubAt w s).isSome := by
  obtain ⟨x, hx⟩ := Option.isSome_iff_exists.1 ((hw.active s).1 hs)
  obtain ⟨hact, -, t, ht, -⟩ := hw.pub s x hx
  rw [pubAt, World.fieldsAt, buildPublisherKey, hx]
  simp [readPublisher, hact, ht]

end Indexed

theorem run_readPublishers (w : World) (names : List String) :
    w.run (readPublishers names) = (names.filterMap (pubAt w), w) := by
  induction names with
  | nil => rfl
  | cons s names ih =>
    rw [readPublishers, run_bind, run_getPublisherTask, run_bind, ih]
    cases hs : pubAt w s with
    | none => simp [hs]
    | some t => simp [hs]

theorem run_getAllPublisherTasks (w : World) :
    w.run getAllPublisherTasks = ((w.sets .active_pubs).elems.filterMap (pubAt w), w) := by
  unfold getAllPublisherTasks
  rw [run_bind]
  exact run_readPublishers w _

/-- **The index of the active publishers is exact** in every state of a run whose registered tasks
have their times in the accepted range. -/
theorem active_publishers_exact (clock : ℤ) (cs : List Change)
    (h : ∀ c ∈ cs, c.Registers StreamTask.Readable) :
    let w := runs Change.step cs (World.initial clock)
    (∀ s, s ∈ w.sets buildActivePublishersKey ↔ (w.hashes (buildPublisherKey s)).isSome) ∧
    (∀ s x, w.hashes (buildPublisherKey s) = some x → x.fields .active = some "1" ∧
      ∃ t, deserializeTask x.fields = some t ∧ t.stream_name = s ∧ t.type = .PUBLISHER) ∧
    (w.run getActivePublisherCount).1 = (w.run getAllPublisherTasks).1.length := by
  have hw : Indexed (runs Change.step cs (World.initial clock)) :=
    Indexed.kept.runs h (Indexed.initial clock)
  refine ⟨hw.active, fun s x hx => ?_, ?_⟩
  · obtain ⟨hact, -, ht⟩ := hw.pub s x hx
    exact ⟨hact, ht⟩
  · rw [run_getAllPublisherTasks]
    refine (List.filterMap_length_eq_length.2 fun s hs => hw.pubAt_isSome hs).symm

/-- A publisher, a heartbeat, a batch for somebody else, and more than the time to live. -/
theorem active_publishers_exact_later :
    let w := runs Change.step [.op (.register (taskOf "a" .PUBLISHER start)), .op (.touch "live" "a"),
      .batch [⟨"live", "b", .PLAYER⟩], .op (.pass (start + 61 * second))] (World.initial start)
    "live" ∈ w.sets buildActivePublishersKey ∧
      (w.run getActivePublisherCount).1 = (w.run getAllPublisherTasks).1.length := by
  refine ⟨by decide +kernel, (active_publishers_exact start [.op (.register (taskOf "a" .PUBLISHER start)),
    .op (.touch "live" "a"), .batch [⟨"live", "b", .PLAYER⟩], .op (.pass (start + 61 * second))] ?_).2.2⟩
  intro c hc
  simp only [List.mem_cons, List.not_mem_nil, or_false] at hc
  obtain rfl | rfl | rfl | rfl := hc
  · exact (by decide : (taskOf "a" .PUBLISHER start).Readable)
  · trivial
  · trivial
  · trivial

/-! ### The players of a stream -/

/-- The pairs registered as players after a change. -/
def Change.players (w : World) (P : Finset (String × String)) : Change → Finset (String × String)
  | op o => o.players w P
  | batch tasks => P.filter fun p => ∀ id ∈ tasks, (id.streamName, id.clientId) ≠ p
  | tick _ => P

/-- A change together with the pairs. -/
def Change.count (c : Change) (x : World × Finset (String × String)) : World × Finset (String × String) :=
  (c.step x.1, c.players x.1 x.2)

/-- The listing of the stream `s` has one entry for each registered player, and the count is their
number. -/
def ListsPlayers (w : World) (P : Finset (String × String)) (s : String) : Prop :=
  (∀ c, ((w.run (getPlayerTasks s)).1.countP fun t => t.client_id = c) = if (s, c) ∈ P then 1 else 0) ∧
    (w.run (getPlayerCount s)).1 = (P.filter fun p => p.1 = s).card

/-- Nothing is ever in the set that the listing reads. -/
def NoPlayerSet (w : World) : Prop := ∀ s, w.sets (.players s) = .empty

theorem NoPlayerSet.kept : Kept (fun _ => True) NoPlayerSet where
  drop w id hw s := by
    obtain ⟨s', c, ty⟩ := id
    refine Eq.trans ?_ (hw s)
    cases ty <;>
      simp [dropTask, after, batchCmds, World.hincrby, World.setSet_apply, World.del_sets_apply,
        buildActivePublishersKey, buildPublisherKey, buildTaskKey, memberKey]
  stamp _ _ hw := hw
  clear _ _ hw s := (World.del_sets_of_ne _ _ _ (by simp [memberKey])).trans (hw s)
  put _ _ hw := hw
  publisher w t _ _ hw s := by
    refine Eq.trans ?_ (hw s)
    simp [indexPublisher, after, World.setSet_apply, buildActivePublishersKey, memberKey]
  player w t hw s := by
    refine Eq.trans ?_ (hw s)
    simp [indexPlayer, after, World.hincrby, World.setSet_apply, memberKey]
  touch _ _ _ hw := hw
  advance w t hw := by
    unfold Redis.advance
    split
    · exact hw
    · exact hw
  tick _ _ hw := hw

theorem NoPlayerSet.getPlayerTasks {w : World} (hw : NoPlayerSet w) (s : String) :
    (w.run (getPlayerTasks s)).1 = [] := by
  have h : w.run (setMembers (buildPlayerSetKey s)) = ([], w) := by
    show ((w.sets (.players s)).elems, w) = _
    rw [hw s]
    rfl
  unfold State.getPlayerTasks
  rw [run_bind, h]
  rfl

theorem NoPlayerSet.getPlayerCount {w : World} (hw : NoPlayerSet w) (s : String) :
    (w.run (getPlayerCount s)).1 = 0 := by
  show (w.sets (.players s)).elems.length = 0
  rw [hw s]
  rfl

/-- **The listing of a stream is right** exactly in the states in which the stream has no player. -/
theorem player_listing_iff (clock : ℤ) (cs : List Change) (s : String) :
    let x := runs Change.count cs (World.initial clock, ∅)
    ListsPlayers x.1 x.2 s ↔ ∀ c, (s, c) ∉ x.2 := by
  have hw : NoPlayerSet (runs Change.count cs (World.initial clock, ∅)).1 :=
    runs_inv (I := fun x : World × Finset (String × String) => NoPlayerSet x.1)
      (fun _ c hx => NoPlayerSet.kept.step c.registers_any hx) fun _ => rfl
  dsimp only
  unfold ListsPlayers
  rw [hw.getPlayerTasks, hw.getPlayerCount]
  constructor
  · rintro ⟨hone, -⟩ c hc
    have h := hone c
    rw [if_pos hc, List.countP_nil] at h
    exact absurd h (by decide)
  · intro hno
    refine ⟨fun c => ?_, ?_⟩
    · rw [if_neg (hno c), List.countP_nil]
    · rw [eq_comm, Finset.card_eq_zero, Finset.filter_eq_empty_iff]
      rintro ⟨s', c⟩ hp rfl
      exact hno c hp

/-- A publisher and one player. -/
def onePlayer : List Change :=
  [.op (.register (taskOf "a" .PUBLISHER start)), .op (.register (taskOf "b" .PLAYER start))]

/-- The player is registered, and the listing is empty. -/
theorem player_listing_empty :
    let x := runs Change.count onePlayer (World.initial start, ∅)
    ("live", "b") ∈ x.2 ∧ (x.1.run (getPlayerTasks "live")).1 = [] ∧ (x.1.run (getPlayerCount "live")).1 = 0 ∧
      ¬ ListsPlayers x.1 x.2 "live" := by
  have hmem : ("live", "b") ∈ (runs Change.count onePlayer (World.initial start, ∅)).2 := by decide +kernel
  have hnil : ((runs Change.count onePlayer (World.initial start, ∅)).1.run (getPlayerTasks "live")).1 = [] := by
    decide +kernel
  refine ⟨hmem, hnil, by decide +kernel, fun h => ?_⟩
  have := h.1 "b"
  rw [if_pos hmem, hnil] at this
  exact absurd this (by decide)

end StreamGate.Scheduler
