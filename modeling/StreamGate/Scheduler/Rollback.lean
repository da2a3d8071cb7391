import StreamGate.State.Failures
import StreamGate.Scheduler.Listings

/-!
# Failed registrations

A registration in which one Redis command fails.  Some failures it survives; after others it gives up
and undoes what it has done by deregistering the task.  That is the state from before only if nothing
was stored for the client: the removal of the old task of a client that registers again is not undone,
a player that is not entered yet is counted down all the same, and what was there under the names of
the task is deleted with it.  `rolled_back_iff` has, for every command of the call, the states in which
the store is as before.
-/

namespace StreamGate.Scheduler

open StreamGate.Redis StreamGate.Task StreamGate.Lib StreamGate.State

/-! ### Stores that runs reach -/

/-- The keys of hashes: those of tasks and of publishers. -/
inductive HashKey : Key → Prop
  | task (body : String) : HashKey (.task body)
  | pub (s : String) : HashKey (.pub s)

/-- The shape of a store that runs reach: the keys of hashes are nothing else, a publisher key is marked
active, and the counter is a number. -/
structure Tidy (w : World) : Prop where
  sets : ∀ k, HashKey k → w.sets k = .empty
  zsets : ∀ k, HashKey k → w.zsets k = .empty
  pubs : PubsKept w
  total : ∃ n, TotalIs w n

namespace Tidy

variable {w w' : World}

theorem of_hashes (hw : Tidy w) (hs : ∀ k, HashKey k → w'.sets k = w.sets k)
    (hz : ∀ k, HashKey k → w'.zsets k = w.zsets k) (hp : ∀ s, w'.hashes (.pub s) = w.hashes (.pub s))
    (ht : w'.hashes .global_players = w.hashes .global_players) : Tidy w' where
  sets k hk := (hs k hk).trans (hw.sets k hk)
  zsets k hk := (hz k hk).trans (hw.zsets k hk)
  pubs s x hx := hw.pubs s x (hp s ▸ hx)
  total := hw.total.imp fun _ h => h.congr ht

theorem dropTask (hw : Tidy w) (id : TaskIdentifier) : Tidy (dropTask id w) := by
  obtain ⟨s, c, ty⟩ := id
  refine ⟨fun k hk => ?_, fun k hk => ?_, hw.pubs.dropTask _, ?_⟩
  · have := hw.sets k hk
    cases hk <;> cases ty <;>
      simp [State.dropTask, after, batchCmds, World.hincrby, World.setSet_apply, World.del_sets_apply,
        buildActivePublishersKey, buildPublisherKey, buildTaskKey, memberKey, this]
  · have := hw.zsets k hk
    cases hk <;> cases ty <;>
      simp [State.dropTask, after, batchCmds, World.hincrby, World.del_zsets_apply, buildPublisherKey,
        buildTaskKey, this]
  · obtain ⟨n, hn⟩ := hw.total
    cases ty with
    | PUBLISHER => exact ⟨n, hn.congr (dropTask_global w s c _)⟩
    | PLAYER => exact ⟨_, (hn.hincrby (-1)).congr (dropTask_global w s c _)⟩

theorem indexPublisher (hw : Tidy w) (t : StreamTask) : Tidy (indexPublisher t w) := by
  refine ⟨fun k hk => ?_, fun k hk => hw.zsets k hk, hw.pubs.indexPublisher t,
    hw.total.imp fun _ h => h.congr (indexPublisher_global w t)⟩
  refine Eq.trans ?_ (hw.sets k hk)
  cases hk <;> simp [State.indexPublisher, after, World.setSet_apply, buildActivePublishersKey, memberKey]

theorem indexPlayer (hw : Tidy w) (t : StreamTask) : Tidy (indexPlayer t w) := by
  refine ⟨fun k hk => ?_, fun k hk => hw.zsets k hk, fun s x hx => hw.pubs s x (indexPlayer_pub w s t ▸ hx), ?_⟩
  · refine Eq.trans ?_ (hw.sets k hk)
    cases hk <;> simp [State.indexPlayer, after, World.hincrby, World.setSet_apply, memberKey]
  · obtain ⟨n, hn⟩ := hw.total
    exact ⟨_, (hn.hincrby 1).congr (indexPlayer_global w t)⟩

theorem advance (hw : Tidy w) (t : ℤ) : Tidy (advance t w) := by
  refine ⟨fun k hk => ?_, fun k hk => ?_, fun s x hx => hw.pubs s x (hw.pubs.advance_eq t s ▸ hx),
    hw.total.imp fun _ h => h.advance t⟩
  · unfold Redis.advance
    split
    · exact hw.sets k hk
    · exact hw.sets k hk
  · unfold Redis.advance
    split
    · exact hw.zsets k hk
    · exact hw.zsets k hk

theorem setZset (hw : Tidy w) (z : ZSet) : Tidy (w.setZset buildTaskTimestampZSetKey z) := by
  refine hw.of_hashes (fun _ _ => rfl) (fun k hk => World.setZset_of_ne _ _ _ z ?_) (fun _ => rfl) rfl
  cases hk <;> simp [buildTaskTimestampZSetKey]

theorem delMembers (hw : Tidy w) (s : String) : Tidy (w.del (memberKey s)) := by
  have hne : ∀ k, HashKey k → k ≠ memberKey s := by
    intro k hk
    cases hk <;> simp [memberKey]
  exact hw.of_hashes (fun k hk => World.del_sets_of_ne _ _ _ (hne k hk))
    (fun k hk => World.del_zsets_of_ne _ _ _ (hne k hk))
    (fun s' => World.del_hashes_of_ne _ _ _ (hne _ (.pub s'))) (World.del_hashes_of_ne _ _ _ (by simp [memberKey]))

theorem touch (hw : Tidy w) (s c : String) : Tidy (touch s c w) := by
  refine hw.of_hashes (fun _ _ => rfl) (fun k hk => World.setZset_of_ne _ _ _ _ ?_) (fun s' => touch_pub w s c s')
    (touch_global w s c)
  cases hk <;> simp [buildTaskTimestampZSetKey]

theorem kept : Kept (fun _ => True) Tidy where
  drop _ id hw := hw.dropTask id
  stamp _ z hw := hw.setZset z
  clear _ s hw := hw.delMembers s
  put w t hw := hw.of_hashes (fun _ _ => rfl) (fun _ _ => rfl) (fun s => putTask_pub w s t) (putTask_global w t)
  publisher _ t _ _ hw := hw.indexPublisher t
  player _ t hw := hw.indexPlayer t
  touch _ s c hw := hw.touch s c
  advance _ t hw := hw.advance t
  tick _ _ hw := hw.of_hashes (fun _ _ => rfl) (fun _ _ => rfl) (fun _ => rfl) rfl

theorem initial (clock : ℤ) : Tidy (World.initial clock) :=
  ⟨fun _ _ => rfl, fun _ _ => rfl, (fun _ _ h => by cases h), 0, rfl⟩

end Tidy

/-! ### What undoes a registration -/

section Undo

variable {w u : World} {t : StreamTask}

/-- The batch for a publisher undoes what was written under the names of the task, if nothing was there
before. -/
theorem dropTask_publisher_eq {s c : String} (hw : Tidy w) (hkey : w.hashes (buildTaskKey s c) = none)
    (hpub : w.hashes (buildPublisherKey s) = none)
    (hh : ∀ k, k ≠ buildTaskKey s c → k ≠ buildPublisherKey s → u.hashes k = w.hashes k)
    (hs : ∀ k, k ≠ memberKey s → k ≠ buildActivePublishersKey → u.sets k = w.sets k)
    (hm : (u.sets (memberKey s)).rem c = w.sets (memberKey s))
    (ha : (u.sets buildActivePublishersKey).rem s = w.sets buildActivePublishersKey)
    (hz : u.zsets = w.zsets) (hc : u.clock = w.clock) : dropTask ⟨s, c, .PUBLISHER⟩ u = w := by
  have htask : w.sets (buildTaskKey s c) = .empty := hw.sets _ (.task _)
  have hset : w.sets (buildPublisherKey s) = .empty := hw.sets _ (.pub _)
  have hztask : w.zsets (buildTaskKey s c) = .empty := hw.zsets _ (.task _)
  have hzpub : w.zsets (buildPublisherKey s) = .empty := hw.zsets _ (.pub _)
  refine World.ext (fun k => ?_) (fun k => ?_) (fun k => ?_) ((dropTask_clock u _).trans hc)
  · by_cases h1 : k = buildPublisherKey s
    · simp [dropTask, after, batchCmds, World.del_hashes_apply, h1, hpub]
    · by_cases h2 : k = buildTaskKey s c
      · simp [dropTask, after, batchCmds, World.del_hashes_apply, h2, hkey]
      · simp [dropTask, after, batchCmds, World.del_hashes_apply, h1, h2, hh k h2 h1]
  · by_cases h1 : k = buildActivePublishersKey
    · rw [h1, ← ha]
      exact (dropTask_active u s c .PUBLISHER).trans (if_pos rfl)
    · by_cases h2 : k = memberKey s
      · rw [h2, ← hm]
        exact (dropTask_members u s c s .PUBLISHER).trans (if_pos rfl)
      · simp only [dropTask, after, batchCmds, List.foldl_cons, List.foldl_nil, List.cons_append,
          List.nil_append, after_del, after_srem, World.setSet_apply, World.del_sets_apply, if_neg h1, if_neg h2]
        split
        · rename_i h; rw [h, hset]
        · split
          · rename_i h; rw [h, htask]
          · exact hs k h2 h1
  · simp only [dropTask, after, batchCmds, List.foldl_cons, List.foldl_nil, List.cons_append, List.nil_append,
      after_del, after_srem, World.setSet_zsets, World.del_zsets_apply]
    split
    · rename_i h; rw [h, hzpub]
    · split
      · rename_i h; rw [h, hztask]
      · rw [hz]

/-- The batch for a player does so as well, if the counter goes back to where it was. -/
theorem dropTask_player_eq {s c : String} (hw : Tidy w) (hkey : w.hashes (buildTaskKey s c) = none)
    (hh : ∀ k, k ≠ buildTaskKey s c → k ≠ buildGlobalPlayerCountKey → u.hashes k = w.hashes k)
    (ht : (u.hincrby buildGlobalPlayerCountKey .total (-1)).hashes buildGlobalPlayerCountKey =
      w.hashes buildGlobalPlayerCountKey)
    (hs : ∀ k, k ≠ memberKey s → u.sets k = w.sets k) (hm : (u.sets (memberKey s)).rem c = w.sets (memberKey s))
    (hz : u.zsets = w.zsets) (hc : u.clock = w.clock) : dropTask ⟨s, c, .PLAYER⟩ u = w := by
  have htask : w.sets (buildTaskKey s c) = .empty := hw.sets _ (.task _)
  have hztask : w.zsets (buildTaskKey s c) = .empty := hw.zsets _ (.task _)
  refine World.ext (fun k => ?_) (fun k => ?_) (fun k => ?_) ((dropTask_clock u _).trans hc)
  · by_cases h1 : k = buildGlobalPlayerCountKey
    · rw [h1, ← ht]
      exact (dropTask_global u s c .PLAYER).trans (if_pos rfl)
    · simp only [dropTask, after, batchCmds, List.foldl_cons, List.foldl_nil, List.cons_append,
        List.nil_append, after_hincrby, World.hincrby, World.hset_apply, if_neg h1, after_del, after_srem,
        World.setSet_hashes, World.del_hashes_apply]
      split
      · rename_i h; rw [h, hkey]
      · rename_i h; exact hh k h h1
  · by_cases h2 : k = memberKey s
    · rw [h2, ← hm]
      exact (dropTask_members u s c s .PLAYER).trans (if_pos rfl)
    · simp only [dropTask, after, batchCmds, List.foldl_cons, List.foldl_nil, List.cons_append,
        List.nil_append, after_hincrby, World.hincrby, World.hset_sets, after_del, after_srem,
        World.setSet_apply, World.del_sets_apply, if_neg h2]
      split
      · rename_i h; rw [h, htask]
      · exact hs k h2
  · simp only [dropTask, after, batchCmds, List.foldl_cons, List.foldl_nil, List.cons_append, List.nil_append,
      after_hincrby, World.hincrby, World.hset_zsets, after_del, after_srem, World.setSet_zsets,
      World.del_zsets_apply]
    split
    · rename_i h; rw [h, hztask]
    · rw [hz]

end Undo

/-! ### One failing command -/

/-- Only the `n`-th command fails. -/
def only (n : ℕ) : ℕ → Bool := fun i => decide (i = n)

@[simp] theorem only_self (n : ℕ) : only n n = true := decide_eq_true rfl

theorem only_of_ne {n i : ℕ} (h : i ≠ n) : only n i = false := decide_eq_false h

theorem only_later (n k : ℕ) : (fun i => only (n + k) (i + k)) = only n := by
  funext i
  simp [only]

theorem only_past (n k : ℕ) (h : n < k) : (fun i => only n (i + k)) = fun _ => false := by
  funext i
  exact only_of_ne (by omega)

theorem runWith_past {α : Type} (w : World) {n k : ℕ} (h : n < k) (p : RProg α) :
    w.runWith (fun i => only n (i + k)) p = w.run p := by
  rw [only_past n k h]
  exact Prog.runWith_none handle p w

/-- A call in which the `n`-th command fails returns `false` only with the store as it was. -/
def RolledBack (w : World) (t : StreamTask) (n : ℕ) : Prop :=
  (w.runWith (only n) (registerTask t)).1 = false → (w.runWith (only n) (registerTask t)).2 = w

/-- The stream has another publisher. -/
def denied (w : World) (t : StreamTask) : Bool :=
  t.type = .PUBLISHER && (pubAt w t.stream_name).any fun p => p.client_id ≠ t.client_id

/-- The client registers again: it is the publisher of the stream, or has a task as a player. -/
def again (w : World) (t : StreamTask) : Bool :=
  if t.type = .PUBLISHER then (pubAt w t.stream_name).any fun p => p.client_id = t.client_id
  else w.hasKey t.key

/-- The number of commands before the hash is written: the check, and the two commands that remove an
old task. -/
def lead (w : World) (t : StreamTask) : ℕ := if again w t then 3 else 1

/-- Nothing is stored under the names of the task, and for a player there is a counter. -/
structure Unstored (w : World) (t : StreamTask) : Prop where
  key : w.hashes t.key = none
  member : ¬ t.client_id ∈ w.sets (memberKey t.stream_name)
  pub : t.type = .PUBLISHER →
    w.hashes (buildPublisherKey t.stream_name) = none ∧ ¬ t.stream_name ∈ w.sets buildActivePublishersKey
  total : t.type = .PLAYER → w.hashes buildGlobalPlayerCountKey ≠ none

/-- A registration whose commands succeed from here on ends well: the clock is in range, or the rollback
finds the task and nothing else. -/
def EndsWell (w : World) (t : StreamTask) : Prop :=
  Reasonable (ms w.clock) ∨ (t.Readable ∧ Unstored w t)

/-- When the store is as before although a command fails, counted from the one that writes the hash:
`HSET`, `EXPIRE`, the second check of a publisher or the `SADD` of a player, the pipeline of a publisher
or the counter of a player, and `ZADD`. -/
def RestoresFrom (w : World) (t : StreamTask) : ℕ → Prop
  | 0 => again w t → taskAt w t.key = none ∧ (w.zsets buildTaskTimestampZSetKey).score t.key = none
  | 1 => w.hashes t.key = none ∧ (again w t → (w.zsets buildTaskTimestampZSetKey).score t.key = none)
  | 2 => t.type = .PUBLISHER ∧ EndsWell w t
  | 3 => if t.type = .PUBLISHER then t.Readable ∧ Unstored w t else Reasonable (ms w.clock)
  | 4 => Reasonable (ms w.clock) ∧ t.Readable ∧ Unstored w t
  | 5 => Reasonable (ms w.clock)
  | _ + 6 => EndsWell w t

/-- When the store is as before although the `n`-th command fails. -/
def Restores (w : World) (t : StreamTask) (n : ℕ) : Prop :=
  if denied w t then n ≠ 0 else if n < lead w t then EndsWell w t else RestoresFrom w t (n - lead w t)

/-! ### Where the call ends -/

section Ends

variable (u v w : World) (t : StreamTask)

/-- The indices of a task. -/
def entered (t : StreamTask) (w : World) : World :=
  if t.type = .PUBLISHER then indexPublisher t w else indexPlayer t w

/-- The second check lets the publisher through. -/
def Passes (v : World) (t : StreamTask) : Prop :=
  t.type = .PUBLISHER → ¬ (taskAt v (buildPublisherKey t.stream_name)).any fun p => p.client_id ≠ t.client_id

theorem end_registerTimestamp (j : ℕ) : (u.runWith (only j) (registerTimestamp t)).1 =
      (decide (Reasonable (ms u.clock)) && decide (j ≠ 0)) ∧
    (¬ (Reasonable (ms u.clock) ∧ j ≠ 0) → (u.runWith (only j) (registerTimestamp t)).2 =
      if Reasonable (ms u.clock) then forget t.stream_name t.client_id u
      else forgetWith (only j) t.stream_name t.client_id u) := by
  rw [runWith_registerTimestamp]
  by_cases hclock : Reasonable (ms u.clock)
  · rw [if_pos hclock, if_pos hclock]
    by_cases hj : j = 0
    · subst hj
      rw [only_self, if_pos rfl, runWith_past u (by decide), run_rollBack]
      simp
    · rw [only_of_ne (Ne.symm hj), if_neg Bool.false_ne_true]
      simp [hclock, hj]
  · rw [if_neg hclock, if_neg hclock, runWith_rollBack]
    simp [hclock]

theorem run_registerHash_entered (hpass : Passes v t) :
    v.run (registerHash t) = finish t (entered t (putTask t v)) := by
  rw [run_registerHash]
  unfold place entered
  by_cases hp : t.type = .PUBLISHER
  · rw [if_pos hp, if_pos hp, if_neg]
    rw [buildPublisherKey, taskAt_congr (putTask_pub v _ t)]
    exact hpass hp
  · rw [if_neg hp, if_neg hp]

theorem end_registerHash_zero : v.runWith (only 0) (registerHash t) = (false, v) := by
  rw [runWith_registerHash]
  rfl

theorem end_registerHash_one :
    v.runWith (only 1) (registerHash t) = (false, (v.hset t.key (serializeTask t)).del t.key) := by
  rw [runWith_registerHash]
  rfl

theorem end_registerHash_later (m : ℕ) : v.runWith (only (m + 2)) (registerHash t) =
    (putTask t v).runWith (only m) (registerIndices t) := by
  rw [runWith_registerHash, only_of_ne (by omega), if_neg Bool.false_ne_true, only_of_ne (by omega),
    if_neg Bool.false_ne_true, only_later]

theorem end_check (hp : t.type = .PUBLISHER) :
    u.runWith (only 0) (registerIndices t) = finish t (indexPublisher t u) := by
  rw [runWith_registerIndices_publisher u t _ hp, only_self, if_neg fun h => Bool.noConfusion h.1,
    only_of_ne (by omega), if_neg Bool.false_ne_true, runWith_past _ (by omega), run_registerTimestamp]

theorem end_pipeline (hp : t.type = .PUBLISHER)
    (hpass : ¬ (taskAt u (buildPublisherKey t.stream_name)).any fun p => p.client_id ≠ t.client_id) :
    u.runWith (only 1) (registerIndices t) = (false, forget t.stream_name t.client_id u) := by
  rw [runWith_registerIndices_publisher u t _ hp, if_neg fun h => hpass h.2, only_self, if_pos rfl,
    runWith_past _ (by omega), run_rollBack]

theorem end_setAdd (hp : t.type = .PLAYER) :
    u.runWith (only 0) (registerIndices t) = (false, forget t.stream_name t.client_id u) := by
  rw [runWith_registerIndices_player u t _ hp, only_self, if_pos rfl, runWith_past _ (by omega), run_rollBack]

theorem end_count (hp : t.type = .PLAYER) :
    u.runWith (only 1) (registerIndices t) = finish t (enlist t u) := by
  rw [runWith_registerIndices_player u t _ hp, only_of_ne (by omega), if_neg Bool.false_ne_true, only_self,
    if_pos rfl, runWith_past _ (by omega), run_registerTimestamp]

theorem end_later (j : ℕ) (hpass : Passes u t) :
    u.runWith (only (j + 2)) (registerIndices t) = (entered t u).runWith (only j) (registerTimestamp t) := by
  unfold entered
  cases hp : t.type with
  | PUBLISHER =>
    rw [runWith_registerIndices_publisher u t _ hp, if_neg fun h => hpass hp h.2, only_of_ne (by omega),
      if_neg Bool.false_ne_true, only_later, if_pos rfl]
  | PLAYER =>
    rw [runWith_registerIndices_player u t _ hp, only_of_ne (by omega), if_neg Bool.false_ne_true,
      only_of_ne (by omega), if_neg Bool.false_ne_true, only_later, if_neg (by decide)]

end Ends

/-! ### What is undone -/

section Undone

variable {u v w : World} {t : StreamTask}

/-- A rollback that can read the task drops it. -/
theorem forget_own (hr : t.Readable) (hu : taskAt u t.key = if t.Readable then some t.stored else none) :
    forget t.stream_name t.client_id u = dropTask ⟨t.stream_name, t.client_id, t.type⟩ u := by
  have hown : taskAt u (buildTaskKey t.stream_name t.client_id) = some t.stored := hu.trans (if_pos hr)
  unfold forget
  rw [hown]
  rfl

theorem taskAt_entered : taskAt (entered t (putTask t v)) t.key = if t.Readable then some t.stored else none := by
  refine Eq.trans ?_ (taskAt_putTask_self (w := v))
  unfold entered
  split
  · exact taskAt_congr (indexPublisher_task _ _ t)
  · exact taskAt_congr (indexPlayer_task _ _ t)

theorem entered_clock : (entered t (putTask t v)).clock = v.clock := by
  unfold entered
  split
  · rfl
  · rfl

theorem putTask_hashes_of_ne {k : Key} (h : k ≠ t.key) : (putTask t w).hashes k = w.hashes k := by
  rw [putTask, World.expire_of_ne _ _ _ _ h, World.hset_of_ne _ _ _ _ h]

/-- The rollback before the publisher keys are written. -/
theorem undo_put (hw : Tidy w) (hp : t.type = .PUBLISHER) (hr : t.Readable) (h : Unstored w t) :
    forget t.stream_name t.client_id (putTask t w) = w := by
  obtain ⟨hpub, hact⟩ := h.pub hp
  rw [forget_own hr taskAt_putTask_self, hp]
  exact dropTask_publisher_eq hw h.key hpub (fun k hk _ => putTask_hashes_of_ne hk) (fun _ _ _ => rfl)
    (RSet.rem_of_not_mem h.member) (RSet.rem_of_not_mem hact) rfl rfl

/-- The rollback after all indices are written. -/
theorem undo_entered (hw : Tidy w) (hr : t.Readable) (h : Unstored w t) :
    forget t.stream_name t.client_id (entered t (putTask t w)) = w := by
  rw [forget_own hr taskAt_entered]
  unfold entered
  cases hp : t.type with
  | PUBLISHER =>
    obtain ⟨hpub, hact⟩ := h.pub hp
    rw [if_pos rfl]
    refine dropTask_publisher_eq hw h.key hpub (fun k h1 h2 => ?_) (fun k h1 h2 => ?_) ?_ ?_ rfl rfl
    · exact (World.hset_of_ne (putTask t w) _ _ _ h2).trans (putTask_hashes_of_ne h1)
    · simp only [indexPublisher, after, List.foldl_cons, List.foldl_nil, after_sadd, after_hset,
        World.setSet_apply, if_neg h1, if_neg h2, World.hset_sets, putTask_sets]
    · rw [memberKey, indexPublisher_members, if_pos rfl]
      exact RSet.rem_add h.member
    · rw [buildActivePublishersKey, indexPublisher_active]
      exact RSet.rem_add hact
  | PLAYER =>
    obtain ⟨x, hx⟩ := Option.ne_none_iff_exists'.1 (h.total hp)
    obtain ⟨n, hn⟩ := hw.total
    rw [if_neg (by decide)]
    refine dropTask_player_eq hw h.key (fun k h1 h2 => ?_) ?_ (fun k h1 => ?_) ?_ rfl rfl
    · simp only [indexPlayer, after, List.foldl_cons, List.foldl_nil, after_sadd, after_hincrby, World.hincrby,
        World.hset_apply, if_neg h2, World.setSet_hashes]
      exact putTask_hashes_of_ne h1
    · have hput : (indexPlayer t (putTask t w)).hashes buildGlobalPlayerCountKey =
          (w.hincrby buildGlobalPlayerCountKey .total 1).hashes buildGlobalPlayerCountKey :=
        (indexPlayer_global _ t).trans (hincrby_congr (putTask_global w t) _ _)
      rw [hincrby_congr hput, hx]
      exact hn.back hx 1
    · simp only [indexPlayer, after, List.foldl_cons, List.foldl_nil, after_sadd, after_hincrby, World.hincrby,
        World.hset_sets, World.setSet_apply, if_neg h1, putTask_sets]
    · rw [memberKey, indexPlayer_members, if_pos rfl]
      exact RSet.rem_add h.member

/-- Nothing is stored for a client that registers again. -/
theorem Unstored.not_again (hw : Tidy w) (h : Unstored w t) : again w t = false := by
  unfold again
  cases hp : t.type with
  | PUBLISHER =>
    rw [if_pos rfl, pubAt_of_none (h.pub hp).1]
    rfl
  | PLAYER =>
    have hs : w.sets t.key = .empty := hw.sets _ (.task _)
    have hz : w.zsets t.key = .empty := hw.zsets _ (.task _)
    rw [if_neg (by decide), World.hasKey, h.key, hs, hz]
    rfl

theorem unstamp_eq {s c : String} (h : (w.zsets buildTaskTimestampZSetKey).score (buildTaskKey s c) = none) :
    unstamp s c w = w := by
  unfold unstamp
  rw [ZSet.rem_of_score_none h]
  refine World.ext (fun _ => rfl) (fun _ => rfl) (fun k => ?_) rfl
  rw [World.setZset_apply]
  split
  · rename_i hk; rw [hk]
  · rfl

theorem forget_of_none {s c : String} (h : taskAt w (buildTaskKey s c) = none) : forget s c w = unstamp s c w := by
  unfold forget
  rw [h]
  rfl

/-- The hash written and deleted again. -/
theorem hset_del_eq (hw : Tidy w) (hkey : w.hashes t.key = none) :
    (w.hset t.key (serializeTask t)).del t.key = w := by
  refine World.ext (fun k => ?_) (fun k => ?_) (fun k => ?_) rfl
  · rw [World.del_hashes_apply]
    split
    · rename_i h; rw [h, hkey]
    · rename_i h; exact World.hset_of_ne _ _ _ _ h
  · rw [World.del_sets_apply]
    split
    · rename_i h; rw [h, hw.sets t.key (.task _)]
    · rfl
  · rw [World.del_zsets_apply]
    split
    · rename_i h; rw [h, hw.zsets t.key (.task _)]
    · rfl

end Undone

/-! ### The call -/

section Call

variable {v w : World} {t : StreamTask}

/-- The store when the hash is written. -/
def ready (w : World) (t : StreamTask) : World :=
  if again w t then forget t.stream_name t.client_id w else w

theorem ready_clock : (ready w t).clock = w.clock := by
  unfold ready
  split
  · exact forget_clock w _ _
  · rfl

/-- A call that is not refused at once. -/
theorem runWith_not_denied (h : denied w t = false) (fails : ℕ → Bool) : w.runWith fails (registerTask t) =
    if fails 0 = false ∧ again w t then
      (forgetWith (fun i => fails (i + 1)) t.stream_name t.client_id w).runWith (fun i => fails (i + 3))
        (registerHash t)
    else w.runWith (fun i => fails (i + 1)) (registerHash t) := by
  unfold denied at h
  unfold again
  cases hp : t.type with
  | PLAYER =>
    rw [runWith_registerTask_player w t fails hp]
    simp
  | PUBLISHER =>
    rw [runWith_registerTask_publisher w t fails hp, if_pos rfl]
    rw [hp, decide_eq_true rfl, Bool.true_and] at h
    cases h0 : fails 0 with
    | true => simp
    | false =>
      cases hheld : pubAt w t.stream_name with
      | none => simp
      | some p =>
        rw [hheld, Option.any_some, decide_eq_false_iff_not, not_not] at h
        simp [h]

theorem passes_of_pub (hw : Tidy w) (h : denied w t = false)
    (hv : v.hashes (.pub t.stream_name) = none ∨ v.hashes (.pub t.stream_name) = w.hashes (.pub t.stream_name)) :
    Passes v t := by
  intro hp hany
  rcases hv with hv | hv
  · rw [buildPublisherKey, taskAt_of_none hv] at hany
    cases hany
  · have hread : taskAt v (buildPublisherKey t.stream_name) = pubAt w t.stream_name :=
      (taskAt_congr hv).trans (taskAt_pub hw.pubs _)
    rw [hread] at hany
    unfold denied at h
    rw [hp, decide_eq_true rfl, Bool.true_and] at h
    exact Bool.false_ne_true (h.symm.trans hany)

theorem passes_ready (hw : Tidy w) (h : denied w t = false) : Passes (ready w t) t := by
  apply passes_of_pub hw h
  unfold ready
  split
  · exact forget_pub_eq_or_none w _ _ _
  · exact .inr rfl

theorem passes_putTask (h : Passes v t) : Passes (putTask t v) t := by
  intro hp
  rw [buildPublisherKey, taskAt_congr (putTask_pub v _ t)]
  exact h hp

/-- The failure comes before the hash is written. -/
theorem call_lead (hw : Tidy w) (h : denied w t = false) {n : ℕ} (hn : n < lead w t) :
    ∃ v, Passes v t ∧ v.clock = w.clock ∧ (again w t = false → v = w) ∧
      w.runWith (only n) (registerTask t) = v.run (registerHash t) := by
  have hself : Passes w t := passes_of_pub hw h (.inr rfl)
  rw [runWith_not_denied h]
  unfold lead at hn
  by_cases hagain : again w t = true
  · rw [if_pos hagain] at hn
    obtain rfl | rfl | rfl : n = 0 ∨ n = 1 ∨ n = 2 := by omega
    · refine ⟨w, hself, rfl, fun _ => rfl, ?_⟩
      rw [only_self, if_neg fun h => Bool.noConfusion h.1, runWith_past _ (by omega)]
    · refine ⟨unstamp t.stream_name t.client_id w, passes_of_pub hw h (.inr rfl), rfl,
        fun hno => absurd hagain (by rw [hno]; decide), ?_⟩
      rw [if_pos ⟨only_of_ne (by omega), hagain⟩, runWith_past _ (by omega)]
      rfl
    · refine ⟨w, hself, rfl, fun _ => rfl, ?_⟩
      rw [if_pos ⟨only_of_ne (by omega), hagain⟩, runWith_past _ (by omega)]
      rfl
  · rw [if_neg hagain] at hn
    obtain rfl : n = 0 := by omega
    refine ⟨w, hself, rfl, fun _ => rfl, ?_⟩
    rw [if_neg fun h => hagain h.2, runWith_past _ (by omega)]

/-- The failure comes when or after the hash is written. -/
theorem call_from (h : denied w t = false) (m : ℕ) : w.runWith (only (m + lead w t)) (registerTask t) =
    (ready w t).runWith (only m) (registerHash t) := by
  rw [runWith_not_denied h]
  unfold lead ready
  by_cases hagain : again w t = true
  · rw [if_pos hagain, if_pos hagain, if_pos ⟨only_of_ne (by omega), hagain⟩, only_later]
    have hall : forgetWith (fun i => only (m + 3) (i + 1)) t.stream_name t.client_id w =
        forget t.stream_name t.client_id w := by
      have h0 : only (m + 3) 1 = false := only_of_ne (by omega)
      have h1 : only (m + 3) 2 = false := only_of_ne (by omega)
      unfold forgetWith
      simp only [h0, h1, Bool.false_eq_true, if_false]
    rw [hall]
  · rw [if_neg hagain, if_neg hagain, if_neg fun h => hagain h.2, only_later]

/-- The end of a call without a further failure. -/
theorem endsWell_finish (hw : Tidy w) (h : EndsWell w t) (hclock : v.clock = w.clock)
    (hv : again w t = false → v = w) (hfalse : (finish t (entered t (putTask t v))).1 = false) :
    (finish t (entered t (putTask t v))).2 = w := by
  unfold finish at hfalse ⊢
  rw [entered_clock, hclock] at hfalse ⊢
  by_cases hr : Reasonable (ms w.clock)
  · rw [if_pos hr] at hfalse
    cases hfalse
  · rw [if_neg hr]
    obtain ⟨hread, hun⟩ := h.resolve_left hr
    rw [hv (hun.not_again hw)]
    exact undo_entered hw hread hun

theorem ready_eq (h : again w t = false) : ready w t = w := if_neg (by rw [h]; exact Bool.false_ne_true)

/-- The removal of the old task found nothing. -/
theorem ready_eq_of_none
    (h : again w t → taskAt w t.key = none ∧ (w.zsets buildTaskTimestampZSetKey).score t.key = none) :
    ready w t = w := by
  by_cases hagain : again w t = true
  · obtain ⟨htask, hstamp⟩ := h hagain
    rw [ready, if_pos hagain, forget_of_none htask]
    exact unstamp_eq hstamp
  · exact ready_eq (Bool.not_eq_true _ ▸ hagain)

/-- The commands after the indices: either the call returns `true`, or it rolls everything back. -/
theorem restores_later (hw : Tidy w) (hpass : Passes (ready w t) t) {j : ℕ}
    (hrange : j = 0 ∨ j = 1 → Reasonable (ms w.clock))
    (hun : ¬ (Reasonable (ms w.clock) ∧ j ≠ 0) → t.Readable ∧ Unstored w t)
    (hfalse : ((ready w t).runWith (only (j + 4)) (registerHash t)).1 = false) :
    ((ready w t).runWith (only (j + 4)) (registerHash t)).2 = w := by
  rw [end_registerHash_later, end_later _ _ _ (passes_putTask hpass)] at hfalse ⊢
  obtain ⟨hres, hst⟩ := end_registerTimestamp (entered t (putTask t (ready w t))) t j
  rw [entered_clock, ready_clock] at hres hst
  have hgives : ¬ (Reasonable (ms w.clock) ∧ j ≠ 0) := by
    rintro ⟨hr, hj⟩
    rw [hres, decide_eq_true hr, decide_eq_true hj] at hfalse
    cases hfalse
  obtain ⟨hread, hu⟩ := hun hgives
  rw [hst hgives, ready_eq (hu.not_again hw)]
  by_cases hr : Reasonable (ms w.clock)
  · rw [if_pos hr]
    exact undo_entered hw hread hu
  · have h0 : only j 0 = false := only_of_ne fun h => hr (hrange (.inl h.symm))
    have h1 : only j 1 = false := only_of_ne fun h => hr (hrange (.inr h.symm))
    rw [if_neg hr, forgetWith, h0, h1, if_neg Bool.false_ne_true, if_neg Bool.false_ne_true]
    exact undo_entered hw hread hu

/-- The two commands that write the indices. -/
theorem restores_check (hw : Tidy w) (hp : t.type = .PUBLISHER) (h : EndsWell w t)
    (hfalse : ((ready w t).runWith (only 2) (registerHash t)).1 = false) :
    ((ready w t).runWith (only 2) (registerHash t)).2 = w := by
  have hentered : indexPublisher t (putTask t (ready w t)) = entered t (putTask t (ready w t)) :=
    (if_pos hp).symm
  rw [end_registerHash_later, end_check _ _ hp, hentered] at hfalse ⊢
  exact endsWell_finish hw h ready_clock ready_eq hfalse

theorem type_of_ne_publisher (hp : ¬ t.type = .PUBLISHER) : t.type = .PLAYER := by
  cases ht : t.type with
  | PUBLISHER => exact absurd ht hp
  | PLAYER => rfl

theorem restores_index (hw : Tidy w) (hpass : Passes (ready w t) t)
    (h : if t.type = .PUBLISHER then t.Readable ∧ Unstored w t else Reasonable (ms w.clock))
    (hfalse : ((ready w t).runWith (only 3) (registerHash t)).1 = false) :
    ((ready w t).runWith (only 3) (registerHash t)).2 = w := by
  rw [end_registerHash_later] at hfalse ⊢
  by_cases hp : t.type = .PUBLISHER
  · rw [if_pos hp] at h
    rw [end_pipeline _ _ hp (passes_putTask hpass hp), ready_eq (h.2.not_again hw)]
    exact undo_put hw hp h.1 h.2
  · rw [if_neg hp] at h
    have hclock : (enlist t (putTask t (ready w t))).clock = w.clock := ready_clock
    rw [end_count _ _ (type_of_ne_publisher hp), finish, hclock, if_pos h] at hfalse
    cases hfalse

/-- A failure from the hash on, in a state in which the call restores the store. -/
theorem restores_from (hw : Tidy w) (hpass : Passes (ready w t) t) {m : ℕ} (h : RestoresFrom w t m)
    (hfalse : ((ready w t).runWith (only m) (registerHash t)).1 = false) :
    ((ready w t).runWith (only m) (registerHash t)).2 = w := by
  match m with
  | 0 =>
    rw [end_registerHash_zero]
    exact ready_eq_of_none h
  | 1 =>
    rw [end_registerHash_one, ready_eq_of_none fun hagain => ⟨taskAt_of_none h.1, h.2 hagain⟩]
    exact hset_del_eq hw h.1
  | 2 => exact restores_check hw h.1 h.2 hfalse
  | 3 => exact restores_index hw hpass h hfalse
  | 4 => exact restores_later hw hpass (fun _ => h.1) (fun _ => h.2) hfalse
  | 5 =>
    have h : Reasonable (ms w.clock) := h
    exact restores_later hw hpass (fun _ => h) (fun hno => absurd ⟨h, by decide⟩ hno) hfalse
  | j + 6 =>
    have h : EndsWell w t := h
    refine restores_later (j := j + 2) hw hpass (fun hj => ?_) (fun hno => ?_) hfalse
    · omega
    · exact h.resolve_left fun hr => hno ⟨hr, by omega⟩

/-- **The condition is enough.** -/
theorem rolledBack_of_restores (hw : Tidy w) {n : ℕ} (h : Restores w t n) : RolledBack w t n := by
  intro hfalse
  unfold Restores at h
  by_cases hden : denied w t = true
  · rw [if_pos hden] at h
    unfold denied at hden
    rw [Bool.and_eq_true, decide_eq_true_eq] at hden
    obtain ⟨p, hheld, hne⟩ := (Option.any_eq_true _ _).1 hden.2
    have hcall : w.runWith (only n) (registerTask t) = (false, w) := by
      rw [runWith_registerTask_publisher w t _ hden.1, only_of_ne h.symm, if_neg Bool.false_ne_true, hheld,
        Option.elim_some, if_pos (of_decide_eq_true hne)]
    rw [hcall]
  · rw [if_neg hden] at h
    have hden : denied w t = false := Bool.not_eq_true _ ▸ hden
    by_cases hn : n < lead w t
    · rw [if_pos hn] at h
      obtain ⟨v, hpass, hclock, hv, hcall⟩ := call_lead hw hden hn
      rw [hcall, run_registerHash_entered v t hpass] at hfalse ⊢
      exact endsWell_finish hw h hclock hv hfalse
    · rw [if_neg hn] at h
      obtain ⟨m, rfl⟩ : ∃ m, n = m + lead w t := ⟨n - lead w t, by omega⟩
      rw [Nat.add_sub_cancel] at h
      rw [call_from hden] at hfalse ⊢
      exact restores_from hw (passes_ready hw hden) h hfalse

/-! ### The condition is needed -/

/-- A batch leaves nothing under the names of the task. -/
theorem unstored_of_drop {u : World} (h : dropTask ⟨t.stream_name, t.client_id, t.type⟩ u = w) : Unstored w t := by
  subst h
  refine ⟨(dropTask_task u _ _ _ _).trans (if_pos rfl), fun hm => ?_, fun hp => ⟨?_, fun hs => ?_⟩, fun hp => ?_⟩
  · rw [memberKey, dropTask_members, if_pos rfl, RSet.mem_rem] at hm
    exact hm.2 rfl
  · exact (dropTask_pub u _ _ _ _).trans (if_pos ⟨hp, rfl⟩)
  · rw [buildActivePublishersKey, dropTask_active, if_pos hp, RSet.mem_rem] at hs
    exact hs.2 rfl
  · rw [buildGlobalPlayerCountKey, dropTask_global, if_pos hp, World.hincrby, World.hset_self]
    exact Option.some_ne_none _

/-- A player that is counted down without having been counted. -/
theorem dropTask_player_ne (hw : Tidy w) (hp : t.type = .PLAYER) :
    dropTask ⟨t.stream_name, t.client_id, t.type⟩ (putTask t w) ≠ w := by
  intro h
  obtain ⟨n, hn⟩ := hw.total
  have hdown : w.hashes buildGlobalPlayerCountKey =
      (w.hincrby buildGlobalPlayerCountKey .total (-1)).hashes buildGlobalPlayerCountKey := by
    refine Eq.trans ?_ (hincrby_congr (putTask_global w t) _ _)
    have hglobal := dropTask_global (putTask t w) t.stream_name t.client_id t.type
    rw [h, if_pos hp] at hglobal
    exact hglobal
  have := hn.unique ((hn.hincrby (-1)).congr hdown)
  omega

/-- A denied publisher whose first check fails takes the other one down. -/
theorem denied_not_rolledBack (hr : t.Readable) (h : denied w t = true) : ¬ RolledBack w t 0 := by
  unfold denied at h
  rw [Bool.and_eq_true, decide_eq_true_eq] at h
  obtain ⟨hp, hany⟩ := h
  obtain ⟨p, hheld, hne⟩ := (Option.any_eq_true _ _).1 hany
  obtain ⟨x, hx, hact, hd⟩ := pubAt_eq_some hheld
  have hcheck : (taskAt (putTask t w) (buildPublisherKey t.stream_name)).any fun p => p.client_id ≠ t.client_id := by
    have hread : taskAt w (.pub t.stream_name) = some p := by
      rw [taskAt, World.fieldsAt, hx]
      exact hd
    rw [buildPublisherKey, taskAt_congr (putTask_pub w _ t), hread, Option.any_some]
    exact hne
  have hcall : w.runWith (only 0) (registerTask t) =
      (false, dropTask ⟨t.stream_name, t.client_id, t.type⟩ (putTask t w)) := by
    rw [runWith_registerTask_publisher w t _ hp, only_self, if_pos rfl, Option.elim_none,
      runWith_past w (by omega), run_registerHash, place, if_pos hp, if_pos hcheck,
      forget_own hr taskAt_putTask_self]
  intro hback
  unfold RolledBack at hback
  rw [hcall] at hback
  have hnone := ((unstored_of_drop (hback rfl)).pub hp).1
  exact absurd (hnone.symm.trans hx) (Option.some_ne_none x).symm

/-- With the task and the clock in range the condition is needed from the hash on. -/
theorem from_restores (hw : Tidy w) (hpass : Passes (ready w t) t) (hr : t.Readable)
    (hclock : Reasonable (ms w.clock)) {m : ℕ}
    (h : ((ready w t).runWith (only m) (registerHash t)).1 = false →
      ((ready w t).runWith (only m) (registerHash t)).2 = w) : RestoresFrom w t m := by
  match m with
  | 0 =>
    intro hagain
    rw [end_registerHash_zero, ready, if_pos hagain] at h
    have hforget := h rfl
    have htask : taskAt w t.key = none := by
      rw [← hforget]
      exact (taskAt_forget w _ _ _).trans (if_pos rfl)
    refine ⟨htask, ?_⟩
    rw [← hforget, forget_of_none htask, unstamp, World.setZset_self, ZSet.score_rem]
    exact if_pos rfl
  | 1 =>
    rw [end_registerHash_one] at h
    have hdel := h rfl
    have hkey : w.hashes t.key = none := by
      rw [← hdel]
      exact World.del_hashes_self _ _
    refine ⟨hkey, fun hagain => ?_⟩
    have hne : buildTaskTimestampZSetKey ≠ t.key := by simp [buildTaskTimestampZSetKey, StreamTask.key, buildTaskKey]
    rw [← hdel, World.del_zsets_of_ne _ _ _ hne, World.hset_zsets, ready, if_pos hagain,
      forget_of_none (taskAt_of_none hkey), unstamp, World.setZset_self, ZSet.score_rem]
    exact if_pos rfl
  | 2 =>
    refine ⟨?_, .inl hclock⟩
    by_contra hp
    have hplay := type_of_ne_publisher hp
    rw [end_registerHash_later, end_setAdd _ _ hplay, forget_own hr taskAt_putTask_self] at h
    have hdrop := h rfl
    rw [ready_eq ((unstored_of_drop hdrop).not_again hw)] at hdrop
    exact dropTask_player_ne hw hplay hdrop
  | 3 =>
    show if _ then _ else _
    by_cases hp : t.type = .PUBLISHER
    · rw [if_pos hp]
      rw [end_registerHash_later, end_pipeline _ _ hp (passes_putTask hpass hp),
        forget_own hr taskAt_putTask_self] at h
      exact ⟨hr, unstored_of_drop (h rfl)⟩
    · rw [if_neg hp]
      exact hclock
  | 4 =>
    refine ⟨hclock, hr, ?_⟩
    rw [end_registerHash_later, end_later _ _ _ (passes_putTask hpass)] at h
    obtain ⟨hres, hst⟩ := end_registerTimestamp (entered t (putTask t (ready w t))) t 0
    have hstamp := h (by rw [hres]; simp)
    rw [hst (by simp), entered_clock, ready_clock, if_pos hclock, forget_own hr taskAt_entered] at hstamp
    exact unstored_of_drop hstamp
  | 5 => exact hclock
  | j + 6 => exact .inl hclock

end Call

/-- **A failed registration rolls back.**  In every state that a run reaches, a call whose `n`-th command
fails restores the store if it meets the condition, and with the times of the task and the clock in the
accepted range only then. -/
theorem rolled_back_iff (clock : ℤ) (cs : List Change) (t : StreamTask) (n : ℕ) :
    let w := runs Change.step cs (World.initial clock)
    (Restores w t n → RolledBack w t n) ∧
      (t.Readable ∧ Reasonable (ms w.clock) → (RolledBack w t n ↔ Restores w t n)) := by
  have hw : Tidy (runs Change.step cs (World.initial clock)) :=
    Tidy.kept.runs (fun c _ => c.registers_any) (Tidy.initial clock)
  refine ⟨rolledBack_of_restores hw, fun ⟨hr, hclock⟩ => ⟨fun hback => ?_, rolledBack_of_restores hw⟩⟩
  unfold Restores
  by_cases hden : denied (runs Change.step cs (World.initial clock)) t = true
  · rw [if_pos hden]
    rintro rfl
    exact denied_not_rolledBack hr hden hback
  · rw [if_neg hden]
    have hden : denied (runs Change.step cs (World.initial clock)) t = false := Bool.not_eq_true _ ▸ hden
    split
    · exact .inl hclock
    · rename_i hn
      obtain ⟨m, rfl⟩ : ∃ m, n = m + lead (runs Change.step cs (World.initial clock)) t :=
        ⟨n - lead (runs Change.step cs (World.initial clock)) t, by omega⟩
      rw [Nat.add_sub_cancel]
      unfold RolledBack at hback
      rw [call_from hden] at hback
      exact from_restores hw (passes_ready hw hden) hr hclock hback

/-- In an empty store a publisher whose pipeline fails leaves nothing behind, and a player whose `SADD`
fails leaves a counter. -/
theorem rolled_back_publisher :
    let w := World.initial start
    RolledBack w (taskOf "a" .PUBLISHER start) 4 ∧ ¬ RolledBack w (taskOf "b" .PLAYER start) 3 := by
  refine ⟨(rolled_back_iff start [] (taskOf "a" .PUBLISHER start) 4).1 ?_, fun h => ?_⟩
  · have hw : runs Change.step [] (World.initial start) = World.initial start := rfl
    rw [hw, Restores, if_neg (by decide +kernel), if_neg (by decide +kernel)]
    exact ⟨by decide, rfl, by decide, fun _ => ⟨rfl, by decide⟩, fun h => by cases h⟩
  · have hrange : (taskOf "b" .PLAYER start).Readable ∧ Reasonable (ms (World.initial start).clock) := by decide
    have hr := ((rolled_back_iff start [] (taskOf "b" .PLAYER start) 3).2 hrange).1 h
    rw [Restores, if_neg (by decide +kernel), if_neg (by decide +kernel)] at hr
    have : (taskOf "b" .PLAYER start).type = .PUBLISHER := hr.1
    exact absurd this (by decide)

/-- The publisher `a` registers again and the `HSET` fails: the call returns `false`, and its publisher
key, which was there before, is gone. -/
theorem registration_not_rolled_back :
    let w := runs Change.step [.op (.register (taskOf "a" .PUBLISHER start))] (World.initial start)
    let x := w.runWith (only 3) (registerTask (taskOf "a" .PUBLISHER start))
    x.1 = false ∧ (w.hashes (buildPublisherKey "live")).isSome ∧ x.2.hashes (buildPublisherKey "live") = none ∧
      ¬ RolledBack w (taskOf "a" .PUBLISHER start) 3 := by
  intro w x
  have hres : x.1 = false := by decide +kernel
  have hsome : (w.hashes (buildPublisherKey "live")).isSome := by decide +kernel
  have hnone : x.2.hashes (buildPublisherKey "live") = none := by decide +kernel
  refine ⟨hres, hsome, hnone, fun h => ?_⟩
  rw [← h hres, hnone] at hsome
  exact Bool.noConfusion hsome

end StreamGate.Scheduler
