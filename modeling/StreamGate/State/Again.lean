import StreamGate.State.Batches
import StreamGate.State.Stores

/-!
# A registration made twice

The second of two registrations of a task takes another way than the first: it finds what the first has written and
takes it out before it writes it again.  In the stores that sequential runs reach (`Sequential`) that makes no
difference but for the time to live of the hash and the time stamp (`registerTask_again`).

What is needed of the store is little (`Ordered`), and every command that the calls send keeps it.
-/

namespace StreamGate.State

open StreamGate.Redis StreamGate.Task StreamGate.Lib

/-! ### The stores of sequential runs -/

/-- The kind of value that the calls write at a key.  Nothing is written to the players of a stream. -/
inductive Kind where
  | hash | set | zset | nothing
  deriving DecidableEq

def kindOf : Key → Kind
  | .task _ | .pub _ | .global_players => .hash
  | .members _ | .active_pubs => .set
  | .task_timestamps => .zset
  | .players _ => .nothing

/-- Every table holds keys of its kind, every publisher can be read, and the counter is a number. -/
structure Ordered (w : World) : Prop where
  task : ∀ body x, w.hashes (.task body) = some x → x.fields .total = none
  pub : ∀ s x, w.hashes (.pub s) = some x → ∃ t : StreamTask, t.Readable ∧ x = ⟨serializeTask t, none⟩
  total : ∃ n, TotalIs w n
  hash : ∀ k, kindOf k ≠ .hash → w.hashes k = none
  set : ∀ k, kindOf k ≠ .set → w.sets k = .empty
  zset : ∀ k, kindOf k ≠ .zset → w.zsets k = .empty

/-- A command that keeps such a store. -/
def Fair : Cmd → Prop
  | .hset k f => (∃ body, k = .task body ∧ f .total = none) ∨
      ∃ s t, k = .pub s ∧ StreamTask.Readable t ∧ f = serializeTask t
  | .hincrby k f _ => k = buildGlobalPlayerCountKey ∧ f = .total
  | .sadd k _ => kindOf k = .set
  | .zadd k _ _ => kindOf k = .zset
  | .expire k _ => ∃ body, k = .task body
  | .del k => k ≠ buildGlobalPlayerCountKey
  | _ => True

/-- Fields over nothing. -/
theorem over_none (f : Fields) : f.over (fun _ => none) = f := by
  funext k
  cases h : f k <;> simp [Fields.over, h]

/-- The hash of a task hides what an earlier one left. -/
theorem serialize_over {t : StreamTask} {old : Fields} (h : old .total = none) :
    (serializeTask t).over old = serializeTask t := by
  funext k
  cases k with
  | total => exact h
  | _ => rfl

namespace Ordered

variable {w : World}

theorem initial (clock : ℤ) : Ordered (World.initial clock) :=
  ⟨fun _ _ h => absurd h.symm (Option.some_ne_none _), fun _ _ h => absurd h.symm (Option.some_ne_none _), ⟨0, rfl⟩,
    fun _ _ => rfl, fun _ _ => rfl, fun _ _ => rfl⟩

/-- The hashes are some of those that were there. -/
theorem of_hashes (hw : Ordered w) {w' : World} (hhash : ∀ k x, w'.hashes k = some x → w.hashes k = some x)
    (htotal : w'.hashes buildGlobalPlayerCountKey = w.hashes buildGlobalPlayerCountKey)
    (hset : ∀ k, w.sets k = .empty → w'.sets k = .empty) (hzset : ∀ k, w.zsets k = .empty → w'.zsets k = .empty) :
    Ordered w' := by
  obtain ⟨n, hn⟩ := hw.total
  refine ⟨fun body x hx => hw.task body x (hhash _ x hx), fun s x hx => hw.pub s x (hhash _ x hx),
    ⟨n, hn.congr htotal⟩, fun k hk => ?_, fun k hk => hset k (hw.set k hk), fun k hk => hzset k (hw.zset k hk)⟩
  refine Option.eq_none_iff_forall_ne_some.2 fun x hx => ?_
  exact Option.some_ne_none x ((hhash k x hx).symm.trans (hw.hash k hk))

theorem hset (hw : Ordered w) {k : Key} {f : Fields} (hf : Fair (.hset k f)) : Ordered (w.hset k f) := by
  obtain ⟨n, hn⟩ := hw.total
  have hhash : ∀ l, kindOf k = .hash → kindOf l ≠ .hash → (w.hset k f).hashes l = none := by
    intro l hk hl
    have hne : l ≠ k := fun e => hl (e ▸ hk)
    exact (World.hset_of_ne _ _ _ _ hne).trans (hw.hash l hl)
  have htask : ∀ body, buildGlobalPlayerCountKey ≠ .task body := by simp [buildGlobalPlayerCountKey]
  have hpub : ∀ s, buildGlobalPlayerCountKey ≠ .pub s := by simp [buildGlobalPlayerCountKey]
  rcases hf with ⟨body, rfl, hf⟩ | ⟨s, t, rfl, ht, rfl⟩
  · refine ⟨fun body' x hx => ?_, hw.pub, ⟨n, hn.congr (World.hset_of_ne _ _ _ _ (htask body))⟩,
      fun l hl => hhash l rfl hl, hw.set, hw.zset⟩
    rw [World.hset_apply] at hx
    split at hx
    · obtain rfl := Option.some.inj hx
      show (f .total).orElse _ = none
      rw [hf]
      cases hold : w.hashes (.task body) with
      | none => simp [World.fieldsAt, hold]
      | some y => simp [World.fieldsAt, hold, hw.task body y hold]
    · exact hw.task body' x hx
  · refine ⟨hw.task, fun s' x hx => ?_, ⟨n, hn.congr (World.hset_of_ne _ _ _ _ (hpub s))⟩,
      fun l hl => hhash l rfl hl, hw.set, hw.zset⟩
    rw [World.hset_apply] at hx
    split at hx
    · obtain rfl := Option.some.inj hx
      refine ⟨t, ht, ?_⟩
      cases hold : w.hashes (.pub s) with
      | none =>
        rw [World.fieldsAt, hold, Option.map_none, Option.getD_none, over_none]
        rfl
      | some y =>
        obtain ⟨q, -, rfl⟩ := hw.pub s y hold
        rw [World.fieldsAt, hold, Option.map_some, Option.getD_some, serialize_over rfl]
        rfl
    · exact hw.pub s' x hx

theorem after (hw : Ordered w) {c : Cmd} (hc : Fair c) : Ordered (handle c w).2 := by
  cases c with
  | hset k f => exact hw.hset hc
  | hincrby k f d =>
    obtain ⟨rfl, rfl⟩ := hc
    obtain ⟨n, hn⟩ := hw.total
    have hne : ∀ l, l ≠ buildGlobalPlayerCountKey →
        (w.hincrby buildGlobalPlayerCountKey .total d).hashes l = w.hashes l :=
      fun l hl => World.hset_of_ne _ _ _ _ hl
    refine ⟨fun body x hx => hw.task body x ((hne (.task body) nofun).symm.trans hx),
      fun s x hx => hw.pub s x ((hne (.pub s) nofun).symm.trans hx), ⟨n + d, hn.hincrby d⟩, fun l hl => ?_, hw.set,
      hw.zset⟩
    exact (hne l fun e => hl (e ▸ rfl)).trans (hw.hash l hl)
  | sadd k m =>
    refine ⟨hw.task, hw.pub, hw.total, hw.hash, fun l hl => ?_, hw.zset⟩
    have hne : l ≠ k := fun e => hl (e ▸ hc)
    exact (World.setSet_of_ne _ _ _ _ hne).trans (hw.set l hl)
  | srem k m =>
    refine hw.of_hashes (fun _ _ h => h) rfl (fun l hl => ?_) fun _ h => h
    rw [after_srem, World.setSet_apply]
    split
    · rename_i hk
      rw [← hk, hl]
      exact RSet.rem_of_not_mem RSet.mem_empty.1
    · exact hl
  | zadd k m x =>
    refine ⟨hw.task, hw.pub, hw.total, hw.hash, hw.set, fun l hl => ?_⟩
    have hne : l ≠ k := fun e => hl (e ▸ hc)
    exact (World.setZset_of_ne _ _ _ _ hne).trans (hw.zset l hl)
  | zrem k m =>
    refine hw.of_hashes (fun _ _ h => h) rfl (fun _ h => h) fun l hl => ?_
    rw [after_zrem, World.setZset_apply]
    split
    · rename_i hk
      rw [← hk, hl]
      exact ZSet.rem_of_score_none (ZSet.score_empty m)
    · exact hl
  | expire k d =>
    obtain ⟨body, rfl⟩ := hc
    obtain ⟨n, hn⟩ := hw.total
    have hne : ∀ l, l ≠ .task body → (w.expire (.task body) d).hashes l = w.hashes l :=
      fun l hl => World.expire_of_ne _ _ _ _ hl
    refine ⟨fun body' x hx => ?_, fun s x hx => hw.pub s x ((hne (.pub s) nofun).symm.trans hx),
      ⟨n, hn.congr (hne _ nofun)⟩, fun l hl => (hne l fun e => hl (e ▸ rfl)).trans (hw.hash l hl), hw.set, hw.zset⟩
    rw [after_expire, World.expire_apply] at hx
    split at hx
    · obtain ⟨y, hy, rfl⟩ := Option.map_eq_some_iff.1 hx
      exact hw.task body y hy
    · exact hw.task body' x hx
  | del k =>
    refine hw.of_hashes (fun l x hx => ?_) (World.del_hashes_of_ne _ _ _ hc.symm) (fun l hl => ?_) fun l hl => ?_
    · rw [after_del, World.del_hashes_apply] at hx
      split at hx
      · cases hx
      · exact hx
    · rw [after_del, World.del_sets_apply, hl, ite_self]
    · rw [after_del, World.del_zsets_apply, hl, ite_self]
  | _ => exact hw

theorem advance (hw : Ordered w) (t : ℤ) : Ordered (advance t w) := by
  obtain ⟨n, hn⟩ := hw.total
  have hhash : ∀ k x, (Redis.advance t w).hashes k = some x → w.hashes k = some x := by
    intro k x hx
    rcases hashes_advance t w k with h | h
    · rw [h] at hx
      cases hx
    · exact h ▸ hx
  have hsets : (Redis.advance t w).sets = w.sets ∧ (Redis.advance t w).zsets = w.zsets := by
    unfold Redis.advance
    split <;> exact ⟨rfl, rfl⟩
  refine ⟨fun body x hx => hw.task body x (hhash _ x hx), fun s x hx => hw.pub s x (hhash _ x hx), ⟨n, hn.advance t⟩,
    fun k hk => Option.eq_none_iff_forall_ne_some.2 fun x hx => ?_, fun k hk => ?_, fun k hk => ?_⟩
  · exact Option.some_ne_none x ((hhash k x hx).symm.trans (hw.hash k hk))
  · rw [hsets.1, hw.set k hk]
  · rw [hsets.2, hw.zset k hk]

end Ordered

/-! ### The commands of the calls -/

theorem batchCmds_fair (id : TaskIdentifier) : ∀ cmd ∈ batchCmds id, Fair cmd := by
  obtain ⟨s, c, ty⟩ := id
  cases ty <;> simp [batchCmds, Fair, buildTaskKey, buildPublisherKey, buildGlobalPlayerCountKey]

theorem deregisterTask_fair (s c : String) : (deregisterTask s c).Only Fair :=
  deregisterTask_obeys_of (fun _ => trivial) trivial fun _ t _ _ => batchCmds_fair ⟨s, c, t.type⟩

theorem registerTask_fair {t : StreamTask} (ht : t.Readable) : (registerTask t).Only Fair :=
  registerTask_obeys_of (fun _ => ⟨trivial, trivial⟩) trivial (.inl ⟨_, rfl, rfl⟩) (fun _ => ⟨_, rfl⟩) nofun
    (fun _ => rfl) (fun _ => ⟨.inr ⟨_, t, rfl, ht, rfl⟩, rfl⟩) rfl (fun _ => ⟨rfl, rfl⟩)
    (deregisterTask_fair t.stream_name t.client_id)

theorem deregisterAllMembers_fair (s : String) : (deregisterAllMembers s).Only Fair :=
  deregisterAllMembers_obeys_of (fun _ => ⟨trivial, trivial⟩) (fun _ _ c _ ty => batchCmds_fair ⟨s, c, ty⟩)
    (by simp [Fair, memberKey, buildGlobalPlayerCountKey])

theorem touchTask_fair (s c : String) : (touchTask s c).Only Fair :=
  touchTask_obeys_of trivial (fun _ => .inl ⟨_, rfl, rfl⟩) (fun _ => ⟨_, rfl⟩) (fun _ => rfl)
    (by simp [Fair, buildTaskKey, buildGlobalPlayerCountKey])

theorem scanLoop_fair (now_ms timeout : ℤ) (keys : List Key) : (scanLoop now_ms timeout keys).Only Fair :=
  scanLoop_obeys_of (fun _ _ => trivial) (fun _ => trivial) (fun _ _ _ => rfl) fun _ _ _ _ _ _ =>
    deregisterTask_fair _ _

/-- A call that registers only a task whose times are in the accepted range. -/
def Call.Timely : Call → Prop
  | register t => t.Readable
  | _ => True

theorem Call.fair {c : Call} (hc : c.Timely) : c.prog.Only Fair := by
  cases c with
  | register t => exact (registerTask_fair hc).bind fun _ => trivial
  | deregister s c => exact (deregisterTask_fair s c).bind fun _ => trivial
  | deregisterAll s => exact deregisterAllMembers_fair s
  | batch tasks => exact (obeys_batch fun t _ => batchCmds_fair t).bind fun _ => trivial
  | touch s c => exact (touchTask_fair s c).bind fun _ => trivial
  | scan timeout =>
    exact Prog.Obeys.bind ⟨trivial, fun (now : ℤ) _ => ⟨trivial, fun keys _ => scanLoop_fair (ms now) timeout keys,
      scanLoop_fair (ms now) timeout []⟩⟩ fun _ => trivial

/-- A store that a sequential run reaches from an empty one: call after call, with tasks whose times are in the accepted
range, and time that passes between them and takes hashes away. -/
inductive Sequential : World → Prop
  | initial (clock : ℤ) : Sequential (World.initial clock)
  | call {w : World} (hw : Sequential w) {c : Call} (hc : c.Timely) : Sequential (w.run c.prog).2
  | pass {w : World} (hw : Sequential w) (t : ℤ) : Sequential (advance t w)

theorem Ordered.run {w : World} (hw : Ordered w) {α : Type} {p : RProg α} (hp : p.Only Fair) : Ordered (w.run p).2 :=
  Prog.Only.run_keeps (I := Ordered) (fun _ _ hc hv => hv.after hc) hp hw

theorem Sequential.ordered {w : World} (hw : Sequential w) : Ordered w := by
  induction hw with
  | initial clock => exact .initial clock
  | call _ hc ih => exact ih.run (Call.fair hc)
  | pass _ t ih => exact ih.advance t

/-! ### One registration -/

/-- The store without what an earlier registration left, if the call finds that there is one. -/
def cleared (t : StreamTask) (w : World) : World :=
  if t.type = .PUBLISHER then
    if (pubAt w t.stream_name).isSome then forget t.stream_name t.client_id w else w
  else if w.hasKey t.key then forget t.stream_name t.client_id w else w

/-- The indices of a task. -/
def indexTask (t : StreamTask) (w : World) : World :=
  if t.type = .PUBLISHER then indexPublisher t w else indexPlayer t w

section Way

variable {w : World} {t : StreamTask}

theorem Ordered.pubsKept (hw : Ordered w) : PubsKept w := by
  intro s x hx
  obtain ⟨t, -, rfl⟩ := hw.pub s x hx
  exact ⟨rfl, rfl⟩

/-- A registration that is not refused is the same for everybody: take out, write, enter. -/
theorem Ordered.run_registerTask (hw : Ordered w) (h : ¬ Barred w t) :
    w.run (registerTask t) = finish t (indexTask t (putTask t (cleared t w))) := by
  rw [State.run_registerTask]
  by_cases hp : t.type = .PUBLISHER
  · -- the second look at the publisher key finds no other client
    have hplace : ∀ u : World, (u.hashes (.pub t.stream_name) = none ∨
        u.hashes (.pub t.stream_name) = w.hashes (.pub t.stream_name)) →
        place t (putTask t u) = finish t (indexPublisher t (putTask t u)) := by
      intro u hu
      have hcheck : ¬ (taskAt (putTask t u) (buildPublisherKey t.stream_name)).any
          (fun p => p.client_id ≠ t.client_id) = true := by
        rcases hu with hu | hu
        · have hnone : taskAt (putTask t u) (buildPublisherKey t.stream_name) = none :=
            taskAt_of_none ((putTask_pub u _ t).trans hu)
          rw [hnone]
          exact Bool.false_ne_true
        · have hsame : taskAt (putTask t u) (buildPublisherKey t.stream_name) = pubAt w t.stream_name :=
            (taskAt_congr ((putTask_pub u _ t).trans hu)).trans (taskAt_pub hw.pubsKept t.stream_name)
          rw [hsame]
          intro hany
          obtain ⟨p, hpub, hne⟩ := (Option.any_eq_true _ _).1 hany
          exact h ⟨hp, p, hpub, of_decide_eq_true hne⟩
      unfold place
      rw [if_pos hp, if_neg hcheck]
    unfold indexTask cleared
    rw [if_pos hp, if_pos hp, if_pos hp]
    cases hpub : pubAt w t.stream_name with
    | none => exact hplace w (.inr rfl)
    | some p =>
      have hown : ¬ p.client_id ≠ t.client_id := fun hne => h ⟨hp, p, hpub, hne⟩
      apply (if_neg hown).trans
      exact hplace _ (forget_pub_eq_or_none w t.stream_name t.client_id t.stream_name)
  · have hplace : ∀ u, place t u = finish t (indexPlayer t u) := fun u => if_neg hp
    unfold indexTask cleared
    rw [if_neg hp, if_neg hp, if_neg hp]
    split
    · exact hplace _
    · exact hplace _

end Way

/-! ### After one registration -/

/-- The task is registered: all that a registration writes is there. -/
structure Settled (t : StreamTask) (w : World) : Prop where
  task : ∃ e, w.hashes t.key = some ⟨serializeTask t, e⟩
  member : t.client_id ∈ w.sets (.members t.stream_name)
  stamp : (w.zsets buildTaskTimestampZSetKey).score t.key ≠ none
  pub : t.type = .PUBLISHER → w.hashes (.pub t.stream_name) = some ⟨serializeTask t, none⟩ ∧
    t.stream_name ∈ w.sets .active_pubs
  total : t.type = .PLAYER → w.hashes .global_players ≠ none

/-- The registration was taken back: nothing that it writes is there. -/
structure Withdrawn (t : StreamTask) (w : World) : Prop where
  task : w.hashes t.key = none
  member : ¬ t.client_id ∈ w.sets (.members t.stream_name)
  pub : t.type = .PUBLISHER → w.hashes (.pub t.stream_name) = none ∧ ¬ t.stream_name ∈ w.sets .active_pubs
  total : t.type = .PLAYER → w.hashes .global_players ≠ none

section Index

variable {w : World} {t : StreamTask}

theorem indexTask_task (body : String) : (indexTask t w).hashes (.task body) = w.hashes (.task body) := by
  unfold indexTask
  split
  · exact indexPublisher_task w body t
  · exact indexPlayer_task w body t

theorem indexTask_members (s : String) : (indexTask t w).sets (.members s) =
    if s = t.stream_name then (w.sets (.members t.stream_name)).add t.client_id else w.sets (.members s) := by
  unfold indexTask
  split
  · exact indexPublisher_members w s t
  · exact indexPlayer_members w s t

theorem indexTask_pub (s : String) : (indexTask t w).hashes (.pub s) =
    if t.type = .PUBLISHER then (indexPublisher t w).hashes (.pub s) else w.hashes (.pub s) := by
  unfold indexTask
  split
  · rfl
  · exact indexPlayer_pub w s t

theorem indexTask_active : (indexTask t w).sets .active_pubs =
    if t.type = .PUBLISHER then (w.sets .active_pubs).add t.stream_name else w.sets .active_pubs := by
  unfold indexTask
  split
  · exact indexPublisher_active w t
  · exact indexPlayer_active w t

theorem indexTask_global : (indexTask t w).hashes .global_players =
    if t.type = .PUBLISHER then w.hashes .global_players
    else (w.hincrby .global_players .total 1).hashes .global_players := by
  unfold indexTask
  split
  · exact indexPublisher_global w t
  · exact indexPlayer_global w t

theorem indexTask_zsets : (indexTask t w).zsets = w.zsets := by
  unfold indexTask
  split
  · exact indexPublisher_zsets w t
  · exact indexPlayer_zsets w t

theorem indexTask_clock : (indexTask t w).clock = w.clock := by
  unfold indexTask
  split
  · exact indexPublisher_clock w t
  · exact indexPlayer_clock w t

end Index

theorem type_eq_player {t : StreamTask} (hp : ¬ t.type = .PUBLISHER) : t.type = .PLAYER := by
  cases ht : t.type with
  | PUBLISHER => exact absurd ht hp
  | PLAYER => rfl

section First

variable {w : World} {t : StreamTask}

theorem Ordered.forget (hw : Ordered w) (s c : String) : Ordered (forget s c w) := by
  have h := hw.run (deregisterTask_fair s c)
  rw [run_deregisterTask] at h
  exact h

theorem Ordered.cleared (hw : Ordered w) (t : StreamTask) : Ordered (cleared t w) := by
  unfold State.cleared
  split
  · split
    · exact hw.forget _ _
    · exact hw
  · split
    · exact hw.forget _ _
    · exact hw

theorem cleared_clock : (cleared t w).clock = w.clock := by
  unfold cleared
  split
  · split
    · exact forget_clock w _ _
    · rfl
  · split
    · exact forget_clock w _ _
    · rfl

theorem Ordered.putTask (hw : Ordered w) (t : StreamTask) : Ordered (putTask t w) := by
  have hput : Fair (.hset t.key (serializeTask t)) := .inl ⟨_, rfl, rfl⟩
  have hexpire : Fair (.expire t.key TASK_TTL_SEC) := ⟨_, rfl⟩
  exact (hw.after hput).after hexpire

/-- The hash that a registration writes. -/
theorem Ordered.putTask_self (hw : Ordered w) :
    (State.putTask t w).hashes t.key = some ⟨serializeTask t, some (ms w.clock + 1000 * TASK_TTL_SEC)⟩ := by
  have hold : ((w.fieldsAt t.key).getD fun _ => none) .total = none := by
    rw [World.fieldsAt]
    cases h : w.hashes t.key with
    | none => rfl
    | some x => exact hw.task _ x h
  have hput : (State.putTask t w).hashes t.key = _ := (putTask_task w _ t).trans (if_pos rfl)
  rw [hput, serialize_over hold]

/-- The publisher key that a registration writes. -/
theorem Ordered.indexPublisher_self (hw : Ordered w) :
    (indexPublisher t w).hashes (.pub t.stream_name) = some ⟨serializeTask t, none⟩ := by
  rw [indexPublisher_pub, if_pos rfl, World.fieldsAt]
  cases h : w.hashes (.pub t.stream_name) with
  | none => rw [Option.map_none, Option.getD_none, over_none, Option.bind_none]
  | some x =>
    obtain ⟨q, -, rfl⟩ := hw.pub _ x h
    rw [Option.map_some, Option.getD_some, serialize_over rfl, Option.bind_some]

theorem hincrby_ne_none (w : World) (k : Key) (f : Field) (d : ℤ) : (w.hincrby k f d).hashes k ≠ none := by
  rw [World.hincrby, World.hset_self]
  exact Option.some_ne_none _

/-- What is there before the time stamp is entered. -/
theorem Ordered.written (hw : Ordered w) :
    let v := indexTask t (State.putTask t w)
    v.hashes t.key = some ⟨serializeTask t, some (ms w.clock + 1000 * TASK_TTL_SEC)⟩ ∧
      t.client_id ∈ v.sets (.members t.stream_name) ∧
      (t.type = .PUBLISHER → v.hashes (.pub t.stream_name) = some ⟨serializeTask t, none⟩ ∧
        t.stream_name ∈ v.sets .active_pubs) ∧
      (t.type = .PLAYER → v.hashes .global_players ≠ none) := by
  intro v
  refine ⟨(indexTask_task _).trans hw.putTask_self, ?_, fun hp => ⟨?_, ?_⟩, fun hp => ?_⟩
  · rw [indexTask_members, if_pos rfl]
    exact RSet.mem_add.2 (.inr rfl)
  · rw [indexTask_pub, if_pos hp]
    exact (hw.putTask t).indexPublisher_self
  · rw [indexTask_active, if_pos hp]
    exact RSet.mem_add.2 (.inr rfl)
  · rw [indexTask_global, if_neg (by rw [hp]; decide)]
    exact hincrby_ne_none _ _ _ _

theorem finish_true (hclock : Reasonable (ms w.clock)) : finish t w = (true, w.setZset buildTaskTimestampZSetKey
    ((w.zsets buildTaskTimestampZSetKey).add t.key (ms w.clock))) := if_pos hclock

/-- A registration whose clock is out of range drops the task that it has just written. -/
theorem Ordered.finish_false (hw : Ordered w) (ht : t.Readable) (hclock : ¬ Reasonable (ms w.clock)) :
    finish t (indexTask t (State.putTask t w)) = (false, dropTask t.ident (indexTask t (State.putTask t w))) := by
  have hread : taskAt (indexTask t (State.putTask t w)) t.key = some t.stored := by
    rw [taskAt, World.fieldsAt, hw.written.1]
    exact (deserialize_serialize t).trans (if_pos ht)
  have hforget : State.forget t.stream_name t.client_id (indexTask t (State.putTask t w)) = _ := forget_some hread
  unfold finish
  rw [indexTask_clock, putTask_clock, if_neg hclock, hforget]
  rfl

theorem Ordered.settled (hw : Ordered w) (hclock : Reasonable (ms w.clock)) :
    (finish t (indexTask t (State.putTask t w))).1 = true ∧
      Settled t (finish t (indexTask t (State.putTask t w))).2 := by
  obtain ⟨htask, hmember, hpub, htotal⟩ := hw.written (t := t)
  rw [finish_true (by rw [indexTask_clock, putTask_clock]; exact hclock)]
  refine ⟨rfl, ⟨_, htask⟩, hmember, ?_, hpub, htotal⟩
  rw [World.setZset_self, ZSet.score_add, if_pos rfl]
  exact Option.some_ne_none _

theorem Ordered.withdrawn (hw : Ordered w) (ht : t.Readable) (hclock : ¬ Reasonable (ms w.clock)) :
    (finish t (indexTask t (State.putTask t w))).1 = false ∧
      Withdrawn t (finish t (indexTask t (State.putTask t w))).2 := by
  rw [hw.finish_false ht hclock]
  refine ⟨rfl, (dropTask_task _ _ _ _ _).trans (if_pos rfl), ?_, fun hp => ⟨?_, ?_⟩, fun hp => ?_⟩
  · intro h
    rw [StreamTask.ident, dropTask_members, if_pos rfl] at h
    exact (RSet.mem_rem.1 h).2 rfl
  · rw [StreamTask.ident, dropTask_pub, if_pos ⟨hp, rfl⟩]
  · intro h
    rw [StreamTask.ident, dropTask_active, if_pos hp] at h
    exact (RSet.mem_rem.1 h).2 rfl
  · rw [StreamTask.ident, dropTask_global, if_pos hp]
    exact hincrby_ne_none _ _ _ _

end First

/-! ### After the second -/

/-- Two stores are the same but for the time to live of the hash at `k` and its time stamp.  The order of the members
of a set, and of the entries of a sorted set, means nothing. -/
structure SameBut (k : Key) (w w' : World) : Prop where
  fields : ∀ l, w'.fieldsAt l = w.fieldsAt l
  hash : ∀ l, l ≠ k → w'.hashes l = w.hashes l
  set : ∀ l m, m ∈ w'.sets l ↔ m ∈ w.sets l
  stamp : ∀ l m, (l = buildTaskTimestampZSetKey → m ≠ k) → (w'.zsets l).score m = (w.zsets l).score m
  stamped : (w'.zsets buildTaskTimestampZSetKey).score k = none ↔ (w.zsets buildTaskTimestampZSetKey).score k = none
  clock : w'.clock = w.clock

section Second

variable {w w' : World} {t : StreamTask}

/-- In stores that are in order only the keys that are used need a look. -/
theorem SameBut.of_ordered {k : Key} (hw : Ordered w) (hw' : Ordered w')
    (hself : w'.fieldsAt k = w.fieldsAt k)
    (htask : ∀ body, Key.task body ≠ k → w'.hashes (.task body) = w.hashes (.task body))
    (hpub : ∀ s, w'.hashes (.pub s) = w.hashes (.pub s))
    (htotal : w'.hashes .global_players = w.hashes .global_players)
    (hmember : ∀ s c, c ∈ w'.sets (.members s) ↔ c ∈ w.sets (.members s))
    (hactive : ∀ s, s ∈ w'.sets .active_pubs ↔ s ∈ w.sets .active_pubs)
    (hstamp : ∀ m, m ≠ k → (w'.zsets .task_timestamps).score m = (w.zsets .task_timestamps).score m)
    (hstamped : (w'.zsets .task_timestamps).score k = none ↔ (w.zsets .task_timestamps).score k = none)
    (hclock : w'.clock = w.clock) : SameBut k w w' := by
  have hnone : ∀ l, kindOf l ≠ .hash → w'.hashes l = w.hashes l :=
    fun l hl => (hw'.hash l hl).trans (hw.hash l hl).symm
  have hhash : ∀ l, l ≠ k → w'.hashes l = w.hashes l := by
    intro l hl
    cases l with
    | task body => exact htask body hl
    | pub s => exact hpub s
    | global_players => exact htotal
    | players s => exact hnone _ (by simp [kindOf])
    | members s => exact hnone _ (by simp [kindOf])
    | active_pubs => exact hnone _ (by simp [kindOf])
    | task_timestamps => exact hnone _ (by simp [kindOf])
  refine ⟨fun l => ?_, hhash, fun l m => ?_, fun l m hm => ?_, hstamped, hclock⟩
  · by_cases hl : l = k
    · exact hl ▸ hself
    · rw [World.fieldsAt, World.fieldsAt, hhash l hl]
  · have hbare : ∀ l, kindOf l ≠ .set → (m ∈ w'.sets l ↔ m ∈ w.sets l) := by
      intro l hl
      rw [hw'.set l hl, hw.set l hl]
    cases l with
    | members s => exact hmember s m
    | active_pubs => exact hactive m
    | players s => exact hbare _ (by simp [kindOf])
    | task body => exact hbare _ (by simp [kindOf])
    | pub s => exact hbare _ (by simp [kindOf])
    | global_players => exact hbare _ (by simp [kindOf])
    | task_timestamps => exact hbare _ (by simp [kindOf])
  · by_cases hl : l = buildTaskTimestampZSetKey
    · subst hl
      exact hstamp m (hm rfl)
    · have hzset : kindOf l ≠ .zset := by
        cases l with
        | task_timestamps => exact absurd rfl hl
        | _ => simp [kindOf]
      rw [hw'.zset l hzset, hw.zset l hzset]

/-- A registered task taken out and written again. -/
def putBack (t : StreamTask) (w : World) : World := indexTask t (putTask t (dropTask t.ident w))

/-- A task that is registered is found by its own registration, and taken out as it is. -/
theorem Settled.run_registerTask (hv : Settled t w) (hw : Ordered w) (ht : t.Readable)
    (hclock : Reasonable (ms w.clock)) : w.run (registerTask t) = (true, (putBack t w).setZset buildTaskTimestampZSetKey
      (((putBack t w).zsets buildTaskTimestampZSetKey).add t.key (ms (putBack t w).clock))) := by
  obtain ⟨e, htask⟩ := hv.task
  have hread : taskAt w t.key = some t.stored := by
    rw [taskAt, World.fieldsAt, htask]
    exact (deserialize_serialize t).trans (if_pos ht)
  have hforget : forget t.stream_name t.client_id w = dropTask t.ident w := (forget_some hread).trans rfl
  have hpubAt : t.type = .PUBLISHER → pubAt w t.stream_name = some t.stored := by
    intro hp
    rw [pubAt, World.fieldsAt, buildPublisherKey, (hv.pub hp).1]
    exact (deserialize_serialize t).trans (if_pos ht)
  have hfree : ¬ Barred w t := by
    rintro ⟨hp, p, hpub, hne⟩
    obtain rfl := Option.some.inj ((hpubAt hp).symm.trans hpub)
    exact hne rfl
  have hcleared : cleared t w = dropTask t.ident w := by
    unfold cleared
    split
    · rename_i hp
      rw [hpubAt hp, ← hforget]
      rfl
    · have hkey : w.hasKey t.key = true := by
        rw [World.hasKey, htask]
        rfl
      rw [if_pos hkey, hforget]
  have hclock' : Reasonable (ms (putBack t w).clock) := by
    rw [putBack, indexTask_clock, putTask_clock, dropTask_clock]
    exact hclock
  rw [hw.run_registerTask hfree, hcleared]
  exact finish_true hclock'

theorem Ordered.dropTask (hw : Ordered w) (id : TaskIdentifier) : Ordered (dropTask id w) := by
  have hfair : (deregisterTasksBatch [id]).Only Fair := obeys_batch fun t _ => batchCmds_fair t
  have h := hw.run hfair
  rw [run_deregisterTasksBatch] at h
  exact h

/-- Taken out and put in. -/
theorem mem_rem_add {s : RSet} {m x : String} (hx : x ∈ s) : m ∈ (s.rem x).add x ↔ m ∈ s := by
  rw [RSet.mem_add, RSet.mem_rem]
  constructor
  · rintro (⟨hm, -⟩ | rfl)
    · exact hm
    · exact hx
  · intro hm
    by_cases h : m = x
    · exact .inr h
    · exact .inl ⟨hm, h⟩

theorem putBack_pub (hv : Settled t w) (hw : Ordered w) (s : String) :
    (putBack t w).hashes (.pub s) = w.hashes (.pub s) := by
  by_cases hs : t.type = .PUBLISHER ∧ s = t.stream_name
  · obtain ⟨hp, rfl⟩ := hs
    exact ((hw.dropTask t.ident).written.2.2.1 hp).1.trans (hv.pub hp).1.symm
  · apply (indexTask_pub s).trans
    have hdrop : (putTask t (dropTask t.ident w)).hashes (.pub s) = w.hashes (.pub s) :=
      (putTask_pub _ s t).trans ((dropTask_pub _ _ _ _ _).trans (if_neg hs))
    split
    · rename_i hp
      exact (indexPublisher_pub _ s t).trans ((if_neg fun h => hs ⟨hp, h⟩).trans hdrop)
    · exact hdrop

theorem putBack_global (hv : Settled t w) (hw : Ordered w) :
    (putBack t w).hashes .global_players = w.hashes .global_players := by
  apply indexTask_global.trans
  have hdrop := dropTask_global w t.stream_name t.client_id t.type
  split
  · rename_i hp
    exact (putTask_global _ t).trans (hdrop.trans (if_neg (by rw [hp]; decide)))
  · rename_i hp
    have hplay := type_eq_player hp
    obtain ⟨n, hn⟩ := hw.total
    obtain ⟨x, hx⟩ := Option.ne_none_iff_exists'.1 (hv.total hplay)
    rw [if_pos hplay] at hdrop
    apply (hincrby_congr ((putTask_global _ t).trans hdrop) .total 1).trans
    exact (hn.back hx (-1)).trans hx.symm

theorem mem_putBack_members (hv : Settled t w) (s c : String) :
    c ∈ (putBack t w).sets (.members s) ↔ c ∈ w.sets (.members s) := by
  have hdrop := dropTask_members w t.stream_name t.client_id
  rw [putBack, indexTask_members, putTask_sets, StreamTask.ident, hdrop, hdrop, if_pos rfl]
  split
  · rename_i hs
    rw [hs]
    exact mem_rem_add hv.member
  · rfl

theorem mem_putBack_active (hv : Settled t w) (s : String) :
    s ∈ (putBack t w).sets .active_pubs ↔ s ∈ w.sets .active_pubs := by
  rw [putBack, indexTask_active, putTask_sets, StreamTask.ident, dropTask_active]
  split
  · rename_i hp
    exact mem_rem_add (hv.pub hp).2
  · rfl

/-- **Registering a registered task.** -/
theorem Settled.sameBut (hv : Settled t w) (hw : Ordered w) (ht : t.Readable) (hclock : Reasonable (ms w.clock)) :
    SameBut t.key w (w.run (registerTask t)).2 := by
  have hrun := hv.run_registerTask hw ht hclock
  have hord := hw.run (registerTask_fair ht)
  rw [hrun] at hord ⊢
  refine .of_ordered hw hord ?_ (fun body hb => ?_) (putBack_pub hv hw) (putBack_global hv hw)
    (mem_putBack_members hv) (mem_putBack_active hv) (fun m hm => ?_) ?_ ?_
  · obtain ⟨e, htask⟩ := hv.task
    have hself : (putBack t w).hashes t.key = _ := (hw.dropTask t.ident).written.1
    show ((putBack t w).hashes t.key).map Hash.fields = (w.hashes t.key).map Hash.fields
    rw [htask, hself]
    rfl
  · apply (indexTask_task body).trans
    rw [putTask_task, if_neg hb]
    exact (dropTask_task _ _ _ _ _).trans (if_neg hb)
  · show (((putBack t w).setZset buildTaskTimestampZSetKey _).zsets buildTaskTimestampZSetKey).score m = _
    rw [World.setZset_self, ZSet.score_add, if_neg hm, putBack, indexTask_zsets, putTask_zsets]
    exact congrArg (fun z => ZSet.score z m) (dropTask_zsets w t.ident)
  · show (((putBack t w).setZset buildTaskTimestampZSetKey _).zsets buildTaskTimestampZSetKey).score t.key = none ↔ _
    rw [World.setZset_self, ZSet.score_add, if_pos rfl]
    exact iff_of_false (Option.some_ne_none _) hv.stamp
  · exact indexTask_clock.trans (dropTask_clock w t.ident)

/-- A task written and taken out again. -/
def takeBack (t : StreamTask) (w : World) : World := dropTask t.ident (indexTask t (putTask t w))

theorem takeBack_pub (hv : Withdrawn t w) (s : String) : (takeBack t w).hashes (.pub s) = w.hashes (.pub s) := by
  have hdrop := dropTask_pub (indexTask t (putTask t w)) t.stream_name t.client_id s t.type
  apply hdrop.trans
  split
  · rename_i hs
    obtain ⟨hp, rfl⟩ := hs
    exact (hv.pub hp).1.symm
  · rename_i hs
    apply (indexTask_pub s).trans
    split
    · rename_i hp
      exact (indexPublisher_pub _ s t).trans ((if_neg fun h => hs ⟨hp, h⟩).trans (putTask_pub w s t))
    · exact putTask_pub w s t

theorem takeBack_global (hv : Withdrawn t w) (hw : Ordered w) :
    (takeBack t w).hashes .global_players = w.hashes .global_players := by
  have hdrop := dropTask_global (indexTask t (putTask t w)) t.stream_name t.client_id t.type
  apply hdrop.trans
  split
  · rename_i hplay
    have hp : ¬ t.type = .PUBLISHER := by rw [hplay]; decide
    obtain ⟨n, hn⟩ := hw.total
    obtain ⟨x, hx⟩ := Option.ne_none_iff_exists'.1 (hv.total hplay)
    have hindex : (indexTask t (putTask t w)).hashes .global_players =
        (w.hincrby .global_players .total 1).hashes .global_players :=
      (indexTask_global.trans (if_neg hp)).trans (hincrby_congr (putTask_global w t) .total 1)
    exact (hincrby_congr hindex .total (-1)).trans ((hn.back hx 1).trans hx.symm)
  · rename_i hplay
    have hp : t.type = .PUBLISHER := by
      by_contra hp
      exact hplay (type_eq_player hp)
    exact (indexTask_global.trans (if_pos hp)).trans (putTask_global w t)

theorem takeBack_members (hv : Withdrawn t w) (s : String) :
    (takeBack t w).sets (.members s) = w.sets (.members s) := by
  rw [takeBack, StreamTask.ident, dropTask_members, indexTask_members, indexTask_members, putTask_sets, if_pos rfl]
  split
  · rename_i hs
    rw [hs, RSet.rem_add hv.member]
  · rfl

theorem takeBack_active (hv : Withdrawn t w) : (takeBack t w).sets .active_pubs = w.sets .active_pubs := by
  rw [takeBack, StreamTask.ident, dropTask_active, indexTask_active, putTask_sets]
  split
  · rename_i hp
    rw [RSet.rem_add (hv.pub hp).2]
  · rfl

theorem takeBack_zsets (t : StreamTask) (w : World) :
    (takeBack t w).zsets .task_timestamps = w.zsets .task_timestamps := by
  rw [takeBack, dropTask_zsets, indexTask_zsets, putTask_zsets]

/-- A task of which nothing is there is not found, and taken out as soon as it is written. -/
theorem Withdrawn.run_registerTask (hv : Withdrawn t w) (hw : Ordered w) (ht : t.Readable)
    (hclock : ¬ Reasonable (ms w.clock)) : w.run (registerTask t) = (false, takeBack t w) := by
  have hfree : ¬ Barred w t := by
    rintro ⟨hp, p, hpub, -⟩
    rw [pubAt_of_none (hv.pub hp).1] at hpub
    cases hpub
  have hcleared : cleared t w = w := by
    unfold cleared
    split
    · rename_i hp
      rw [pubAt_of_none (hv.pub hp).1]
      rfl
    · have hkey : w.hasKey t.key = false := by
        have hset : w.sets t.key = .empty := hw.set _ (by simp [kindOf, StreamTask.key, buildTaskKey])
        have hzset : w.zsets t.key = .empty := hw.zset _ (by simp [kindOf, StreamTask.key, buildTaskKey])
        rw [World.hasKey, hv.task, hset, hzset]
        rfl
      rw [hkey, if_neg Bool.false_ne_true]
  rw [hw.run_registerTask hfree, hcleared]
  exact hw.finish_false ht hclock

/-- **Registering a task whose registration is taken back.** -/
theorem Withdrawn.sameBut (hv : Withdrawn t w) (hw : Ordered w) (ht : t.Readable) (hclock : ¬ Reasonable (ms w.clock)) :
    (w.run (registerTask t)).1 = false ∧ SameBut t.key w (w.run (registerTask t)).2 := by
  have hrun := hv.run_registerTask hw ht hclock
  have hord := hw.run (registerTask_fair ht)
  rw [hrun] at hord ⊢
  refine ⟨rfl, .of_ordered hw hord ?_ (fun body hb => ?_) (takeBack_pub hv) (takeBack_global hv hw) (fun s c => ?_)
    (fun s => ?_) (fun m hm => ?_) ?_ ?_⟩
  · have hself : (takeBack t w).hashes t.key = none := (dropTask_task _ _ _ _ _).trans (if_pos rfl)
    show ((takeBack t w).hashes t.key).map Hash.fields = (w.hashes t.key).map Hash.fields
    rw [hself, hv.task]
  · apply ((dropTask_task _ _ _ _ _).trans (if_neg hb)).trans
    rw [indexTask_task, putTask_task, if_neg hb]
  · rw [takeBack_members hv]
  · rw [takeBack_active hv]
  · rw [takeBack_zsets]
  · rw [takeBack_zsets]
  · rw [takeBack, dropTask_clock, indexTask_clock, putTask_clock]

theorem SameBut.refl (k : Key) (w : World) : SameBut k w w :=
  ⟨fun _ => rfl, fun _ _ => rfl, fun _ _ => .rfl, fun _ _ _ => rfl, .rfl, rfl⟩

end Second

/-- **A registration made twice.**  After any sequential run, the second of two registrations of a task in succession
returns what the first returned, and leaves the store as it was but for the time to live of the hash and its time stamp.
The clock may have moved on between the two, but not into the accepted range or out of it. -/
theorem registerTask_again {w : World} (hw : Sequential w) {t : StreamTask} (ht : t.Readable) {later : ℤ}
    (hlater : Reasonable (ms (max w.clock later)) ↔ Reasonable (ms w.clock)) :
    let once := w.run (registerTask t)
    let twice := (tick later once.2).run (registerTask t)
    twice.1 = once.1 ∧ SameBut t.key (tick later once.2) twice.2 := by
  intro once twice
  have hclock : once.2.clock = w.clock := run_clock w (registerTask t)
  have hord : Ordered (tick later once.2) := by
    obtain ⟨h1, h2, h3, h4, h5, h6⟩ := hw.ordered.run (registerTask_fair ht)
    exact ⟨h1, h2, h3, h4, h5, h6⟩
  by_cases hfree : Barred w t
  · have honce : once = (false, w) := run_registerTask_barred hfree
    have htwice : twice = (false, tick later once.2) := run_registerTask_barred (honce ▸ hfree)
    rw [htwice]
    exact ⟨by rw [honce], .refl _ _⟩
  · have honce : once = finish t (indexTask t (putTask t (cleared t w))) := hw.ordered.run_registerTask hfree
    have hu := hw.ordered.cleared t
    by_cases hr : Reasonable (ms w.clock)
    · obtain ⟨htrue, hset⟩ := hu.settled (t := t) (by rw [cleared_clock]; exact hr)
      rw [← honce] at htrue hset
      have hset : Settled t (tick later once.2) := ⟨hset.task, hset.member, hset.stamp, hset.pub, hset.total⟩
      have hr' : Reasonable (ms (tick later once.2).clock) := by
        show Reasonable (ms (max once.2.clock later))
        rw [hclock]
        exact hlater.2 hr
      have htwice : twice = _ := hset.run_registerTask hord ht hr'
      exact ⟨by rw [htwice, htrue], hset.sameBut hord ht hr'⟩
    · obtain ⟨hfalse, hgone⟩ := hu.withdrawn ht (by rw [cleared_clock]; exact hr)
      rw [← honce] at hfalse hgone
      have hgone : Withdrawn t (tick later once.2) := ⟨hgone.task, hgone.member, hgone.pub, hgone.total⟩
      have hr' : ¬ Reasonable (ms (tick later once.2).clock) := by
        show ¬ Reasonable (ms (max once.2.clock later))
        rw [hclock]
        exact fun h => hr (hlater.1 h)
      obtain ⟨htwice, hsame⟩ := hgone.sameBut hord ht hr'
      exact ⟨htwice.trans hfalse.symm, hsame⟩

/-- A player registered five seconds after it was. -/
theorem registerTask_again_later :
    let w := World.initial 1700000000000000000
    let t := playerAt 1700000000000000000
    let once := w.run (registerTask t)
    let twice := (tick 1700000005000000000 once.2).run (registerTask t)
    once.1 = true ∧ twice.1 = once.1 ∧ SameBut t.key (tick 1700000005000000000 once.2) twice.2 :=
  ⟨by decide +kernel, registerTask_again (.initial _) (by decide +kernel) (by decide +kernel)⟩

end StreamGate.State
