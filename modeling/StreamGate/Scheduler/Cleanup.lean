import StreamGate.State.Order
import StreamGate.State.Stores
import StreamGate.Scheduler.TaskScheduler

/-!
# The cleanup thread and fresh registrations

One iteration of the cleanup thread among publish and play requests.  The iteration takes a dead
publisher's stream apart up to three times: in the scan, in the batch, and in the cascade, whose
last command is `DEL stream:members:s`.  A request that writes before that command can lose what it
wrote.  A request whose first write comes after it keeps its registration
(`fresh_registration_stands`), if the other requests leave the stream alone.
-/

namespace StreamGate.Scheduler

open StreamGate.Redis StreamGate.Task StreamGate.Lib StreamGate.State

/-! ### The system -/

/-- A request to the scheduler. -/
inductive Hook where
  | publish (r : Request)
  | play (r : Request)

namespace Hook

def request : Hook → Request
  | publish r => r
  | play r => r

def type : Hook → StreamType
  | publish _ => .PUBLISHER
  | play _ => .PLAYER

abbrev stream_name (k : Hook) : String := k.request.stream_name
abbrev client_id (k : Hook) : String := k.request.client_id

def prog (node_config : NodeConfig) : Hook → RProg SchedulerResult
  | publish r => onPublish node_config r
  | play r => onPlay r

end Hook

/-- One iteration of the cleanup thread (`none`) and the requests, before their first command. -/
def system {ι : Type} (node_config : NodeConfig) (task_timeout : ℤ) (hooks : ι → Hook) (w : World) :
    Conf iface World (Option ι) (Option SchedulerResult) :=
  ⟨w, fun
    | none => do timeoutCleanup task_timeout; return none
    | some i => do let r ← (hooks i).prog node_config; return some r⟩

/-! ### The commands of the other threads -/

section Spare

variable {s x s' c' y : String} {type : StreamType} {T : ℤ}

/-- What a command must leave as it is to spare a registration. -/
theorem spares_of_kept {cmd : Cmd} {w : World}
    (hhash : (handle cmd w).2.hashes (buildTaskKey s x) = w.hashes (buildTaskKey s x))
    (hexpire : ∀ n, cmd ≠ .expire (buildPublisherKey s) n)
    (hpub : HeldBy s x w → (handle cmd w).2.hashes (buildPublisherKey s) = w.hashes (buildPublisherKey s))
    (hmem : x ∈ w.sets (memberKey s) → x ∈ (handle cmd w).2.sets (memberKey s)) :
    Spares False s x T w (handle cmd w).2 where
  clock := (after_clock w cmd).ge
  hash _ hh := hhash ▸ hh
  alive _ hh _ := hhash.trans hh
  pubFixed hf := hf.after hexpire
  pub _ hh := hpub hh
  member := hmem
  active ha := ha.elim

/-- Members leave only by `SREM` and `DEL`. -/
theorem mem_after {cmd : Cmd} {w : World} (hm : x ∈ w.sets (memberKey s)) (hsrem : cmd ≠ .srem (memberKey s) x)
    (hdel : cmd ≠ .del (memberKey s)) : x ∈ (handle cmd w).2.sets (memberKey s) := by
  by_cases hk : cmd.key = some (memberKey s)
  · cases cmd with
    | sadd k m =>
      obtain rfl := Option.some.inj hk
      rw [after_sadd, World.setSet_self]
      exact RSet.mem_add.2 (.inl hm)
    | srem k m =>
      obtain rfl := Option.some.inj hk
      rw [after_srem, World.setSet_self]
      exact RSet.mem_rem.2 ⟨hm, fun e => hsrem (e ▸ rfl)⟩
    | del k => exact absurd (congrArg Cmd.del (Option.some.inj hk)) hdel
    | _ => exact hm
  · rw [(SameAt.handle hk).set]
    exact hm

/-- Members come only by `SADD`. -/
theorem not_mem_after {cmd : Cmd} {w : World} (hm : ¬ x ∈ w.sets (memberKey s)) (hsadd : ¬ Joins s x cmd) :
    ¬ x ∈ (handle cmd w).2.sets (memberKey s) := by
  by_cases hk : cmd.key = some (memberKey s)
  · cases cmd with
    | sadd k m =>
      obtain rfl := Option.some.inj hk
      rw [after_sadd, World.setSet_self, RSet.mem_add]
      rintro (h | rfl)
      · exact hm h
      · exact hsadd rfl
    | srem k m =>
      obtain rfl := Option.some.inj hk
      rw [after_srem, World.setSet_self]
      exact fun h => hm (RSet.mem_rem.1 h).1
    | del k =>
      obtain rfl := Option.some.inj hk
      rw [after_del, World.del_sets_self]
      exact RSet.mem_empty.1
    | _ => exact hm
  · rw [(SameAt.handle hk).set]
    exact hm

/-- A time stamp comes only by `ZADD`. -/
theorem score_after {cmd : Cmd} {w : World} (hz : (w.zsets buildTaskTimestampZSetKey).score (buildTaskKey s x) = none)
    (hstamps : ¬ Stamps s x cmd) :
    ((handle cmd w).2.zsets buildTaskTimestampZSetKey).score (buildTaskKey s x) = none := by
  by_cases hk : cmd.key = some buildTaskTimestampZSetKey
  · cases cmd with
    | zadd k m n =>
      obtain rfl := Option.some.inj hk
      have hm : buildTaskKey s x ≠ m := by
        rintro rfl
        exact hstamps ⟨n, rfl⟩
      rw [after_zadd, World.setZset_self, ZSet.score_add, if_neg hm]
      exact hz
    | zrem k m =>
      obtain rfl := Option.some.inj hk
      rw [after_zrem, World.setZset_self, ZSet.score_rem]
      split
      · rfl
      · exact hz
    | del k =>
      obtain rfl := Option.some.inj hk
      rw [after_del, World.del_zsets_apply, if_pos rfl]
      rfl
    | _ => exact hz
  · rw [(SameAt.handle hk).zset]
    exact hz

/-- The only counter that is counted up is that of the players. -/
def Counts (cmd : Cmd) : Prop := ∀ k f n, cmd = .hincrby k f n → k = buildGlobalPlayerCountKey

theorem OnTask.counts {cmd : Cmd} (h : OnTask s c' type cmd) : Counts cmd := by
  rintro k f n rfl
  exact h

/-- A publisher key that is not written stays as it is or goes. -/
theorem pub_after {cmd : Cmd} (hclaims : ¬ Claims s cmd) (hcounts : Counts cmd) (w : World) :
    (handle cmd w).2.fieldsAt (buildPublisherKey s) = none ∨
      (handle cmd w).2.fieldsAt (buildPublisherKey s) = w.fieldsAt (buildPublisherKey s) := by
  by_cases hk : cmd.key = some (buildPublisherKey s)
  · cases cmd with
    | hset k f =>
      obtain rfl := Option.some.inj hk
      exact absurd ⟨f, rfl⟩ hclaims
    | hincrby k f n =>
      obtain rfl := Option.some.inj hk
      exact Key.noConfusion (hcounts _ f n rfl)
    | expire k n =>
      obtain rfl := Option.some.inj hk
      right
      rw [World.fieldsAt, after_expire, World.expire_self, Option.map_map]
      rfl
    | del k =>
      obtain rfl := Option.some.inj hk
      left
      rw [World.fieldsAt, after_del, World.del_hashes_self]
      rfl
    | _ => exact .inr rfl
  · right
    rw [World.fieldsAt, (SameAt.handle hk).hash]
    rfl

/-- The publisher key names a client only after it has been written. -/
theorem heldBy_after {cmd : Cmd} {w : World} (hclaims : ¬ Claims s cmd) (hcounts : Counts cmd)
    (h : HeldBy s x (handle cmd w).2) : HeldBy s x w := by
  obtain ⟨y, hy, hc⟩ := h
  have hf : (handle cmd w).2.fieldsAt (buildPublisherKey s) = some y.fields := by rw [World.fieldsAt, hy]; rfl
  rcases pub_after hclaims hcounts w with e | e
  · cases e.symm.trans hf
  · obtain ⟨z, hz, hzf⟩ := Option.map_eq_some_iff.1 (e.symm.trans hf)
    exact ⟨z, hz, hzf ▸ hc⟩

/-- The keys that the commands for a task write to. -/
theorem onTask_key {cmd : Cmd} (h : OnTask s' c' type cmd) (hw : ¬ Reads cmd) {k : Key} (hk : cmd.key = some k) :
    k = buildTaskKey s' c' ∨ (type = .PUBLISHER ∧ k = buildPublisherKey s') ∨ k = memberKey s' ∨
      k ∈ [buildGlobalPlayerCountKey, buildActivePublishersKey, buildTaskTimestampZSetKey] := by
  cases cmd with
  | hset l f =>
    obtain rfl := Option.some.inj hk
    exact h.imp And.left .inl
  | hincrby l f n =>
    obtain rfl := Option.some.inj hk
    obtain rfl : l = _ := h
    simp
  | sadd l m =>
    obtain rfl := Option.some.inj hk
    rcases h with ⟨rfl, -⟩ | ⟨-, rfl, -⟩ <;> simp
  | srem l m =>
    obtain rfl := Option.some.inj hk
    rcases h with ⟨rfl, -⟩ | ⟨-, rfl, -⟩ <;> simp
  | zadd l m n =>
    obtain rfl := Option.some.inj hk
    obtain ⟨rfl, -⟩ := h
    simp
  | zrem l m =>
    obtain rfl := Option.some.inj hk
    obtain ⟨rfl, -⟩ := h
    simp
  | expire l n => exact .inl (Option.some.inj hk ▸ h)
  | del l =>
    obtain rfl := Option.some.inj hk
    exact h.imp_right .inl
  | _ => exact absurd trivial hw

theorem Spares.reads {cmd : Cmd} (h : Reads cmd) (w : World) : Spares False s x T w (handle cmd w).2 := by
  rw [h.after w]
  exact Spares.refl False s x T w

/-- The commands for one task spare every task with another key, of another stream or, without the
publisher keys, of another client. -/
theorem OnTask.spares {cmd : Cmd} (h : OnTask s' c' type cmd)
    (hkey : buildTaskKey s x ≠ buildTaskKey s' c') (hs : s' ≠ s ∨ (c' ≠ x ∧ type = .PLAYER))
    (w : World) : Spares False s x T w (handle cmd w).2 := by
  by_cases hr : Reads cmd
  · exact Spares.reads hr w
  refine spares_of_kept (SameAt.handle fun e => ?_).hash ?_ (fun _ => (SameAt.handle fun e => ?_).hash)
    fun hm => mem_after hm ?_ ?_
  · rcases onTask_key h hr e with e | ⟨-, e⟩ | e | e
    · exact hkey e
    all_goals simp [buildTaskKey, buildPublisherKey, memberKey, buildGlobalPlayerCountKey, buildActivePublishersKey,
      buildTaskTimestampZSetKey] at e
  · rintro n rfl
    exact Key.noConfusion (h : buildPublisherKey s = buildTaskKey s' c')
  · rcases onTask_key h hr e with e | ⟨hp, e⟩ | e | e
    · exact Key.noConfusion e
    · exact hs.elim (fun hs => hs (Key.pub.inj e).symm) fun h => by cases hp.symm.trans h.2
    · exact Key.noConfusion e
    · simp [buildPublisherKey, buildGlobalPlayerCountKey, buildActivePublishersKey, buildTaskTimestampZSetKey] at e
  · rintro rfl
    rcases h with ⟨hk, rfl⟩ | ⟨-, hk, -⟩
    · exact hkey (by rw [Key.members.inj hk])
    · exact Key.noConfusion hk
  · rintro rfl
    rcases h with h | ⟨-, h⟩ <;> exact Key.noConfusion h

/-- `DEL` of the members of another stream. -/
theorem spares_del_members (hs : s' ≠ s) (w : World) : Spares False s x T w (handle (.del (memberKey s')) w).2 :=
  spares_of_kept (SameAt.handle (by rintro ⟨⟩)).hash (fun _ => by rintro ⟨⟩)
    (fun _ => (SameAt.handle (by rintro ⟨⟩)).hash)
    fun hm => mem_after hm (by rintro ⟨⟩) fun e => hs (Key.members.inj (Cmd.del.inj e))

/-- A client without a publisher's hash is not given one by commands for other tasks, nor by those
of a player. -/
theorem OnTask.noPublisher {cmd : Cmd} (h : OnTask s' c' type cmd)
    (hy : buildTaskKey s y ≠ buildTaskKey s' c' ∨ type = .PLAYER) {w : World}
    (hw : NoPublisher (w.fieldsAt (buildTaskKey s y))) :
    NoPublisher ((handle cmd w).2.fieldsAt (buildTaskKey s y)) := by
  have hsame : ∀ w' : World, w'.hashes (buildTaskKey s y) = w.hashes (buildTaskKey s y) →
      NoPublisher (w'.fieldsAt (buildTaskKey s y)) := fun w' e => by
    rw [World.fieldsAt, e]; exact hw
  cases cmd with
  | hset k f =>
    by_cases hk : buildTaskKey s y = k
    · subst hk
      rcases h with ⟨hk, hf⟩ | ⟨-, hk⟩
      · -- a player writes its own hash
        have htype := hy.resolve_left fun hne => hne hk
        intro t ht
        rw [after_hset, World.fieldsAt, World.hset_self] at ht
        obtain ⟨-, -, hty, -⟩ := deserialize_some ht
        have : some t.type.toString = some "player" := by
          rw [← hty]
          show (f .type).orElse _ = _
          rw [hf htype]; rfl
        cases hc : t.type with
        | PLAYER => rfl
        | PUBLISHER => rw [hc] at this; exact absurd this (by decide)
      · cases hk
    · exact hsame _ (World.hset_of_ne _ _ _ _ hk)
  | hincrby k f n =>
    obtain rfl : k = buildGlobalPlayerCountKey := h
    exact hsame _ (World.hset_of_ne _ _ _ _ (fun e => Key.noConfusion e))
  | expire k n =>
    by_cases hk : buildTaskKey s y = k
    · subst hk
      have : (w.expire (buildTaskKey s y) n).fieldsAt (buildTaskKey s y) = w.fieldsAt (buildTaskKey s y) := by
        rw [World.fieldsAt, World.expire_self, Option.map_map]; rfl
      rw [after_expire, this]
      exact hw
    · exact hsame _ (World.expire_of_ne _ _ _ _ hk)
  | del k =>
    by_cases hk : buildTaskKey s y = k
    · subst hk
      intro t ht
      rw [after_del, World.fieldsAt, World.del_hashes_self] at ht
      cases ht
    · exact hsame _ (World.del_hashes_of_ne _ _ _ hk)
  | _ => exact hw

theorem noPublisher_advance {k : Key} {w : World} (t : ℤ) (hw : NoPublisher (w.fieldsAt k)) :
    NoPublisher ((advance t w).fieldsAt k) := by
  rw [World.fieldsAt] at hw ⊢
  rcases hashes_advance t w k with e | e
  · rw [e]
    intro t' ht'
    cases ht'
  · rw [e]; exact hw

end Spare

/-! ### A request -/

section Request

variable {node_config : NodeConfig} {k : Hook} {type : StreamType} {V : (c : Cmd) → c.Reply → Prop}

/-- A request up to its registration, its registration and its answer. -/
theorem hook_phase {G Q : Cmd → Prop} {P : {α : Type} → RProg α → Prop} (hP : Prog.Phase G Q P)
    (hreads : ∀ cmd, Reads cmd → G cmd) (hregister : ∀ t : StreamTask, t.stream_name = k.stream_name →
      t.client_id = k.client_id → t.type = k.type → P (registerTask t)) :
    P (k.prog node_config) := by
  have hget : ∀ s, (getPublisherTask s).Only G := fun s =>
    (obeys_ask (hreads (.hgetall _) trivial) _ _).bind fun _ => trivial
  have hclock : systemClock.Only G := ⟨hreads _ trivial, fun _ _ => trivial⟩
  cases k with
  | publish r =>
    show P (onPublish node_config r)
    unfold onPublish createTask
    split
    · exact hP.ret _
    split
    · exact hP.ret _
    simp only [Prog.bind_assoc, Prog.pure_eq, Prog.ret_bind]
    refine hP.before hclock fun now => hP.before (hget _) fun _ => hP.after (hregister _ rfl rfl rfl) fun b => ?_
    cases b <;> trivial
  | play r =>
    show P (onPlay r)
    unfold onPlay createTask
    split
    · exact hP.ret _
    split
    · exact hP.ret _
    refine hP.before (hget _) fun pub => ?_
    cases pub with
    | none => exact hP.ret _
    | some pub =>
      simp only [Prog.bind_assoc, Prog.pure_eq, Prog.ret_bind]
      refine hP.before hclock fun now => hP.after (hregister _ rfl rfl rfl) fun b => ?_
      cases b <;> trivial

/-- A request sends only commands for its task. -/
theorem hook_obeys (ht : type = .PUBLISHER ∨ k.type = .PLAYER)
    (hV : type = .PUBLISHER ∨ ∀ f, V (.hgetall (buildTaskKey k.stream_name k.client_id)) f → NoPublisher f) :
    (k.prog node_config).Obeys V (OnTask k.stream_name k.client_id type) := by
  refine hook_phase (Prog.Obeys.phase V _) (fun cmd h => ?_) fun t hs hc hty => ?_
  · cases cmd <;> trivial
  · rw [← hs, ← hc] at hV ⊢
    exact registerTask_obeys (hty ▸ ht) hV

/-- A request keeps the store sound. -/
theorem hook_proper (k : Hook) : (k.prog node_config).Obeys TaskStamps Proper := by
  refine hook_phase (Prog.Obeys.phase _ _) (fun cmd h => ?_) fun t _ _ _ => registerTask_proper t
  cases cmd <;> trivial

/-- A request enters its client among the members once. -/
theorem hook_joins_once : (do let r ← k.prog node_config; return some r : RProg (Option SchedulerResult)).After
    (Joins k.stream_name k.client_id) fun cmd => ¬ Joins k.stream_name k.client_id cmd := by
  refine (hook_phase (Prog.After.phase _ _) (fun _ h => (removes_of_reads h).not_joins) fun t hs hc _ => ?_).bind_only
    fun _ => trivial
  rw [← hs, ← hc]
  exact registerTask_joins_once t

/-- A request writes the publisher key once. -/
theorem hook_claims_once (s : String) : (do
    let r ← k.prog node_config
    return some r : RProg (Option SchedulerResult)).After (Claims s) fun cmd => ¬ Claims s cmd :=
  Prog.After.bind_only (hook_phase (Prog.After.phase _ _) (fun _ h => (removes_of_reads h).not_claims) fun t _ _ _ =>
    registerTask_claims_once t s) fun _ => trivial

/-- A play request does not write it. -/
theorem hook_claims_none (hk : k.type ≠ .PUBLISHER) (s : String) : (do
    let r ← k.prog node_config
    return some r : RProg (Option SchedulerResult)).Only fun cmd => ¬ Claims s cmd := by
  refine Prog.Obeys.bind (hook_phase (Prog.Obeys.phase _ _) (fun _ h => (removes_of_reads h).not_claims)
    fun t _ _ hty => ?_)
    fun _ => trivial
  exact registerTask_claims_none (hty ▸ hk) s

/-- The time stamp of a request's task comes after the member. -/
theorem hook_stamps_last : (do let r ← k.prog node_config; return some r : RProg (Option SchedulerResult)).Until
    (Joins k.stream_name k.client_id) fun cmd => ¬ Stamps k.stream_name k.client_id cmd := by
  refine (hook_phase (Prog.Until.phase _ _) (fun _ h => (removes_of_reads h).not_stamps) fun t hs hc _ => ?_).bind
    fun _ => trivial
  rw [← hs, ← hc]
  exact registerTask_stamps_last t

/-- A successful answer to a request: its task is registered. -/
def Registers (k : Hook) (T B : ℤ) (res : Option SchedulerResult) (w : World) : Prop :=
  ∀ r, res = some r → r.isSuccess → ∃ t, r.task = some t ∧ t.stream_name = k.stream_name ∧
    t.client_id = k.client_id ∧ t.type = k.type ∧ Standing False t T B w

theorem not_registers {T B : ℤ} {r : SchedulerResult} (hr : ¬ r.isSuccess) {w : World} :
    (Prog.ret (some r) : RProg (Option SchedulerResult)).wp handle (Spares False k.stream_name k.client_id T)
      (Registers k T B) w := by
  rintro w' - r' ⟨⟩ hs
  exact absurd hs hr

/-- The end of a request: it registers its task and answers. -/
theorem register_upto {T B : ℤ} {t : StreamTask} (hs : t.stream_name = k.stream_name)
    (hc : t.client_id = k.client_id) (ht : t.type = k.type) {ok bad : SchedulerResult}
    (hok : ok.task = some t) (hbad : ¬ bad.isSuccess) :
    (do
      let r ← (do if ← registerTask t then return ok else return bad : RProg SchedulerResult)
      return some r : RProg (Option SchedulerResult)).Upto Reads fun p =>
      ∀ w, Early k.stream_name B w →
        p.wp handle (Spares False k.stream_name k.client_id T) (Registers k T B) w := by
  rw [Prog.bind_assoc, ← hs, ← hc]
  refine (registerTask_upto (A := False) (T := T) (B := B)).bind (fun p hp w hw => ?_) fun b hb => ?_
  · refine Prog.wp_bind (Spares.refl False _ _ T) (Prog.wp_mono (fun b w' hb => ?_) (hp w hw))
    cases b with
    | false => exact hs ▸ hc ▸ not_registers hbad
    | true =>
      rintro w'' hw'' r ⟨⟩ -
      exact ⟨t, hok, hs, hc, ht, (hb rfl).spares hw''⟩
  · cases b <;> exact hb

/-- A request that has only read so far, whatever it has read: if it succeeds, its task stands. -/
theorem hook_upto (T B : ℤ) :
    (do let r ← k.prog node_config; return some r : RProg (Option SchedulerResult)).Upto Reads fun p =>
      ∀ w, Early k.stream_name B w →
        p.wp handle (Spares False k.stream_name k.client_id T) (Registers k T B) w := by
  cases k with
  | publish r =>
    show Prog.Upto _ _ (onPublish node_config r >>= _)
    unfold onPublish
    split
    · exact fun w _ => not_registers (by decide)
    split
    · exact fun w _ => not_registers (by decide)
    refine ⟨fun _ now => ⟨fun _ f => ?_, fun h => absurd trivial h⟩, fun h => absurd trivial h⟩
    exact register_upto (k := .publish r)
      (t := newTask r .PUBLISHER (selectBestNode node_config r.nodeIndex r.protocol).1
        (selectBestNode node_config r.nodeIndex r.protocol).2 now) rfl rfl rfl rfl (by decide)
  | play r =>
    show Prog.Upto _ _ (onPlay r >>= _)
    unfold onPlay
    split
    · exact fun w _ => not_registers (by decide)
    split
    · exact fun w _ => not_registers (by decide)
    refine ⟨fun _ f => ?_, fun h => absurd trivial h⟩
    dsimp only [Prog.pure_eq, Prog.bind]
    split
    · exact fun w _ => not_registers (by decide)
    · rename_i pub _
      refine ⟨fun _ now => ?_, fun h => absurd trivial h⟩
      exact register_upto (k := .play r) (t := newTask r .PLAYER pub.server_ip pub.server_port now)
        rfl rfl rfl rfl (by decide)

end Request

/-! ### The iteration -/

/-- The commands of the cascade for a stream. -/
def OnStream (stream_name : String) (cmd : Cmd) : Prop :=
  cmd = .del (memberKey stream_name) ∨ ∃ c, OnTask stream_name c .PUBLISHER cmd

/-- The last command of the cascade for a stream. -/
def Sweep (s : String) (cmd : Cmd) : Prop := cmd = .del (memberKey s)

/-- A command that is not the last of a cascade. -/
abbrev NoSweep (s : String) (cmd : Cmd) : Prop := ¬ Sweep s cmd

theorem OnTask.noSweep {s s' c' : String} {type : StreamType} {cmd : Cmd} (h : OnTask s' c' type cmd) :
    NoSweep s cmd := by
  rintro rfl
  rcases h with h | ⟨-, h⟩ <;> cases h

theorem deregisterTask_only (s c : String) : (deregisterTask s c).Only (OnTask s c .PUBLISHER) :=
  deregisterTask_obeys (.inl rfl)

theorem scanLoop_only (s : String) (now_ms timeout : ℤ) (keys : List Key) :
    (scanLoop now_ms timeout keys).Only (NoSweep s) := by
  induction keys with
  | nil => trivial
  | cons k keys ih =>
    refine Prog.Obeys.bind (obeys_ask (by exact nofun) _ _) fun b => ?_
    cases b with
    | false => exact ih
    | true =>
      refine Prog.Obeys.bind (Prog.Obeys.bind (obeys_ask (by exact nofun) _ _) fun _ => trivial) fun t => ?_
      cases t with
      | none => exact ih
      | some t =>
        show Prog.Only _ (if now_ms - ms t.last_active_time < timeout then _ else _)
        split
        · exact Prog.Obeys.bind (obeys_ask (by exact nofun) _ _) fun _ => ih
        · refine Prog.Obeys.bind ?_ fun _ => ih.bind fun _ => trivial
          exact (deregisterTask_only _ _).mono (fun _ _ => id) fun _ => OnTask.noSweep

theorem scanTimeoutTasks_only (s : String) (timeout : ℤ) :
    (scanTimeoutTasks timeout).Only (NoSweep s) := by
  have hclock : systemClock.Only (NoSweep s) := ⟨nofun, fun _ _ => trivial⟩
  refine hclock.bind fun now => Prog.Obeys.bind (obeys_ask ?_ _ _) fun _ => scanLoop_only s _ _ _
  exact nofun

/-- The part of a cascade before its last command. -/
def sweepMembers (stream_name : String) : RProg Unit := do
  let clientIds ← getStreamClientIds stream_name
  if clientIds = [] then return ()
  else do
    let tasks ← collectMembers stream_name clientIds
    let _ ← deregisterTasksBatch tasks
    return ()

theorem deregisterAllMembers_eq (s : String) :
    deregisterAllMembers s = do
      sweepMembers s
      let _ ← keyDel (memberKey s)
      return () := by
  unfold deregisterAllMembers sweepMembers
  rw [Prog.bind_assoc]
  congr 1
  funext cids
  split
  · rfl
  · simp only [Prog.bind_assoc, Prog.pure_eq, Prog.ret_bind]

theorem sweepMembers_only (s : String) :
    (sweepMembers s).Only fun cmd => ∃ c, OnTask s c .PUBLISHER cmd := by
  refine Prog.Obeys.bind (obeys_ask ⟨"", trivial⟩ _ _) fun cids => ?_
  split
  · trivial
  · refine Prog.Obeys.bind_leaves (obeys_collectMembers (fun _ => ⟨"", trivial⟩) s cids)
      (collectMembers_leaves s cids) fun ts hts => (obeys_batch fun t ht cmd hcmd => ?_).bind fun _ => trivial
    exact ⟨t.clientId, (hts t ht).1 ▸ batchCmds_onTask (.inl rfl) cmd hcmd⟩

theorem deregisterAllMembers_only (s : String) : (deregisterAllMembers s).Only (OnStream s) := by
  rw [deregisterAllMembers_eq]
  refine Prog.Obeys.bind ((sweepMembers_only s).mono (fun _ _ => id) fun _ => .inr) fun _ => ?_
  exact Prog.Obeys.bind (obeys_ask (.inl rfl) _ _) fun _ => trivial

/-- The commands that leave a stream alone: those of the cascades for other streams. -/
def OffStream (s : String) (cmd : Cmd) : Prop := ∃ s', s' ≠ s ∧ OnStream s' cmd

theorem deregisterStreams_only {s : String} {streams : List String} (hs : s ∉ streams) :
    (deregisterStreams streams).Only (OffStream s) := by
  induction streams with
  | nil => trivial
  | cons s' streams ih =>
    rw [List.mem_cons, not_or] at hs
    exact Prog.Obeys.bind ((deregisterAllMembers_only s').mono (fun _ _ => id)
      fun _ h => ⟨s', fun e => hs.1 e.symm, h⟩) fun _ => ih hs.2

/-- After the cascade for a stream the iteration is done with it. -/
theorem deregisterStreams_after (s : String) {streams : List String} (hn : streams.Nodup) :
    (deregisterStreams streams).After (Sweep s) (OffStream s) := by
  induction streams with
  | nil => trivial
  | cons s' streams ih =>
    obtain ⟨hmem, hn⟩ := List.nodup_cons.1 hn
    rw [deregisterStreams, deregisterAllMembers_eq, Prog.bind_assoc]
    refine Prog.After.bind ((sweepMembers_only s').mono (fun _ _ => id)
      fun _ ⟨_, h⟩ => OnTask.noSweep h) fun _ r => ?_
    refine ⟨fun hdel => ?_, ?_⟩
    · obtain rfl : s' = s := Key.members.inj (Cmd.del.inj hdel)
      exact deregisterStreams_only hmem
    · exact ih hn

theorem timeoutCleanup_after (s : String) (task_timeout : ℤ) :
    (timeoutCleanup task_timeout).After (Sweep s) (OffStream s) := by
  refine Prog.After.bind (scanTimeoutTasks_only s _) fun expired => ?_
  unfold cleanExpired
  split
  · trivial
  · refine Prog.After.bind (obeys_batch fun _ _ cmd hcmd => OnTask.noSweep (batchCmds_onTask (.inl rfl) cmd hcmd))
      fun _ => ?_
    exact deregisterStreams_after s (nodup_publisherDiedStreams expired)

/-! ### What the iteration can touch -/

/-- The commands of an iteration, each of which may be assumed to be of the kind `G`: it works on keys with `K`, which
are those that the scan reads, and on clients with `I`, which it finds there or among the members of a stream. -/
theorem timeoutCleanup_obeys_of {V : (c : Cmd) → c.Reply → Prop} {G : Cmd → Prop} {K : Key → Prop}
    {I : String → String → Prop} (hreads : ∀ cmd, Reads cmd → G cmd)
    (hscan : ∀ lo hi (keys : List Key), V (.zrangebyscore buildTaskTimestampZSetKey lo hi) keys → ∀ k ∈ keys, K k)
    (hzrem : ∀ k, G (.zrem buildTaskTimestampZSetKey k))
    (hzadd : ∀ k x, K k → G (.zadd buildTaskTimestampZSetKey k x))
    (hfound : ∀ k f t, K k → V (.hgetall k) f → readTask f = some t → I t.stream_name t.client_id)
    (hmember : ∀ s (members : List String), V (.smembers (memberKey s)) members → ∀ c ∈ members, I s c)
    (hbatch : ∀ s c ty, I s c → ∀ cmd ∈ batchCmds ⟨s, c, ty⟩, G cmd) (hdel : ∀ s, G (.del (memberKey s)))
    (task_timeout : ℤ) : (timeoutCleanup task_timeout).Obeys V G := by
  have hread : ∀ k, G (.smembers k) ∧ G (.hgetall k) := fun k => ⟨hreads _ trivial, hreads _ trivial⟩
  have hdereg : ∀ s c, I s c → (deregisterTask s c).Obeys V G := fun s c hI =>
    deregisterTask_obeys_of (fun k => (hread k).2) (hzrem _) fun f t _ _ => hbatch s c t.type hI
  have hloop : ∀ now_ms (keys : List Key), (∀ k ∈ keys, K k) →
      (scanLoop now_ms (1000 * task_timeout) keys).Obeys V G := fun now_ms keys hkeys =>
    scanLoop_obeys_of (fun k _ => hzrem k) (fun k => (hread k).2) (fun k hk x => hzadd k x (hkeys k hk))
      fun k hk f t hf ht => hdereg _ _ (hfound k f t (hkeys k hk) hf ht)
  have hgives : ∀ now_ms (keys : List Key), (∀ k ∈ keys, K k) → (scanLoop now_ms (1000 * task_timeout) keys).Gives V
      fun expired => ∀ t ∈ expired, I t.stream_name t.client_id := fun now_ms keys hkeys =>
    scanLoop_gives fun k hk f t hf ht => hfound k f t (hkeys k hk) hf ht
  have hstreams : ∀ streams, (deregisterStreams streams).Obeys V G := fun streams => by
    induction streams with
    | nil => trivial
    | cons s streams ih =>
      refine (deregisterAllMembers_obeys_of hread (fun members hmembers c hc ty => ?_) (hdel s)).bind fun _ => ih
      exact hbatch s c ty (hmember s members hmembers c hc)
  refine Prog.Obeys.bind_gives (P := fun expired => ∀ t ∈ expired, I t.stream_name t.client_id) ?_ ?_
    fun expired hex => ?_
  · refine ⟨hreads _ trivial, fun (now : ℤ) _ => ⟨hreads _ trivial, fun keys hkeys => ?_, ?_⟩⟩
    · exact hloop _ _ (hscan _ _ keys hkeys)
    · exact hloop (ms now) [] fun _ h => by cases h
  · refine fun (now : ℤ) _ => ⟨fun keys hkeys => ?_, ?_⟩
    · exact hgives _ _ (hscan _ _ keys hkeys)
    · exact hgives (ms now) [] fun _ h => by cases h
  · unfold cleanExpired
    split
    · trivial
    · refine (obeys_batch fun id hid => ?_).bind fun _ => hstreams _
      obtain ⟨t, ht, rfl⟩ := List.mem_map.1 hid
      exact hbatch _ _ _ (hex t ht)

/-- An iteration takes things away, and puts time stamps back. -/
def Strips : Cmd → Prop
  | .hset _ _ | .sadd _ _ | .expire _ _ => False
  | .hincrby k _ _ => k = buildGlobalPlayerCountKey
  | _ => True

theorem strips_of_removes {cmd : Cmd} (h : Removes cmd) : Strips cmd := by
  cases cmd <;> first | exact h | trivial

theorem timeoutCleanup_strips (task_timeout : ℤ) : (timeoutCleanup task_timeout).Only Strips :=
  timeoutCleanup_obeys_of (K := fun _ => True) (I := fun _ _ => True)
    (fun _ h => strips_of_removes (removes_of_reads h))
    (fun _ _ _ _ _ _ => trivial) (fun _ => trivial) (fun _ _ _ => trivial) (fun _ _ _ _ _ _ => trivial)
    (fun _ _ _ _ _ => trivial) (fun s c ty _ cmd hcmd => strips_of_removes (batchCmds_removes ⟨s, c, ty⟩ cmd hcmd))
    (fun _ => trivial) task_timeout

theorem timeoutCleanup_proper (task_timeout : ℤ) : (timeoutCleanup task_timeout).Obeys TaskStamps Proper :=
  timeoutCleanup_obeys_of (K := fun k => ∃ body, k = .task body) (I := fun _ _ => True)
    (fun cmd h => by cases cmd <;> trivial) (fun _ _ _ h => h rfl) (fun _ => trivial) (fun _ _ hk _ => hk)
    (fun _ _ _ _ _ _ => trivial) (fun _ _ _ _ _ => trivial) (fun s c ty _ => batchCmds_proper ⟨s, c, ty⟩)
    (fun _ => trivial) task_timeout

/-- The commands that keep away from the registration of a client, but for the publisher key and the members as a
whole. -/
def Clears (s x : String) (cmd : Cmd) : Prop :=
  Strips cmd ∧ cmd ≠ .srem (memberKey s) x ∧ cmd ≠ .del (buildTaskKey s x) ∧ ¬ Stamps s x cmd

/-- Replies in which the client does not show: the time stamps and the members that are read are others.  The names in
the hash of a task are those of its key. -/
def Unseen (s x : String) : (c : Cmd) → c.Reply → Prop
  | .zrangebyscore k _ _ => fun (keys : List Key) =>
    k = buildTaskTimestampZSetKey → ∀ m ∈ keys, m ≠ buildTaskKey s x ∧ ∃ body, m = .task body
  | .smembers k => fun (members : List String) => k = memberKey s → x ∉ members
  | .hgetall k => fun f => ∀ t, readTask f = some t → (∃ body, k = .task body) → t.key = k
  | _ => fun _ => True

theorem batchCmds_clears {s x s' c : String} (h : buildTaskKey s' c ≠ buildTaskKey s x) (ty : StreamType) :
    ∀ cmd ∈ batchCmds ⟨s', c, ty⟩, Clears s x cmd := by
  intro cmd hcmd
  refine ⟨strips_of_removes (batchCmds_removes _ cmd hcmd), ?_, ?_, (batchCmds_removes _ cmd hcmd).not_stamps⟩
  · rintro rfl
    rcases (batchCmds_onTask (.inl rfl) _ hcmd : OnTask s' c .PUBLISHER _) with ⟨hk, hm⟩ | ⟨-, hk, -⟩
    · exact h (by rw [Key.members.inj hk, hm])
    · cases hk
  · rintro rfl
    rcases (batchCmds_onTask (.inl rfl) _ hcmd : OnTask s' c .PUBLISHER _) with hk | ⟨-, hk⟩
    · exact h hk.symm
    · cases hk

/-- **An iteration that does not see a client keeps away from it.** -/
theorem timeoutCleanup_clears {s x : String} (hs : NoColon s) (hx : NoColon x) (task_timeout : ℤ) :
    (timeoutCleanup task_timeout).Obeys (Unseen s x) (Clears s x) := by
  refine timeoutCleanup_obeys_of (K := fun k => k ≠ buildTaskKey s x ∧ ∃ body, k = .task body)
    (I := fun s' c => buildTaskKey s' c ≠ buildTaskKey s x) (fun cmd h => ?_) (fun _ _ keys hkeys => hkeys rfl)
    (fun _ => ⟨trivial, by rintro ⟨⟩, by rintro ⟨⟩, by rintro ⟨x, ⟨⟩⟩⟩) (fun k n hk => ?_)
    (fun k f t hk hf ht => ?_) (fun s' members hmembers c hc e => ?_) (fun _ _ ty h => batchCmds_clears h ty)
    (fun _ => ⟨trivial, by rintro ⟨⟩, by rintro ⟨⟩, by rintro ⟨x, ⟨⟩⟩⟩) task_timeout
  · refine ⟨strips_of_removes (removes_of_reads h), ?_, ?_, (removes_of_reads h).not_stamps⟩
    · rintro rfl
      exact h
    · rintro rfl
      exact h
  · refine ⟨trivial, by rintro ⟨⟩, by rintro ⟨⟩, ?_⟩
    rintro ⟨_, ⟨⟩⟩
    exact hk.1 rfl
  · exact fun e => hk.1 ((hf t ht hk.2).symm.trans e)
  · obtain ⟨rfl, rfl⟩ := taskKey_inj_of_noColon hs hx e.symm
    exact hmembers rfl hc

end StreamGate.Scheduler
