import StreamGate.Lib.Debts
import StreamGate.State.Stores

/-!
# The time to live of a task

The hash of a task is written before its time to live is set, by a registration and by a heartbeat, and other
calls come in between.  In every interleaving a hash without a time to live belongs to a call that comes to set
it or to delete the hash, unless the `DEL` of a call has failed; any other hash had its time to live set within
the last `TASK_TTL_SEC` (`no_immortal_task`).
-/

namespace StreamGate.State

open StreamGate.Redis StreamGate.Task StreamGate.Lib

/-! ### Opening and closing a hash -/

/-- The hash of a task that a command may create. -/
def taskWritten : Cmd → Option Key
  | .hset (.task body) _ | .hincrby (.task body) _ _ => some (.task body)
  | _ => none

/-- The time to live of a task is set, or its hash deleted. -/
def Bounds (k : Key) (c : Cmd) : Prop := c = .expire k TASK_TTL_SEC ∨ c = .del k

/-- The deletion of a task. -/
def DeletesTask (c : Cmd) : Prop := ∃ body, c = .del (.task body)

/-- The hash of a task that never runs out. -/
def Endless (k : Key) (w : World) : Prop := ∃ body x, k = .task body ∧ w.hashes k = some x ∧ x.expireAt = none

section Hashes

variable {w : World} {k : Key} {x : Hash}

/-- A hash after a command was there before with the same time to live, or is one that the command has written,
or has had its time to live set. -/
theorem hash_after {c : Cmd} (h : (handle c w).2.hashes k = some x) :
    (∃ y, w.hashes k = some y ∧ y.expireAt = x.expireAt ∧ (∀ n, c ≠ .expire k n) ∧ c ≠ .del k) ∨
    (x.expireAt = none ∧ ((∃ f, c = .hset k f) ∨ ∃ f n, c = .hincrby k f n)) ∨
    ∃ n, c = .expire k n ∧ x.expireAt = some (ms w.clock + 1000 * n) := by
  have hwrite : ∀ {l : Key} {f : Fields}, (w.hset l f).hashes k = some x →
      (∃ y, w.hashes k = some y ∧ y.expireAt = x.expireAt) ∨ (x.expireAt = none ∧ l = k) := by
    intro l f h
    rw [World.hset_apply] at h
    split at h
    · rename_i hk
      obtain rfl := Option.some.inj h
      subst hk
      cases hold : w.hashes k with
      | none => exact .inr ⟨by simp, rfl⟩
      | some y => exact .inl ⟨y, rfl, by simp⟩
    · exact .inl ⟨x, h, rfl⟩
  cases c with
  | hset l f =>
    rcases hwrite h with ⟨y, hy, he⟩ | ⟨he, rfl⟩
    · exact .inl ⟨y, hy, he, nofun, nofun⟩
    · exact .inr (.inl ⟨he, .inl ⟨f, rfl⟩⟩)
  | hincrby l f n =>
    rcases hwrite h with ⟨y, hy, he⟩ | ⟨he, rfl⟩
    · exact .inl ⟨y, hy, he, nofun, nofun⟩
    · exact .inr (.inl ⟨he, .inr ⟨f, n, rfl⟩⟩)
  | expire l n =>
    rw [after_expire, World.expire_apply] at h
    split at h
    · rename_i hk
      subst hk
      obtain ⟨y, -, rfl⟩ := Option.map_eq_some_iff.1 h
      exact .inr (.inr ⟨n, rfl, rfl⟩)
    · rename_i hk
      exact .inl ⟨x, h, rfl, fun m e => hk (by cases e; rfl), nofun⟩
  | del l =>
    rw [after_del, World.del_hashes_apply] at h
    split at h
    · cases h
    · rename_i hk
      exact .inl ⟨x, h, rfl, nofun, fun e => hk (by cases e; rfl)⟩
  | _ => exact .inl ⟨x, h, rfl, nofun, nofun⟩

/-- An endless hash is one that the command has written, or was endless before. -/
theorem endless_after {c : Cmd} (h : Endless k (handle c w).2) :
    taskWritten c = some k ∨ (Endless k w ∧ ¬ Bounds k c) := by
  obtain ⟨body, x, rfl, hx, he⟩ := h
  rcases hash_after hx with ⟨y, hy, hye, hexpire, hdel⟩ | ⟨-, ⟨f, rfl⟩ | ⟨f, n, rfl⟩⟩ | ⟨n, -, hn⟩
  · exact .inr ⟨⟨body, y, rfl, hy, hye.trans he⟩, fun hb => hb.elim (hexpire _) hdel⟩
  · exact .inl rfl
  · exact .inl rfl
  · cases he.symm.trans hn

theorem endless_advance {t : ℤ} (h : Endless k (advance t w)) : Endless k w := by
  obtain ⟨body, x, rfl, hx, he⟩ := h
  rcases hashes_advance t w (.task body) with hnone | hsame
  · cases hx.symm.trans hnone
  · exact ⟨body, x, rfl, hsame ▸ hx, he⟩

/-- A hash that is still there has not run out. -/
theorem le_of_advance {t d : ℤ} (h : (advance t w).hashes k = some x) (hd : x.expireAt = some d)
    (hw : ms w.clock ≤ d) : w.hashes k = some x ∧ ms (advance t w).clock ≤ d := by
  unfold advance at h ⊢
  split at h
  · rename_i ht
    rw [if_pos ht]
    obtain ⟨hx, hlive⟩ := Option.filter_eq_some_iff.1 h
    refine ⟨hx, ?_⟩
    simpa [Hash.expired, hd] using hlive
  · rename_i ht
    rw [if_neg ht]
    exact ⟨h, hw⟩

theorem clock_le_advance (t : ℤ) (w : World) : w.clock ≤ (advance t w).clock := by
  unfold advance
  split
  · assumption
  · exact Int.le_refl _

/-- What has run out is gone. -/
theorem advance_of_expired {t d : ℤ} (hx : w.hashes k = some x) (hd : x.expireAt = some d) (ht : w.clock ≤ t)
    (h : d < ms t) : (advance t w).hashes k = none := by
  unfold advance
  rw [if_pos ht]
  show Option.filter _ (w.hashes k) = none
  rw [hx]
  exact Option.filter_some_neg (by simp [Hash.expired, hd, h])

end Hashes

/-! ### The calls settle -/

/-- The program sets the time to live of each hash that it writes, or deletes it. -/
abbrev SetsTime {α : Type} (p : RProg α) : Prop := p.Settles taskWritten Bounds DeletesTask none

/-- There is one time to live. -/
def Timed (c : Cmd) : Prop := ∀ k n, c = .expire k n → n = TASK_TTL_SEC

/-- A command that writes no task. -/
def Regulated (c : Cmd) : Prop := taskWritten c = none ∧ Timed c

theorem setsTime_of_regulated {α : Type} {p : RProg α} (hp : p.Only Regulated) : SetsTime p ∧ p.Only Timed :=
  ⟨Prog.Only.settles (hp.mono (fun _ _ h => h) fun _ h => h.1), hp.mono (fun _ _ h => h) fun _ h => h.2⟩

section Calls

variable {t : StreamTask}

theorem batchCmds_regulated (id : TaskIdentifier) : ∀ cmd ∈ batchCmds id, Regulated cmd := by
  obtain ⟨s, c, ty⟩ := id
  cases ty <;>
    simp [batchCmds, Regulated, Timed, taskWritten, buildTaskKey, buildGlobalPlayerCountKey]

theorem deregisterTask_regulated (s c : String) : (deregisterTask s c).Only Regulated :=
  deregisterTask_obeys_of (fun _ => ⟨rfl, nofun⟩) ⟨rfl, nofun⟩ fun _ t _ _ => batchCmds_regulated ⟨s, c, t.type⟩

theorem deregisterAllMembers_regulated (s : String) : (deregisterAllMembers s).Only Regulated :=
  deregisterAllMembers_obeys_of (fun _ => ⟨⟨rfl, nofun⟩, rfl, nofun⟩)
    (fun _ _ c _ ty => batchCmds_regulated ⟨s, c, ty⟩) ⟨rfl, nofun⟩

theorem scanTimeoutTasks_regulated (timeout : ℤ) : (scanTimeoutTasks timeout).Only Regulated := by
  have hloop : ∀ now_ms keys, (scanLoop now_ms timeout keys).Only Regulated := fun _ _ =>
    scanLoop_obeys_of (fun _ _ => ⟨rfl, nofun⟩) (fun _ => ⟨rfl, nofun⟩) (fun _ _ _ => ⟨rfl, nofun⟩)
      fun _ _ _ t _ _ => deregisterTask_regulated t.stream_name t.client_id
  exact ⟨⟨rfl, nofun⟩, fun _ _ => ⟨⟨rfl, nofun⟩, fun _ _ => hloop _ _, hloop _ _⟩⟩

theorem registerIndices_regulated (t : StreamTask) : (registerIndices t).Only Regulated := by
  have hback : (rollBack t).Only Regulated := (deregisterTask_regulated _ _).bind fun _ => trivial
  have hstamp : (registerTimestamp t).Only Regulated := by
    refine ⟨⟨rfl, fun _ _ h => by cases h⟩, fun (now : ℤ) _ => ?_⟩
    show Prog.Obeys _ _ (if ¬ Reasonable (ms now) then rollBack t else _)
    split
    · exact hback
    · refine (obeys_ask ⟨rfl, fun _ _ h => by cases h⟩ _ _).bind fun b => ?_
      cases b
      · exact hback
      · trivial
  have hend : ∀ b : Bool, (if b then registerTimestamp t else rollBack t : RProg Bool).Only Regulated := fun b => by
    cases b
    · exact hback
    · exact hstamp
  unfold registerIndices
  split
  · refine Prog.Obeys.bind (Prog.Obeys.bind ((obeys_ask ⟨rfl, fun _ _ h => by cases h⟩ _ _).bind fun _ => trivial)
    fun current => ?_) hend
    split
    · trivial
    · exact obeys_pipeline (by simp [Regulated, Timed, taskWritten, buildPublisherKey])
  · refine Prog.Obeys.bind ((obeys_ask ⟨rfl, fun _ _ h => by cases h⟩ _ _).bind fun b => ?_) hend
    cases b
    · trivial
    · exact Prog.Obeys.bind (obeys_ask ⟨rfl, fun _ _ h => by cases h⟩ _ _) fun _ => trivial

/-- What a registration does before it writes: it looks at the stream, and takes out an old task of the same client. -/
def registerTask.lead (t : StreamTask) : RProg Bool :=
  if t.type = .PUBLISHER then do
    match ← getPublisherTask t.stream_name with
    | none => return true
    | some existing_pub =>
      if existing_pub.client_id ≠ t.client_id then return false
      else do
        let _ ← deregisterTask t.stream_name t.client_id
        return true
  else do
    if ← keyExists t.key then do
      let _ ← deregisterTask t.stream_name t.client_id
      return true
    else return true

theorem registerTask_lead (t : StreamTask) :
    registerTask t = registerTask.lead t >>= fun go => if go then registerHash t else .ret false := by
  by_cases ht : t.type = .PUBLISHER
  · rw [registerTask, registerTask.lead, if_pos ht, if_pos ht, Prog.bind_assoc]
    refine congrArg _ (funext fun existing => ?_)
    cases existing with
    | none => rfl
    | some e =>
      dsimp only
      split
      · rfl
      · rw [Prog.bind_assoc]
        rfl
  · rw [registerTask, registerTask.lead, if_neg ht, if_neg ht, Prog.bind_assoc]
    refine congrArg _ (funext fun b => ?_)
    cases b
    · rfl
    · rw [if_pos rfl, if_pos rfl, Prog.bind_assoc]
      rfl

theorem registerTask_lead_regulated (t : StreamTask) : (registerTask.lead t).Only Regulated := by
  have hagain : (do
      let _ ← deregisterTask t.stream_name t.client_id
      return true : RProg Bool).Only Regulated := (deregisterTask_regulated _ _).bind fun _ => trivial
  unfold registerTask.lead
  split
  · refine Prog.Obeys.bind ((obeys_ask ⟨rfl, fun _ _ h => by cases h⟩ _ _).bind fun _ => trivial) fun existing => ?_
    cases existing with
    | none => trivial
    | some e =>
      show Prog.Obeys _ _ (if e.client_id ≠ t.client_id then (return false) else _)
      split
      · trivial
      · exact hagain
  · refine Prog.Obeys.bind (obeys_ask ⟨rfl, fun _ _ h => by cases h⟩ _ _) fun b => ?_
    cases b
    · trivial
    · exact hagain

/-- The time to live is set at once, or else the hash deleted. -/
theorem registerHash_setsTime (t : StreamTask) : SetsTime (registerHash t) := by
  have hrest : SetsTime (registerIndices t) := (setsTime_of_regulated (registerIndices_regulated t)).1
  have hundo : ∀ owed, (∀ k, owed = some k → k = t.key) →
      (do let _ ← keyDel t.key; return false : RProg Bool).Settles taskWritten Bounds DeletesTask owed :=
    fun owed ho => ⟨fun k hk => .inr (ho k hk ▸ rfl), fun _ => rfl, fun h => absurd ⟨_, rfl⟩ h⟩
  refine ⟨nofun, fun _ => ?_, fun _ => rfl⟩
  refine ⟨fun k hk => .inl (Option.some.inj hk ▸ rfl), fun (alive : Bool) => ?_, fun _ => ?_⟩
  · cases alive
    · exact hundo none nofun
    · exact hrest
  · exact hundo _ fun k hk => (Option.some.inj hk).symm

theorem registerHash_timed (t : StreamTask) : (registerHash t).Only Timed := by
  have hundo : (do let _ ← keyDel t.key; return false : RProg Bool).Only Timed :=
    (obeys_ask nofun _ _).bind fun _ => trivial
  refine Prog.Obeys.bind (obeys_ask nofun _ _) fun b => ?_
  cases b
  · trivial
  refine Prog.Obeys.bind (obeys_ask (fun _ _ h => by cases h; rfl) _ _) fun b => ?_
  cases b
  · exact hundo
  · exact (setsTime_of_regulated (registerIndices_regulated t)).2

/-- The second command of a heartbeat sets the time to live. -/
theorem touchTask_setsTime (s c : String) : SetsTime (touchTask s c) := by
  refine ⟨nofun, fun (now : ℤ) => ⟨nofun, fun _ => ?_, fun _ => rfl⟩⟩
  refine ⟨fun k hk => .inl (Option.some.inj hk ▸ rfl), fun (alive : Bool) => ⟨nofun, fun _ => ?_⟩⟩
  show Prog.Settles _ _ _ _ (if alive then (.ret true : RProg Bool) else _)
  split
  · rfl
  · exact ⟨nofun, fun _ => rfl, fun _ => rfl⟩

theorem touchTask_timed (s c : String) : (touchTask s c).Only Timed := by
  refine ⟨nofun, fun (now : ℤ) _ => ⟨nofun, fun _ _ => ?_, trivial⟩⟩
  refine ⟨fun _ _ h => by cases h; rfl, fun (alive : Bool) _ => ⟨nofun, fun _ _ => ?_⟩⟩
  show Prog.Obeys _ _ (if alive then (.ret true : RProg Bool) else _)
  split
  · trivial
  · exact (obeys_ask nofun _ _).bind fun _ => trivial

/-- Every call settles, and uses the one time to live. -/
theorem Call.setsTime (call : Call) : SetsTime call.prog ∧ call.prog.Only Timed := by
  cases call with
  | register t =>
    have hp := registerTask_lead_regulated t
    show SetsTime (registerTask t >>= fun _ => .ret ()) ∧ Prog.Only Timed (registerTask t >>= fun _ => .ret ())
    rw [registerTask_lead]
    refine ⟨Prog.Settles.bind ((setsTime_of_regulated hp).1.bind fun go => ?_) fun _ => rfl,
      Prog.Obeys.bind ((setsTime_of_regulated hp).2.bind fun go => ?_) fun _ => trivial⟩
    · cases go
      · rfl
      · exact registerHash_setsTime t
    · cases go
      · trivial
      · exact registerHash_timed t
  | deregister s c => exact setsTime_of_regulated ((deregisterTask_regulated s c).bind fun _ => trivial)
  | deregisterAll s => exact setsTime_of_regulated (deregisterAllMembers_regulated s)
  | batch tasks => exact setsTime_of_regulated ((obeys_batch fun t _ => batchCmds_regulated t).bind fun _ => trivial)
  | touch s c => exact ⟨(touchTask_setsTime s c).bind fun _ => rfl, (touchTask_timed s c).bind fun _ => trivial⟩
  | scan timeout => exact setsTime_of_regulated ((scanTimeoutTasks_regulated timeout).bind fun _ => trivial)

end Calls

/-! ### Every interleaving -/

section Runs

variable {ι : Type} [DecidableEq ι]

/-- The time to live of `k` that ends at `d` was set by an `EXPIRE` of the run. -/
def Renewed (c₀ : Conf iface World ι Unit) (es : List (Ev ι ℤ)) (k : Key) (d : ℤ) : Prop :=
  ∃ past i rest m, es = past ++ .run i :: rest ∧ c₀.exec machine past = some m ∧
    (m.thr i).head = some (.expire k TASK_TTL_SEC) ∧ d = ms m.st.clock + 1000 * TASK_TTL_SEC

/-- What is known of a time to live that has been set. -/
structure Dated (c₀ : Conf iface World ι Unit) (es : List (Ev ι ℤ)) (w : World) (k : Key) (d : ℤ) : Prop where
  live : ms w.clock ≤ d
  soon : d ≤ ms w.clock + 1000 * TASK_TTL_SEC
  renewed : Renewed c₀ es k d

variable {c₀ c : Conf iface World ι Unit} {es : List (Ev ι ℤ)}

theorem Renewed.append {k : Key} {d : ℤ} (h : Renewed c₀ es k d) (fs : List (Ev ι ℤ)) : Renewed c₀ (es ++ fs) k d := by
  obtain ⟨past, i, rest, m, rfl, hm, hhead, hd⟩ := h
  exact ⟨past, i, rest ++ fs, m, by simp, hm, hhead, hd⟩

/-- Every time to live of the run is as it should be. -/
theorem dated_of_run (hthr : ∀ i, (c₀.thr i).Only Timed) (h0 : ∀ k, c₀.st.hashes k = none)
    (hrun : c₀.exec machine es = some c) {k : Key} {x : Hash} {d : ℤ} (hx : c.st.hashes k = some x)
    (hd : x.expireAt = some d) : Dated c₀ es c.st k d := by
  suffices (∀ i, (c.thr i).Only Timed) ∧
      ∀ k x d, c.st.hashes k = some x → x.expireAt = some d → Dated c₀ es c.st k d from this.2 k x d hx hd
  refine Conf.exec_induction (fun es c => (∀ i, (c.thr i).Only Timed) ∧
    ∀ k x d, c.st.hashes k = some x → x.expireAt = some d → Dated c₀ es c.st k d) ⟨hthr, ?_⟩ ?_ hrun
  · intro k x d hx
    cases (h0 k).symm.trans hx
  rintro past e m m' - hpast ⟨hthr, hdated⟩ hs
  cases e with
  | run i =>
    obtain ⟨q, s', hq, rfl⟩ := Conf.step_run.1 hs
    obtain ⟨cmd, hcmd, rfl⟩ := Prog.next_head hq
    refine ⟨fun j => ?_, fun k x d hx hd => ?_⟩
    · by_cases hj : j = i
      · subst hj
        simpa using ((hthr j).next (fun _ => trivial) hq).1
      · simpa [Function.update_of_ne hj] using hthr j
    have hclock : (handle cmd m.st).2.clock = m.st.clock := after_clock m.st cmd
    rcases hash_after hx with ⟨y, hy, hye, -⟩ | ⟨hnone, -⟩ | ⟨n, rfl, hn⟩
    · have hold := hdated k y d hy (hye.trans hd)
      exact ⟨hclock ▸ hold.live, hclock ▸ hold.soon, hold.renewed.append _⟩
    · cases hnone.symm.trans hd
    · obtain rfl : n = TASK_TTL_SEC := (hthr i).head hcmd k n rfl
      obtain rfl := Option.some.inj (hn.symm.trans hd)
      refine ⟨?_, ?_, past, i, [], m, rfl, hpast, hcmd, rfl⟩
      · show ms m.st.clock ≤ ms m.st.clock + 1000 * TASK_TTL_SEC
        rw [TASK_TTL_SEC]
        omega
      · exact Int.le_refl _
  | fail i =>
    obtain ⟨q, hq, rfl⟩ := Option.map_eq_some_iff.1 hs
    refine ⟨fun j => ?_, fun k x d hx hd => ?_⟩
    · by_cases hj : j = i
      · subst hj
        simpa using (hthr j).fail hq
      · simpa [Function.update_of_ne hj] using hthr j
    · have hold := hdated k x d hx hd
      exact ⟨hold.live, hold.soon, hold.renewed.append _⟩
  | env t =>
    obtain rfl := Option.some.inj hs
    refine ⟨hthr, fun k x d hx hd => ?_⟩
    have hbefore : m.st.hashes k = some x := by
      rcases hashes_advance t m.st k with hnone | hsame
      · cases hx.symm.trans hnone
      · exact hsame ▸ hx
    have hold := hdated k x d hbefore hd
    have hclock := ms_mono (clock_le_advance t m.st)
    exact ⟨(le_of_advance hx hd hold.live).2, by have := hold.soon; show d ≤ ms (advance t m.st).clock + _; omega,
      hold.renewed.append _⟩

/-- **No task is immortal.**  Calls of the state manager run at once on an empty store, interleaved in any way, some of
their commands fail, a pipeline as a whole, and time passes.  If no `DEL` of a task fails, a stored task either has no
time to live yet, and then some call is about to set it or to delete the task, or it had its time to live set at most
`TASK_TTL_SEC` ago.  Once all calls have returned, that time takes away every task. -/
theorem no_immortal_task {clock : ℤ} {calls : ι → Call}
    (hrun : Conf.exec machine ⟨World.initial clock, fun i => (calls i).prog⟩ es = some c)
    (hdel : ¬ Conf.HasFailed machine DeletesTask ⟨World.initial clock, fun i => (calls i).prog⟩ es) :
    (∀ body x, c.st.hashes (.task body) = some x →
      (x.expireAt = none ∧ ∃ i cmd, (c.thr i).head = some cmd ∧ Bounds (.task body) cmd) ∨
      ∃ d, x.expireAt = some d ∧
        Dated ⟨World.initial clock, fun i => (calls i).prog⟩ es c.st (.task body) d) ∧
    ((∀ i, (c.thr i).result ≠ none) → ∀ t, ms c.st.clock + 1000 * TASK_TTL_SEC < ms t →
      ∀ body, (advance t c.st).hashes (.task body) = none) := by
  have howed : ∀ body x, c.st.hashes (.task body) = some x → x.expireAt = none →
      ∃ i cmd, (c.thr i).head = some cmd ∧ Bounds (.task body) cmd := by
    intro body x hx hnone
    have hempty : ∀ k, ¬ Endless k (World.initial clock) := by
      rintro k ⟨_, _, _, h, -⟩
      cases h
    have hopen : ∀ cmd w k, Endless k (machine.handle cmd w).2 →
        taskWritten cmd = some k ∨ (Endless k w ∧ ¬ Bounds k cmd) := fun _ _ _ h => endless_after h
    have henv : ∀ t w k, Endless k (machine.env t w) → Endless k w := fun _ _ _ h => endless_advance h
    exact Conf.exec_owed hopen henv (fun i => (calls i).setsTime.1) hempty hdel hrun ⟨body, x, rfl, hx, hnone⟩
  have hdated : ∀ body x d, c.st.hashes (.task body) = some x → x.expireAt = some d → Dated _ es c.st (.task body) d :=
    fun body x d hx hd => dated_of_run (fun i => (calls i).setsTime.2) (fun _ => rfl) hrun hx hd
  refine ⟨fun body x hx => ?_, fun hret t ht body => ?_⟩
  · cases hd : x.expireAt with
    | none => exact .inl ⟨rfl, howed body x hx hd⟩
    | some d => exact .inr ⟨d, rfl, hdated body x d hx hd⟩
  · cases hx : c.st.hashes (.task body) with
    | none =>
      rcases hashes_advance t c.st (.task body) with hnone | hsame
      · exact hnone
      · rw [hsame, hx]
    | some x =>
      cases hd : x.expireAt with
      | none =>
        obtain ⟨i, cmd, hcmd, -⟩ := howed body x hx hd
        obtain ⟨a, ha⟩ := Option.ne_none_iff_exists'.1 (hret i)
        rw [Prog.result_eq_some.1 ha] at hcmd
        cases hcmd
      | some d =>
        have hsoon := (hdated body x d hx hd).soon
        have hlt : c.st.clock ≤ t := by
          by_contra hnot
          have := ms_mono (Int.le_of_lt (Int.not_le.1 hnot))
          simp only [TASK_TTL_SEC] at ht
          omega
        exact advance_of_expired hx hd hlt (by omega)

/-- A registration and a heartbeat of one client at once. -/
def crossed : Bool → Call
  | false => .register { stream_name := "live", client_id := "camera", type := .PLAYER }
  | true => .touch "live" "camera"

/-- The `EXPIRE` of the registration fails, it deletes the hash, and the heartbeat, which has read the clock before,
writes it again: the task runs out. -/
theorem crossed_runs_out :
    ∃ c : Conf iface World Bool Unit,
      Conf.exec machine ⟨World.initial 0, fun i => (crossed i).prog⟩
        [.run false, .run true, .run false, .fail false, .run false, .run true, .run true, .run true] = some c ∧
      (c.st.hashes (buildTaskKey "live" "camera")).isSome = true ∧
      ∀ t, ms c.st.clock + 1000 * TASK_TTL_SEC < ms t → ∀ body, (advance t c.st).hashes (.task body) = none := by
  have hok : Conf.everFailed machine (fun cmd => match cmd with | .del _ => true | _ => false)
      ⟨World.initial 0, fun i => (crossed i).prog⟩
      [.run false, .run true, .run false, .fail false, .run false, .run true, .run true, .run true] = false := by
    decide +kernel
  have hrun : ∃ c : Conf iface World Bool Unit, Conf.exec machine ⟨World.initial 0, fun i => (crossed i).prog⟩
      [.run false, .run true, .run false, .fail false, .run false, .run true, .run true, .run true] = some c ∧
      (c.st.hashes (buildTaskKey "live" "camera")).isSome = true ∧
      (c.thr false).result = some () ∧ (c.thr true).result = some () := ⟨_, rfl, rfl, rfl, rfl⟩
  obtain ⟨c, hrun, hsome, hregister, htouch⟩ := hrun
  refine ⟨c, hrun, hsome, (no_immortal_task hrun (Conf.not_hasFailed ?_ hok)).2 ?_⟩
  · rintro _ ⟨body, rfl⟩
    rfl
  · rintro (_ | _)
    · rw [hregister]
      exact Option.some_ne_none ()
    · rw [htouch]
      exact Option.some_ne_none ()

/-- The condition is needed: the time to live is not set and the task not deleted, and the call has returned. -/
example :
    (Conf.exec machine ⟨World.initial 0, fun _ => (Call.register { stream_name := "live", client_id := "camera" }).prog⟩
      [.run (), .run (), .fail (), .fail ()]).map
      (fun c => ((c.st.hashes (buildTaskKey "live" "camera")).map Hash.expireAt, (c.thr ()).result)) =
    some (some none, some ()) := by decide +kernel

end Runs

end StreamGate.State
