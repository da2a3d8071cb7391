import StreamGate.State.Copies
import StreamGate.State.Registration

/-!
# Stores that calls reach

Any number of calls of the state manager at once, their commands interleaved in any way, some of which
fail, while hashes run out.  Whatever store they reach, the names in the hash of a task are those of its
key, and the time stamps are those of tasks (`Reached.sound`): every command that a call sends keeps
that, if the keys that a scan works on are ones it has read.
-/

namespace StreamGate.State

open StreamGate.Redis StreamGate.Task StreamGate.Lib

/-- Hashes under their own names, no time stamps but those of tasks, and publisher keys without a time to live. -/
structure Sound (w : World) : Prop where
  keyed : Keyed w
  stamped : Stamped w
  pubs : ∀ s, PubFixed s w

/-- A command that keeps a store sound: what it writes into the hash of a task has the names of the key
or none, what it enters as a time stamp is a task, and only tasks are given a time to live. -/
def Proper : Cmd → Prop
  | .hset k f => ∀ body, k = .task body → (f .stream_name = none ∧ f .client_id = none) ∨
      ∃ s c, f .stream_name = some s ∧ f .client_id = some c ∧ k = buildTaskKey s c
  | .hincrby k _ _ => k = buildGlobalPlayerCountKey
  | .zadd k m _ => k = buildTaskTimestampZSetKey → ∃ body, m = .task body
  | .expire k _ => ∃ body, k = .task body
  | _ => True

/-- The time stamps that a scan reads are those of tasks. -/
def TaskStamps : (c : Cmd) → c.Reply → Prop
  | .zrangebyscore k _ _ => fun (keys : List Key) =>
    k = buildTaskTimestampZSetKey → ∀ m ∈ keys, ∃ body, m = .task body
  | _ => fun _ => True

namespace Sound

variable {w : World}

theorem initial (clock : ℤ) : Sound (World.initial clock) :=
  ⟨Stored.initial clock, fun _ h => absurd rfl h, fun _ _ h => by cases h⟩

theorem advance (hw : Sound w) (t : ℤ) : Sound (advance t w) := by
  refine ⟨Stored.advance hw.keyed t, hw.stamped.advance t, fun s h hh => ?_⟩
  rcases hashes_advance t w (buildPublisherKey s) with e | e
  · cases e.symm.trans hh
  · exact hw.pubs s h (e.symm.trans hh)

/-- The hashes of tasks are some of those that were there. -/
theorem of_hashes (hw : Sound w) {w' : World}
    (h : ∀ body x, w'.hashes (.task body) = some x → w.hashes (.task body) = some x)
    (hz : ∀ k, (w'.zsets buildTaskTimestampZSetKey).score k ≠ none →
      (w.zsets buildTaskTimestampZSetKey).score k ≠ none) (hf : ∀ s, PubFixed s w') : Sound w' :=
  ⟨hw.keyed.mono h, fun k hk => hw.stamped k (hz k hk), hf⟩

theorem hset (hw : Sound w) {k : Key} {f : Fields} (hf : Proper (.hset k f)) : Sound (w.hset k f) := by
  refine ⟨fun body x hx s c hs hc => ?_, hw.stamped, fun s => (hw.pubs s).hset k f⟩
  rw [World.hset_apply] at hx
  split at hx
  · rename_i hk
    obtain rfl := Option.some.inj hx
    rcases hf body hk.symm with ⟨hs', hc'⟩ | ⟨s', c', hs', hc', hkey⟩
    · -- the names are the old ones
      simp only [Fields.over, hs', hc', Option.orElse] at hs hc
      cases hold : w.hashes k with
      | none => rw [World.fieldsAt, hold] at hs; cases hs
      | some y =>
        rw [World.fieldsAt, hold] at hs hc
        exact hw.keyed body y (hk ▸ hold) s c hs hc
    · simp only [Fields.over, hs', hc', Option.orElse] at hs hc
      obtain rfl := Option.some.inj hs
      obtain rfl := Option.some.inj hc
      exact hk.trans hkey
  · exact hw.keyed body x hx s c hs hc

/-- A proper command. -/
theorem after (hw : Sound w) {c : Cmd} (hc : Proper c) : Sound (handle c w).2 := by
  have hpubs : ∀ s, PubFixed s (handle c w).2 := fun s => (hw.pubs s).after fun n e => by
    obtain ⟨body, hk⟩ : ∃ body, buildPublisherKey s = .task body := by
      subst e
      exact hc
    cases hk
  cases c with
  | hset k f => exact hw.hset hc
  | hincrby k f n =>
    obtain rfl : k = buildGlobalPlayerCountKey := hc
    exact hw.hset fun body h => by cases h
  | zadd k m x =>
    refine ⟨hw.keyed, fun k' hk' => ?_, hpubs⟩
    rw [after_zadd, World.setZset_apply] at hk'
    split at hk'
    · rename_i hk
      rw [ZSet.score_add] at hk'
      split at hk'
      · rename_i hm
        exact hm ▸ hc hk.symm
      · exact hw.stamped k' (hk ▸ hk')
    · exact hw.stamped k' hk'
  | zrem k m =>
    refine hw.of_hashes (fun _ _ h => h) (fun k' hk' => ?_) hpubs
    rw [after_zrem, World.setZset_apply] at hk'
    split at hk'
    · rename_i hk
      exact hk ▸ noneNew_rem _ m k' hk'
    · exact hk'
  | expire k n =>
    refine ⟨fun body x hx => ?_, hw.stamped, hpubs⟩
    rw [after_expire, World.expire_apply] at hx
    split at hx
    · rename_i hk
      obtain ⟨y, hy, rfl⟩ := Option.map_eq_some_iff.1 hx
      exact hw.keyed body y (hk ▸ hy)
    · exact hw.keyed body x hx
  | del k =>
    refine hw.of_hashes (fun body x hx => ?_) (fun k' hk' => ?_) hpubs
    · rw [after_del, World.del_hashes_apply] at hx
      split at hx
      · cases hx
      · exact hx
    · rw [after_del, World.del_zsets_apply] at hk'
      split at hk'
      · exact absurd rfl hk'
      · exact hk'
  | _ => exact ⟨hw.keyed, hw.stamped, hw.pubs⟩

theorem taskStamps (hw : Sound w) (c : Cmd) : TaskStamps c (handle c w).1 := by
  cases c with
  | zrangebyscore k lo hi =>
    rintro rfl m hm
    obtain ⟨x, hx, -⟩ := ZSet.mem_rangeByScore.1 hm
    exact hw.stamped m (by rw [hx]; exact Option.some_ne_none x)
  | _ => trivial

end Sound

/-! ### The commands of the calls -/

theorem batchCmds_proper (id : TaskIdentifier) : ∀ cmd ∈ batchCmds id, Proper cmd := by
  obtain ⟨s, c, ty⟩ := id
  cases ty <;> simp [batchCmds, Proper]

theorem deregisterTask_proper (s c : String) : (deregisterTask s c).Obeys TaskStamps Proper :=
  deregisterTask_obeys_of (fun _ => trivial) trivial fun _ t _ _ => batchCmds_proper ⟨s, c, t.type⟩

theorem registerTask_proper (t : StreamTask) : (registerTask t).Obeys TaskStamps Proper :=
  registerTask_obeys_of (fun _ => ⟨trivial, trivial⟩) trivial
    (fun _ _ => .inr ⟨t.stream_name, t.client_id, rfl, rfl, rfl⟩) (fun _ => ⟨_, rfl⟩) trivial
    (fun _ _ => ⟨_, rfl⟩) (fun _ => ⟨(fun _ h => by cases h), trivial⟩) trivial (fun _ => rfl)
    (deregisterTask_proper t.stream_name t.client_id)

theorem deregisterAllMembers_proper (s : String) : (deregisterAllMembers s).Obeys TaskStamps Proper :=
  deregisterAllMembers_obeys_of (fun _ => ⟨trivial, trivial⟩) (fun _ _ c _ ty => batchCmds_proper ⟨s, c, ty⟩) trivial

theorem touchTask_proper (s c : String) : (touchTask s c).Obeys TaskStamps Proper :=
  touchTask_obeys_of trivial (fun _ _ _ => .inl ⟨rfl, rfl⟩) (fun _ => ⟨_, rfl⟩) (fun _ _ => ⟨_, rfl⟩) trivial

theorem scanLoop_proper (now_ms timeout : ℤ) {keys : List Key} (hkeys : ∀ k ∈ keys, ∃ body, k = Key.task body) :
    (scanLoop now_ms timeout keys).Obeys TaskStamps Proper :=
  scanLoop_obeys_of (fun _ _ => trivial) (fun _ => trivial) (fun k hk _ _ => hkeys k hk)
    fun _ _ _ t _ _ => deregisterTask_proper t.stream_name t.client_id

theorem scanTimeoutTasks_proper (timeout : ℤ) : (scanTimeoutTasks timeout).Obeys TaskStamps Proper :=
  ⟨trivial, fun (now : ℤ) _ => ⟨trivial, fun keys hkeys => scanLoop_proper (ms now) timeout (hkeys rfl),
    scanLoop_proper (ms now) timeout fun _ h => by cases h⟩⟩

/-- The calls of the state manager that write. -/
inductive Call where
  | register (t : StreamTask)
  | deregister (s c : String)
  | deregisterAll (s : String)
  | batch (tasks : List TaskIdentifier)
  | touch (s c : String)
  | scan (timeout : ℤ)

/-- The program of a call, without its result. -/
def Call.prog : Call → RProg Unit
  | register t => do let _ ← registerTask t; return ()
  | deregister s c => do let _ ← deregisterTask s c; return ()
  | deregisterAll s => deregisterAllMembers s
  | batch tasks => do let _ ← deregisterTasksBatch tasks; return ()
  | touch s c => do let _ ← touchTask s c; return ()
  | scan timeout => do let _ ← scanTimeoutTasks timeout; return ()

theorem Call.proper (c : Call) : c.prog.Obeys TaskStamps Proper := by
  cases c with
  | register t => exact (registerTask_proper t).bind fun _ => trivial
  | deregister s c => exact (deregisterTask_proper s c).bind fun _ => trivial
  | deregisterAll s => exact deregisterAllMembers_proper s
  | batch tasks => exact (obeys_batch fun t _ => batchCmds_proper t).bind fun _ => trivial
  | touch s c => exact (touchTask_proper s c).bind fun _ => trivial
  | scan timeout => exact (scanTimeoutTasks_proper timeout).bind fun _ => trivial

/-- A store that calls reach, from an empty one: any number of them at once, interleaved in any way, with
commands that fail and hashes that run out. -/
inductive Reached : World → Prop
  | initial (clock : ℤ) : Reached (World.initial clock)
  | calls {w : World} {calls : ℕ → Call} {es : List (Ev ℕ ℤ)} {fin : Conf iface World ℕ Unit} (hw : Reached w)
      (hrun : Conf.exec machine ⟨w, fun i => (calls i).prog⟩ es = some fin) : Reached fin.st

namespace Reached

variable {w : World}

/-- A call alone. -/
theorem call (hw : Reached w) (c : Call) : Reached (w.run c.prog).2 := by
  obtain ⟨n, fin, hrun, hst⟩ := Conf.exec_alone (M := machine) ⟨w, fun _ : ℕ => c.prog⟩ 0
  exact hst ▸ @Reached.calls w (fun _ => c) _ fin hw hrun

theorem register (hw : Reached w) (t : StreamTask) : Reached (w.run (registerTask t)).2 := by
  have h := hw.call (.register t)
  rw [Call.prog, World.run, Prog.run_bind] at h
  exact h

/-- Time that passes. -/
theorem advance (hw : Reached w) (t : ℤ) : Reached (advance t w) :=
  @Reached.calls w (fun _ => .touch "" "") [.env t] _ hw rfl

/-- **The stores that calls reach are sound.** -/
theorem sound (hw : Reached w) : Sound w := by
  induction hw with
  | initial clock => exact Sound.initial clock
  | @calls _ calls _ _ _ hrun ih =>
    exact (Conf.exec_obeys (fun c _ hw => hw.taskStamps c) (fun _ _ hc hw => hw.after hc)
      (fun e _ _ hw => hw.advance e) (fun i => (calls i).proper) ih hrun).2

end Reached

end StreamGate.State
