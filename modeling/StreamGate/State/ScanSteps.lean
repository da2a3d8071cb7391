import StreamGate.State.Alone

/-!
# A scan, command by command

What is left of a scan at each of its commands (`Stage`), and where a command leads (`Stage.Step`).  A
scan owns the entry of `task_timestamps` that it has taken out: until it has put the entry back, or has
decided to deregister the task, no other scan finds it.  `Stage.next` says that the program takes these
steps and no others.
-/

namespace StreamGate.State

open StreamGate.Redis StreamGate.Task StreamGate.Lib

/-- Where a scan is in its loop: its clock, the candidates it has not looked at, and the tasks it has
decided to return. -/
structure Pass where
  now : ℤ
  keys : List Key
  found : List StreamTask

/-- One more task is found. -/
def Pass.take (p : Pass) (t : StreamTask) : Pass := { p with found := p.found ++ [t] }

/-- The loop, from a candidate on. -/
def Pass.prog (timeout : ℤ) (p : Pass) : RProg (List StreamTask) := do
  let expired_tasks ← scanLoop p.now timeout p.keys
  return p.found ++ expired_tasks

/-- The command that a scan sends next. -/
inductive Stage where
  /-- The clock is read. -/
  | start
  /-- The candidates are read. -/
  | range (now : ℤ)
  /-- The entry of the next candidate is taken out, if there is one. -/
  | loop (p : Pass)
  /-- The hash of a candidate whose entry is out is read. -/
  | look (k : Key) (p : Pass)
  /-- The entry of a task that is alive is put back. -/
  | back (k : Key) (t : StreamTask) (p : Pass)
  /-- The hash of a task that has expired is read again, for its type. -/
  | again (t : StreamTask) (p : Pass)
  /-- There is no such hash any more: the entry is removed. -/
  | stamp (t : StreamTask) (p : Pass)
  /-- The hash is deleted. -/
  | drop (t : StreamTask) (type : StreamType) (p : Pass)
  /-- The rest of the batch. -/
  | rest (c : Cmd) (cs : List Cmd) (p : Pass)

/-- The commands of a batch that follow the deletion of the hash. -/
def unindexCmds (t : StreamTask) (type : StreamType) : List Cmd :=
  match type with
  | .PLAYER => [.hincrby buildGlobalPlayerCountKey .total (-1)]
  | .PUBLISHER => [.del (buildPublisherKey t.stream_name), .srem buildActivePublishersKey t.stream_name]

namespace Stage

variable (timeout : ℤ)

/-- What is left of the scan. -/
def prog : Stage → RProg (List StreamTask)
  | start => scanTimeoutTasks timeout
  | range now => do
    let candidate_keys ← zsetRangeByScore buildTaskTimestampZSetKey 0 (now - timeout)
    scanLoop now timeout candidate_keys
  | loop p => p.prog timeout
  | look k p => do
    let task ← getTaskByKey k
    task.elim (p.prog timeout) fun t =>
      if p.now - ms t.last_active_time < timeout then do
        let _ ← zsetAdd buildTaskTimestampZSetKey (ms t.last_active_time) k
        p.prog timeout
      else do
        let _ ← deregisterTask t.stream_name t.client_id
        (p.take t).prog timeout
  | back k t p => do
    let _ ← zsetAdd buildTaskTimestampZSetKey (ms t.last_active_time) k
    p.prog timeout
  | again t p => do
    let _ ← deregisterTask t.stream_name t.client_id
    p.prog timeout
  | stamp t p => do
    let _ ← zsetRem buildTaskTimestampZSetKey t.key
    p.prog timeout
  | drop t type p => do
    let _ ← deregisterTasksBatch [⟨t.stream_name, t.client_id, type⟩]
    p.prog timeout
  | rest c cs p => do
    sendRest (c :: cs)
    p.prog timeout

/-- Where the next command leads, from the store `w`. -/
inductive Step (w : World) : Stage → Stage → World → Prop
  | start : Step w start (range (ms w.clock)) w
  | range (now : ℤ) : Step w (range now)
      (loop ⟨now, (w.zsets buildTaskTimestampZSetKey).rangeByScore 0 (now - timeout), []⟩) w
  | skip {now : ℤ} {k : Key} {keys : List Key} {found : List StreamTask}
      (h : (w.zsets buildTaskTimestampZSetKey).score k = none) :
      Step w (loop ⟨now, k :: keys, found⟩) (loop ⟨now, keys, found⟩) w
  | take {now : ℤ} {k : Key} {keys : List Key} {found : List StreamTask}
      (h : (w.zsets buildTaskTimestampZSetKey).score k ≠ none) :
      Step w (loop ⟨now, k :: keys, found⟩) (look k ⟨now, keys, found⟩)
        (w.setZset buildTaskTimestampZSetKey ((w.zsets buildTaskTimestampZSetKey).rem k))
  | missing {k : Key} {p : Pass} (h : taskAt w k = none) : Step w (look k p) (loop p) w
  | alive {k : Key} {t : StreamTask} {p : Pass} (h : taskAt w k = some t)
      (hl : p.now - ms t.last_active_time < timeout) : Step w (look k p) (back k t p) w
  | expired {k : Key} {t : StreamTask} {p : Pass} (h : taskAt w k = some t)
      (hl : ¬ p.now - ms t.last_active_time < timeout) : Step w (look k p) (again t (p.take t)) w
  | back {k : Key} {t : StreamTask} {p : Pass} : Step w (back k t p) (loop p)
      (w.setZset buildTaskTimestampZSetKey
        ((w.zsets buildTaskTimestampZSetKey).add k (ms t.last_active_time)))
  | gone {t : StreamTask} {p : Pass} (h : taskAt w t.key = none) : Step w (again t p) (stamp t p) w
  | again {t q : StreamTask} {p : Pass} (h : taskAt w t.key = some q) : Step w (again t p) (drop t q.type p) w
  | stamp {t : StreamTask} {p : Pass} : Step w (stamp t p) (loop p)
      (w.setZset buildTaskTimestampZSetKey ((w.zsets buildTaskTimestampZSetKey).rem t.key))
  | drop {t : StreamTask} {type : StreamType} {p : Pass} : Step w (drop t type p)
      (rest (.srem (memberKey t.stream_name) t.client_id) (unindexCmds t type) p) (w.del t.key)
  | last {c : Cmd} {p : Pass} : Step w (rest c [] p) (loop p) (handle c w).2
  | rest {c c' : Cmd} {cs : List Cmd} {p : Pass} : Step w (rest c (c' :: cs) p) (rest c' cs p) (handle c w).2

variable {timeout} {w w' : World}

theorem loop_nil (now : ℤ) (keys : List Key) :
    (loop ⟨now, keys, []⟩).prog timeout = scanLoop now timeout keys := Prog.bind_ret _

/-- The loop at a candidate. -/
theorem prog_loop_cons (now : ℤ) (k : Key) (keys : List Key) (found : List StreamTask) :
    (loop ⟨now, k :: keys, found⟩).prog timeout = zsetRem buildTaskTimestampZSetKey k >>= fun taken =>
      if taken then (look k ⟨now, keys, found⟩).prog timeout else (loop ⟨now, keys, found⟩).prog timeout := by
  show (scanLoop now timeout (k :: keys) >>= _) = _
  rw [scanLoop, Prog.bind_assoc]
  congr 1
  funext taken
  cases taken with
  | false => rfl
  | true =>
    apply (Prog.bind_assoc _ _ _).trans
    show _ = (getTaskByKey k >>= _)
    congr 1
    funext task
    cases task with
    | none => rfl
    | some t =>
      dsimp only [Option.elim]
      split
      · exact Prog.bind_assoc _ _ _
      · apply (Prog.bind_assoc _ _ _).trans
        congr 1
        funext _
        apply (Prog.bind_assoc _ _ _).trans
        show (scanLoop now timeout keys >>= _) = (scanLoop now timeout keys >>= _)
        congr 1
        funext ts
        simp [Pass.take]

/-- **The program takes these steps and no others.** -/
theorem next {σ : Stage} {q : RProg (List StreamTask)} (hn : (σ.prog timeout).next handle w = some (q, w')) :
    ∃ σ', q = σ'.prog timeout ∧ Step timeout w σ σ' w' := by
  cases σ with
  | start =>
    obtain ⟨rfl, rfl⟩ := Prod.mk.inj (Option.some.inj hn)
    exact ⟨range (ms w.clock), rfl, .start⟩
  | range now =>
    obtain ⟨rfl, rfl⟩ := Prod.mk.inj (Option.some.inj hn)
    exact ⟨_, (loop_nil now _).symm, .range now⟩
  | loop p =>
    obtain ⟨now, keys, found⟩ := p
    cases keys with
    | nil => cases hn
    | cons k keys =>
      rw [prog_loop_cons] at hn
      obtain ⟨hq, rfl⟩ := Prod.mk.inj (Option.some.inj hn)
      have hq : (if ((w.zsets buildTaskTimestampZSetKey).score k).isSome then
          (look k ⟨now, keys, found⟩).prog timeout else (loop ⟨now, keys, found⟩).prog timeout) = q := hq
      rw [after_zrem]
      cases hk : (w.zsets buildTaskTimestampZSetKey).score k with
      | none =>
        rw [hk, Option.isSome_none, if_neg Bool.false_ne_true] at hq
        rw [ZSet.rem_of_score_none hk, World.setZset_eta]
        exact ⟨_, hq.symm, .skip hk⟩
      | some x =>
        rw [hk, Option.isSome_some, if_pos rfl] at hq
        exact ⟨_, hq.symm, .take (by rw [hk]; exact Option.some_ne_none x)⟩
  | look k p =>
    obtain ⟨hq, rfl⟩ := Prod.mk.inj (Option.some.inj hn)
    have hq : (taskAt w k).elim ((loop p).prog timeout) (fun t =>
        if p.now - ms t.last_active_time < timeout then (back k t p).prog timeout
        else (again t (p.take t)).prog timeout) = q := hq
    cases hk : taskAt w k with
    | none =>
      rw [hk, Option.elim_none] at hq
      exact ⟨_, hq.symm, .missing hk⟩
    | some t =>
      rw [hk, Option.elim_some] at hq
      by_cases hl : p.now - ms t.last_active_time < timeout
      · rw [if_pos hl] at hq
        exact ⟨_, hq.symm, .alive hk hl⟩
      · rw [if_neg hl] at hq
        exact ⟨_, hq.symm, .expired hk hl⟩
  | back k t p =>
    obtain ⟨rfl, rfl⟩ := Prod.mk.inj (Option.some.inj hn)
    exact ⟨loop p, rfl, .back⟩
  | again t p =>
    rw [prog, deregisterTask_eq] at hn
    obtain ⟨hq, rfl⟩ := Prod.mk.inj (Option.some.inj hn)
    have hq : ((taskAt w t.key).elim (zsetRem buildTaskTimestampZSetKey t.key >>= fun _ => pure true)
        (fun q => deregisterTasksBatch [⟨t.stream_name, t.client_id, q.type⟩] >>= fun n => pure (decide (0 < n)))
          >>= fun _ => p.prog timeout) = q := hq
    cases hk : taskAt w t.key with
    | none =>
      rw [hk, Option.elim_none, Prog.bind_assoc] at hq
      exact ⟨stamp t p, hq.symm, .gone hk⟩
    | some task =>
      rw [hk, Option.elim_some, Prog.bind_assoc] at hq
      exact ⟨drop t task.type p, hq.symm, .again hk⟩
  | stamp t p =>
    obtain ⟨rfl, rfl⟩ := Prod.mk.inj (Option.some.inj hn)
    exact ⟨loop p, rfl, .stamp⟩
  | drop t type p =>
    cases type with
    | PLAYER =>
      obtain ⟨rfl, rfl⟩ := Prod.mk.inj (Option.some.inj hn)
      exact ⟨_, rfl, .drop⟩
    | PUBLISHER =>
      obtain ⟨rfl, rfl⟩ := Prod.mk.inj (Option.some.inj hn)
      exact ⟨_, rfl, .drop⟩
  | rest c cs p =>
    cases cs with
    | nil =>
      obtain ⟨rfl, rfl⟩ := Prod.mk.inj (Option.some.inj hn)
      exact ⟨loop p, rfl, .last⟩
    | cons c' cs =>
      obtain ⟨rfl, rfl⟩ := Prod.mk.inj (Option.some.inj hn)
      exact ⟨rest c' cs p, rfl, .rest⟩

/-- A scan that has returned is at the end of its loop. -/
theorem result {σ : Stage} {ts : List StreamTask} (hr : (σ.prog timeout).result = some ts) :
    ∃ now, σ = loop ⟨now, [], ts⟩ := by
  rw [Prog.result_eq_some] at hr
  cases σ with
  | loop p =>
    obtain ⟨now, keys, found⟩ := p
    cases keys with
    | nil =>
      obtain rfl : found = ts := by simpa [prog, Pass.prog, scanLoop] using hr
      exact ⟨now, rfl⟩
    | cons k keys =>
      rw [prog_loop_cons] at hr
      cases hr
  | _ => cases hr

end Stage

end StreamGate.State
