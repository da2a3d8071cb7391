import Mathlib.Logic.Function.Iterate
import StreamGate.State.Streams
import StreamGate.State.Tally

/-!
# The two ways to deregister many tasks

`IStreamStateManager` has a `deregisterTasksBatch` that calls `deregisterTask` for one target after the other.
`RedisStreamStateManager` replaces it by one pipeline, which believes the types it is given and looks at no hash.  The
plain one does what the pipeline does for the targets that it finds (`forgets_agree`): those whose task can be read and
that have not come up before, with the types of their hashes.  So the two agree exactly if it makes no difference to the
keys whether the targets are those that were given or those that are found.
-/

namespace StreamGate.State

open StreamGate.Redis StreamGate.Task StreamGate.Lib

/-! ### The interface's batches -/

/-- An operation for one task after the other, and how many times it succeeded. -/
def successCount {α : Type} (op : α → RProg Bool) : List α → RProg ℕ
  | [] => .ret 0
  | task :: tasks => do
    let ok ← op task
    let n ← successCount op tasks
    return if ok then n + 1 else n

namespace IStreamStateManager

def touchTasksBatch : List TaskIdentifier → RProg ℕ := successCount fun task => touchTask task.streamName task.clientId

def deregisterTasksBatch : List TaskIdentifier → RProg ℕ :=
  successCount fun task => deregisterTask task.streamName task.clientId

end IStreamStateManager

section Runs

variable (w : World)

/-- Operations that always succeed. -/
theorem run_successCount {α : Type} {op : α → RProg Bool} {f : α → World → World}
    (hop : ∀ a w, w.run (op a) = (true, f a w)) (as : List α) :
    w.run (successCount op as) = (as.length, as.foldl (fun w a => f a w) w) := by
  induction as generalizing w with
  | nil => rfl
  | cons a as ih =>
    rw [successCount, run_bind, hop, run_bind, ih]
    rfl

/-- Every heartbeat of a batch counts as a success. -/
theorem run_touchTasksBatch (tasks : List TaskIdentifier) :
    w.run (IStreamStateManager.touchTasksBatch tasks) =
      (tasks.length, tasks.foldl (fun w task => touch task.streamName task.clientId w) w) :=
  run_successCount w (fun task w => run_touchTask w task.streamName task.clientId) tasks

/-- One target after the other. -/
def forgets (ids : List TaskIdentifier) (w : World) : World :=
  ids.foldl (fun w id => forget id.streamName id.clientId w) w

theorem run_deregisterEach (ids : List TaskIdentifier) :
    w.run (IStreamStateManager.deregisterTasksBatch ids) = (ids.length, forgets ids w) :=
  run_successCount w (fun id w => run_deregisterTask w id.streamName id.clientId) ids

end Runs

/-! ### The counter under a batch -/

/-- What is stored at the key of the counter after a decrement. -/
def lowered (x : Option Hash) : Option Hash :=
  some ⟨Fields.over (Function.update (fun _ => none) .total (some (Decimal.to_string
    (counterOf ((x.map Hash.fields).getD fun _ => none) .total + -1)))) ((x.map Hash.fields).getD fun _ => none),
    x.bind Hash.expireAt⟩

/-- The number there. -/
def totalOf (x : Option Hash) : ℤ := counterOf ((x.map Hash.fields).getD fun _ => none) .total

theorem totalOf_lowered (x : Option Hash) : totalOf (lowered x) = totalOf x - 1 := by
  have htotal : totalOf (lowered x) =
      ((Decimal.parse (Decimal.to_string (totalOf x + -1))).map Decimal.signed).getD 0 := rfl
  rw [htotal, Decimal.parse_to_string]
  exact Decimal.signed_natAbs _

theorem hincrby_global (w : World) :
    (w.hincrby .global_players .total (-1)).hashes .global_players = lowered (w.hashes .global_players) := by
  rw [World.hincrby, World.hset_self]
  rfl

theorem totalOf_iterate (n : ℕ) (x : Option Hash) : totalOf (lowered^[n] x) = totalOf x - n := by
  induction n generalizing x with
  | zero => simp
  | succ n ih =>
    rw [Function.iterate_succ_apply, ih, totalOf_lowered]
    omega

/-- Two numbers of decrements leave different counters. -/
theorem iterate_lowered_inj {m n : ℕ} {x : Option Hash} : lowered^[m] x = lowered^[n] x ↔ m = n := by
  constructor
  · intro h
    have htotal := congrArg totalOf h
    rw [totalOf_iterate, totalOf_iterate] at htotal
    omega
  · rintro rfl
    rfl

/-- How many players a list of targets has. -/
def players (ids : List TaskIdentifier) : ℕ := ids.countP fun id => id.type = .PLAYER

theorem dropTasks_global (w : World) (ids : List TaskIdentifier) :
    (dropTasks ids w).hashes .global_players = lowered^[players ids] (w.hashes .global_players) := by
  induction ids generalizing w with
  | nil => rfl
  | cons id ids ih =>
    obtain ⟨s, c, ty⟩ := id
    apply (ih _).trans
    rw [dropTask_global]
    cases ty with
    | PLAYER =>
      have hplayers : players (⟨s, c, .PLAYER⟩ :: ids) = players ids + 1 := List.countP_cons_of_pos rfl
      rw [if_pos rfl, hincrby_global, hplayers, Function.iterate_succ_apply]
    | PUBLISHER =>
      have hplayers : players (⟨s, c, .PUBLISHER⟩ :: ids) = players ids := List.countP_cons_of_neg nofun
      rw [if_neg nofun, hplayers]

/-- A client is named by a list of targets. -/
def Names (ids : List TaskIdentifier) (s c : String) : Prop := ∃ id ∈ ids, id.streamName = s ∧ id.clientId = c

theorem mem_dropTasks_members (w : World) (ids : List TaskIdentifier) (s c : String) :
    c ∈ (dropTasks ids w).sets (.members s) ↔ ¬ Names ids s c ∧ c ∈ w.sets (.members s) := by
  induction ids generalizing w with
  | nil => simp [Names, dropTasks]
  | cons id ids ih =>
    obtain ⟨s', c', ty⟩ := id
    apply (ih _).trans
    rw [dropTask_members]
    unfold Names
    rw [List.exists_mem_cons_iff]
    by_cases hs : s = s'
    · subst hs
      rw [if_pos rfl, RSet.mem_rem]
      simp only [true_and, eq_comm (a := c')]
      exact not_and_and_ne
    · rw [if_neg hs]
      simp only [Ne.symm hs, false_and, false_or]

/-! ### Agreement -/

/-- Two stores agree on the hashes of tasks, the publisher keys, the active streams, the members and the counter. -/
structure Agree (w w' : World) : Prop where
  task : ∀ body, w.hashes (.task body) = w'.hashes (.task body)
  pub : ∀ s, w.hashes (.pub s) = w'.hashes (.pub s)
  active : ∀ s, s ∈ w.sets .active_pubs ↔ s ∈ w'.sets .active_pubs
  member : ∀ s c, c ∈ w.sets (.members s) ↔ c ∈ w'.sets (.members s)
  total : w.hashes .global_players = w'.hashes .global_players

namespace Agree

variable {w w' w'' : World}

theorem refl (w : World) : Agree w w := ⟨fun _ => rfl, fun _ => rfl, fun _ => .rfl, fun _ _ => .rfl, rfl⟩

theorem symm (h : Agree w w') : Agree w' w :=
  ⟨fun b => (h.task b).symm, fun s => (h.pub s).symm, fun s => (h.active s).symm, fun s c => (h.member s c).symm,
    h.total.symm⟩

theorem trans (h : Agree w w') (h' : Agree w' w'') : Agree w w'' :=
  ⟨fun b => (h.task b).trans (h'.task b), fun s => (h.pub s).trans (h'.pub s),
    fun s => (h.active s).trans (h'.active s), fun s c => (h.member s c).trans (h'.member s c), h.total.trans h'.total⟩

/-- A batch sees no more of a store than this. -/
theorem dropTasks (h : Agree w w') (ids : List TaskIdentifier) : Agree (dropTasks ids w) (dropTasks ids w') := by
  constructor
  · intro body
    rw [dropTasks_task, dropTasks_task, h.task]
  · intro s
    rw [dropTasks_pub, dropTasks_pub, h.pub]
  · intro s
    rw [mem_dropTasks_active, mem_dropTasks_active, h.active]
  · intro s c
    rw [mem_dropTasks_members, mem_dropTasks_members, h.member]
  · rw [dropTasks_global, dropTasks_global, h.total]

end Agree

/-- The targets that the plain batch finds: those whose task can be read and that have not come up before. -/
def found (w : World) : List TaskIdentifier → List TaskIdentifier
  | [] => []
  | id :: ids =>
    ((taskAt w (buildTaskKey id.streamName id.clientId)).map fun t => ⟨id.streamName, id.clientId, t.type⟩).toList ++
      (found w ids).filter fun id' =>
        buildTaskKey id'.streamName id'.clientId ≠ buildTaskKey id.streamName id.clientId

section Found

variable (w : World) (ids : List TaskIdentifier)

theorem forgets_cons (id : TaskIdentifier) :
    forgets (id :: ids) w = forgets ids (forget id.streamName id.clientId w) := rfl

/-- After a deregistration the later targets of the same key are not found. -/
theorem found_forget (s c : String) : found (forget s c w) ids =
    (found w ids).filter fun id => buildTaskKey id.streamName id.clientId ≠ buildTaskKey s c := by
  induction ids with
  | nil => rfl
  | cons id ids ih =>
    have hread : taskAt (forget s c w) (buildTaskKey id.streamName id.clientId) =
        if buildTaskKey id.streamName id.clientId = buildTaskKey s c then none
        else taskAt w (buildTaskKey id.streamName id.clientId) := taskAt_forget ..
    rw [found, found, List.filter_append, ih, hread, List.filter_filter, List.filter_filter]
    congr 1
    · by_cases hk : buildTaskKey id.streamName id.clientId = buildTaskKey s c
      · rw [if_pos hk]
        cases taskAt w (buildTaskKey id.streamName id.clientId) <;> simp [hk]
      · rw [if_neg hk]
        cases taskAt w (buildTaskKey id.streamName id.clientId) <;> simp [hk]
    · apply List.filter_congr
      intro id' _
      exact Bool.and_comm _ _

/-- **The plain batch is the pipeline for the targets that it finds.** -/
theorem forgets_agree : Agree (forgets ids w) (dropTasks (found w ids) w) := by
  induction ids generalizing w with
  | nil => exact .refl w
  | cons id ids ih =>
    rw [forgets_cons]
    apply (ih _).trans
    rw [found_forget, found]
    cases ht : taskAt w (buildTaskKey id.streamName id.clientId) with
    | none =>
      rw [forget_none ht]
      have hagree : ∀ k z, Agree (w.setZset k z) w :=
        fun _ _ => ⟨fun _ => rfl, fun _ => rfl, fun _ => .rfl, fun _ _ => .rfl, rfl⟩
      exact (hagree _ _).dropTasks _
    | some t =>
      rw [forget_some ht]
      exact .refl _

end Found

/-! ### When the two agree -/

/-- A list of targets names the task of a key. -/
def NamesTask (ids : List TaskIdentifier) (k : Key) : Prop := ∃ id ∈ ids, k = buildTaskKey id.streamName id.clientId

/-- Two lists of targets make no difference to a store. -/
structure Same (w : World) (ids ids' : List TaskIdentifier) : Prop where
  task : ∀ body, w.hashes (.task body) ≠ none → (NamesTask ids (.task body) ↔ NamesTask ids' (.task body))
  pub : ∀ s, w.hashes (.pub s) ≠ none → (NamesPublisher ids s ↔ NamesPublisher ids' s)
  active : ∀ s, s ∈ w.sets .active_pubs → (NamesPublisher ids s ↔ NamesPublisher ids' s)
  member : ∀ s c, c ∈ w.sets (.members s) → (Names ids s c ↔ Names ids' s c)
  players : players ids = players ids'

theorem ite_none_eq_iff {α : Type} {p q : Prop} [Decidable p] [Decidable q] {x : Option α} :
    (if p then none else x) = (if q then none else x) ↔ (x ≠ none → (p ↔ q)) := by
  by_cases hp : p <;> by_cases hq : q <;> simp [hp, hq, eq_comm (a := none)]

theorem not_and_iff_not_and {p q a : Prop} : (¬ p ∧ a ↔ ¬ q ∧ a) ↔ (a → (p ↔ q)) := by
  by_cases ha : a
  · simp only [ha, and_true, true_implies, not_iff_not]
  · simp only [ha, and_false, false_implies]

/-- Two batches: one equivalence for each structure. -/
theorem dropTasks_agree_iff (w : World) (ids ids' : List TaskIdentifier) :
    Agree (dropTasks ids w) (dropTasks ids' w) ↔ Same w ids ids' := by
  have htask : ∀ body, (dropTasks ids w).hashes (.task body) = (dropTasks ids' w).hashes (.task body) ↔
      (w.hashes (.task body) ≠ none → (NamesTask ids (.task body) ↔ NamesTask ids' (.task body))) := by
    intro body
    rw [dropTasks_task, dropTasks_task]
    exact ite_none_eq_iff
  have hpub : ∀ s, (dropTasks ids w).hashes (.pub s) = (dropTasks ids' w).hashes (.pub s) ↔
      (w.hashes (.pub s) ≠ none → (NamesPublisher ids s ↔ NamesPublisher ids' s)) := by
    intro s
    rw [dropTasks_pub, dropTasks_pub]
    exact ite_none_eq_iff
  have hactive : ∀ s, (s ∈ (dropTasks ids w).sets .active_pubs ↔ s ∈ (dropTasks ids' w).sets .active_pubs) ↔
      (s ∈ w.sets .active_pubs → (NamesPublisher ids s ↔ NamesPublisher ids' s)) := by
    intro s
    rw [mem_dropTasks_active, mem_dropTasks_active]
    exact not_and_iff_not_and
  have hmember : ∀ s c, (c ∈ (dropTasks ids w).sets (.members s) ↔ c ∈ (dropTasks ids' w).sets (.members s)) ↔
      (c ∈ w.sets (.members s) → (Names ids s c ↔ Names ids' s c)) := by
    intro s c
    rw [mem_dropTasks_members, mem_dropTasks_members]
    exact not_and_iff_not_and
  have htotal : (dropTasks ids w).hashes .global_players = (dropTasks ids' w).hashes .global_players ↔
      players ids = players ids' := by
    rw [dropTasks_global, dropTasks_global]
    exact iterate_lowered_inj
  constructor
  · intro h
    exact ⟨fun body => (htask body).1 (h.task body), fun s => (hpub s).1 (h.pub s),
      fun s => (hactive s).1 (h.active s), fun s c => (hmember s c).1 (h.member s c), htotal.1 h.total⟩
  · intro h
    exact ⟨fun body => (htask body).2 (h.task body), fun s => (hpub s).2 (h.pub s),
      fun s => (hactive s).2 (h.active s), fun s c => (hmember s c).2 (h.member s c), htotal.2 h.players⟩

/-- **The pipelined batch and the plain one.**  In any store they agree exactly if the targets that are found make the
same difference to it as those that were given. -/
theorem batches_agree_iff (w : World) (ids : List TaskIdentifier) :
    Agree (w.run (deregisterTasksBatch ids)).2 (w.run (IStreamStateManager.deregisterTasksBatch ids)).2 ↔
      Same w ids (found w ids) := by
  rw [run_deregisterTasksBatch, run_deregisterEach, ← dropTasks_agree_iff]
  have hplain := forgets_agree w ids
  constructor
  · intro h
    exact h.trans hplain
  · intro h
    exact h.trans hplain.symm

/-- Targets that are there, each once and with its type, are found. -/
theorem found_eq_self {w : World} {ids : List TaskIdentifier}
    (hread : ∀ id ∈ ids, ∃ t, taskAt w (buildTaskKey id.streamName id.clientId) = some t ∧ t.type = id.type)
    (honce : ids.Pairwise fun id id' =>
      buildTaskKey id'.streamName id'.clientId ≠ buildTaskKey id.streamName id.clientId) : found w ids = ids := by
  induction ids with
  | nil => rfl
  | cons id ids ih =>
    obtain ⟨hhead, htail⟩ := List.pairwise_cons.1 honce
    obtain ⟨t, ht, htype⟩ := hread id List.mem_cons_self
    have hrest : found w ids = ids := ih (fun id' h => hread id' (List.mem_cons_of_mem _ h)) htail
    have hfilter : (ids.filter fun id' =>
        buildTaskKey id'.streamName id'.clientId ≠ buildTaskKey id.streamName id.clientId) = ids :=
      List.filter_eq_self.2 fun id' h => decide_eq_true (hhead id' h)
    rw [found, ht, hrest, hfilter, Option.map_some, htype]
    rfl

/-- For such targets the two agree. -/
theorem agree_of_stored {w : World} {ids : List TaskIdentifier}
    (hread : ∀ id ∈ ids, ∃ t, taskAt w (buildTaskKey id.streamName id.clientId) = some t ∧ t.type = id.type)
    (honce : ids.Pairwise fun id id' =>
      buildTaskKey id'.streamName id'.clientId ≠ buildTaskKey id.streamName id.clientId) :
    Agree (dropTasks ids w) (forgets ids w) := by
  have h := forgets_agree w ids
  rw [found_eq_self hread honce] at h
  exact h.symm

/-- A player. -/
def playerAt (now : ℤ) : StreamTask where
  task_id := 1001
  stream_name := "live"
  client_id := "b"
  type := .PLAYER
  protocol := .RTMP
  server_ip := "127.0.0.1"
  server_port := 1935
  start_time := now
  last_active_time := now
  auth_token := "t"

/-- A player is registered, and named twice: it is counted down once and twice. -/
theorem batches_disagree :
    let w := ((World.initial 1700000000000000000).run (registerTask (playerAt 1700000000000000000))).2
    let ids : List TaskIdentifier := [⟨"live", "b", .PLAYER⟩, ⟨"live", "b", .PLAYER⟩]
    totalOf ((w.run (deregisterTasksBatch ids)).2.hashes .global_players) = -1 ∧
      totalOf ((w.run (IStreamStateManager.deregisterTasksBatch ids)).2.hashes .global_players) = 0 ∧
      ¬ Agree (w.run (deregisterTasksBatch ids)).2 (w.run (IStreamStateManager.deregisterTasksBatch ids)).2 := by
  intro w ids
  have hfast : totalOf ((w.run (deregisterTasksBatch ids)).2.hashes .global_players) = -1 := by decide +kernel
  have hslow : totalOf ((w.run (IStreamStateManager.deregisterTasksBatch ids)).2.hashes .global_players) = 0 := by
    decide +kernel
  refine ⟨hfast, hslow, fun h => ?_⟩
  rw [h.total, hslow] at hfast
  exact absurd hfast (by decide)

end StreamGate.State
