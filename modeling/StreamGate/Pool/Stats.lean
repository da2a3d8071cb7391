import StreamGate.Pool.Drain

/-!
# What the counters of the pool count

`submit` wraps a callable twice: in a `std::packaged_task`, which stores in the future what the callable returns or
throws, and in a function that calls it.  `worker_thread` looks at what comes out of the outer one, and counts the
task as completed or failed.  The counters add up (`conserved`), but nothing that a callable throws gets that far.
-/

namespace StreamGate.Pool

open StreamGate.Lib

/-! ### The two wrappers -/

section Wrappers

variable {ε ρ : Type}

/-- What comes out of a call: what the callable throws, or what the wrapper throws itself. -/
inductive Thrown (ε : Type) where
  | callable (e : ε)
  | promise_already_satisfied

/-- `std::packaged_task`: a callable, by what it returns or throws, and the shared state of its future. -/
structure PackagedTask (ε ρ : Type) where
  callable : Except ε ρ
  shared : Option (Except ε ρ) := none

/-- `packaged_task::operator()`: it stores what the callable returns or throws, and returns. -/
def PackagedTask.call (task : PackagedTask ε ρ) : Except (Thrown ε) Unit × PackagedTask ε ρ :=
  match task.shared with
  | some _ => (.error .promise_already_satisfied, task)
  | none => (.ok (), { task with shared := some task.callable })

/-- The function in the queue. -/
def queued (task : PackagedTask ε ρ) : Except (Thrown ε) Unit := task.call.1

/-- The callable returns normally. -/
def returns : Except ε ρ → Bool
  | .ok _ => true
  | .error _ => false

end Wrappers

namespace ThreadPool

variable {ι : Type} [DecidableEq ι] {n : ℕ} {config : Config} {timed : Bool} {p q : ThreadPool ι n}
  {e : Event ι n} {ε ρ : Type} {callable : ι → Except ε ρ}

/-- The packaged task of the call `i`.  It has been called if the task has been executed. -/
def packaged (callable : ι → Except ε ρ) (p : ThreadPool ι n) (i : ι) : PackagedTask ε ρ where
  callable := callable i
  shared := if i ∈ p.executed then some (callable i) else none

/-- A worker that ends a task has caught something if the function from the queue threw it. -/
def caught (callable : ι → Except ε ρ) (p : ThreadPool ι n) : Event ι n → Event ι n
  | .worker w b =>
    .worker w (match p.workers w with
      | .running i => !returns (queued (p.packaged callable i))
      | _ => b)
  | e => e

/-- One step of a pool whose calls of `submit` have these callables. -/
def stepWith (callable : ι → Except ε ρ) (config : Config) (timed : Bool) (e : Event ι n) (p : ThreadPool ι n) :
    Option (ThreadPool ι n) := step config timed (p.caught callable e) p

/-- A task that has been taken and has not ended. -/
def unfinished : Worker ι → ℕ
  | .running _ => 1
  | _ => 0

/-- Submitted tasks are in the queue, with a worker, or counted at their end. -/
def Conserved (p : ThreadPool ι n) : Prop :=
  p.totalSubmitted = p.tasks.length + (∑ w, unfinished (p.workers w)) + p.completedTasks + p.failedTasks

/-- The counters are what their names say. -/
structure Classified (callable : ι → Except ε ρ) (p : ThreadPool ι n) : Prop where
  conserved : Conserved p
  completed : p.completedTasks = p.executed.countP fun i => returns (callable i)
  failed : p.failedTasks = p.executed.countP fun i => !returns (callable i)

/-! ### Conservation -/

omit [DecidableEq ι] in
/-- A worker that comes to the queue has no task. -/
theorem unfinished_waiting {w : Fin n} (h : p.workers w = .top ∨ (p.workers w = .asleep ∧ p.signalled w = true)) :
    unfinished (p.workers w) = 0 := by
  rcases h with h | ⟨h, -⟩
  · rw [h]
    rfl
  · rw [h]
    rfl

theorem Conserved.step (h : Conserved p) (hs : Step config timed p e q) : Conserved q := by
  unfold Conserved at h ⊢
  cases hs with
  | push o hi hf =>
    dsimp only
    rw [List.length_append, List.length_singleton]
    omega
  | @choose w b hw hm ht =>
    have hsum := sum_move (b := 0) (unfinished_waiting hw) (rfl : unfinished (ι := ι) .chosen = 0)
    dsimp only
    omega
  | @sleep w b hw hm ht hr =>
    have hsum := sum_move (b := 0) (unfinished_waiting hw) (rfl : unfinished (ι := ι) .asleep = 0)
    dsimp only
    omega
  | @leave w b hw ht =>
    have hgone : unfinished (if p.requested w then Worker.exited else (.top : Worker ι)) = 0 := by split <;> rfl
    have hsum := sum_move (a := 0) (congrArg unfinished hw) hgone
    dsimp only
    omega
  | @pop w i tasks b hw ht =>
    have hsum := sum_move (a := 0) (b := 1) (congrArg unfinished hw) (rfl : unfinished (.running i) = 1)
    rw [ht, List.length_cons] at h
    dsimp only
    omega
  | @finish w i b hw =>
    have hsum := sum_move (a := 1) (b := 0) (congrArg unfinished hw) (rfl : unfinished (ι := ι) .top = 0)
    dsimp only
    split
    · omega
    · omega
  | _ => exact h

/-! ### The range of the counters -/

/-- What the four counters have counted. -/
def counted (p : ThreadPool ι n) : ℕ := p.totalSubmitted + p.completedTasks + p.failedTasks + p.rejectedTasks

/-- A step moves one of them by one, at most. -/
theorem counted_step (hs : Step config timed p e q) : q.counted ≤ p.counted + 1 := by
  unfold counted
  cases hs with
  | finish b hw =>
    dsimp only
    split
    · omega
    · omega
  | poll hs => exact Nat.le_succ _
  | _ =>
    dsimp only
    omega

omit [DecidableEq ι] in
theorem counted_construct {p : ThreadPool ι config.num_threads} (h : construct ι config = some p) : p.counted = 0 := by
  unfold Pool.construct at h
  split at h
  · cases h
  · obtain rfl := Option.some.inj h
    rfl

/-- **No counter wraps** before the pool has taken `2 ^ 64` steps. -/
theorem counted_lt {p₀ p : ThreadPool ι config.num_threads} (hnew : construct ι config = some p₀)
    {es : List (Event ι config.num_threads)} (hrun : tries (stepWith callable config timed) es p₀ = some p)
    (hes : es.length < 2 ^ 64) : p.counted < 2 ^ 64 := by
  have hle : p.counted ≤ es.length := by
    refine tries_history (I := fun es p => p.counted ≤ es.length) ?_ hrun (Nat.le_of_eq (counted_construct hnew))
    intro es p e q hp hstep
    have hnext : q.counted ≤ p.counted + 1 := counted_step (step_eq_some hstep)
    rw [List.length_append, List.length_singleton]
    exact hnext.trans (Nat.succ_le_succ hp)
  exact hle.trans_lt hes

/-! ### What reaches the worker -/

omit [DecidableEq ι] in
/-- A task that is with a worker has not been executed. -/
theorem Sane.not_executed (h : Sane p) {w : Fin n} {i : ι} (hw : p.workers w = .running i) : i ∉ p.executed := by
  obtain ⟨place, hplace⟩ := h.placed
  intro hi
  have hdone := (hplace.done i).1 hi
  rw [(hplace.running w i).1 hw] at hdone
  cases hdone

/-- **Whatever a callable does, the worker sees a task that returns.** -/
theorem Sane.queued_returns (h : Sane p) {w : Fin n} {i : ι} (hw : p.workers w = .running i) :
    returns (queued (p.packaged callable i)) = true := by
  have hnew : (p.packaged callable i).shared = none := if_neg (h.not_executed hw)
  unfold queued PackagedTask.call
  rw [hnew]
  rfl

/-- So no worker catches anything. -/
theorem Sane.caught_false (h : Sane p) {w : Fin n} {b : Bool} {i : ι} (he : p.caught callable e = .worker w b)
    (hw : p.workers w = .running i) : b = false := by
  cases e with
  | worker w' b' =>
    obtain ⟨rfl, hb⟩ := Event.worker.inj he
    rw [hw] at hb
    exact hb.symm.trans (congrArg Bool.not (h.queued_returns hw))
  | _ => cases he

/-- Every task is counted as completed. -/
structure Counted (p : ThreadPool ι n) : Prop where
  sane : Sane p
  conserved : Conserved p
  completed : p.completedTasks = p.executed.length
  failed : p.failedTasks = 0

theorem Counted.step (h : Counted p) (hs : stepWith callable config timed e p = some q) : Counted q := by
  have hstep : ThreadPool.step config timed (p.caught callable e) p = some q := hs
  have hfalse : ∀ w b i, p.caught callable e = .worker w b → p.workers w = .running i → b = false :=
    fun _ _ _ => h.sane.caught_false
  suffices q.completedTasks = q.executed.length ∧ q.failedTasks = 0 from
    ⟨h.sane.step hstep, h.conserved.step (step_eq_some hstep), this.1, this.2⟩
  generalize p.caught callable e = e' at hstep hfalse
  cases step_eq_some hstep with
  | @finish w i b hw =>
    obtain rfl := hfalse w b i rfl hw
    refine ⟨?_, h.failed⟩
    dsimp only
    rw [List.length_append, List.length_singleton, ← h.completed, if_neg Bool.false_ne_true]
  | _ => exact ⟨h.completed, h.failed⟩

omit [DecidableEq ι] in
theorem Counted.construct {p : ThreadPool ι config.num_threads} (h : construct ι config = some p) : Counted p := by
  refine ⟨.construct h, ?_, ?_, ?_⟩
  all_goals
    unfold Pool.construct at h
    split at h
    · cases h
    · obtain rfl := Option.some.inj h
      simp [Conserved, unfinished]

/-- **What the counters are worth.**  In every interleaving of submitters, workers and `stop_and_wait` they add up, and
they are what their names say exactly as long as no callable that was executed has thrown. -/
theorem classified_iff (callable : ι → Except ε ρ) (config : Config) (timed : Bool)
    {p₀ p : ThreadPool ι config.num_threads} (hnew : construct ι config = some p₀)
    {es : List (Event ι config.num_threads)} (hrun : tries (stepWith callable config timed) es p₀ = some p) :
    Conserved p ∧ (Classified callable p ↔ ∀ i ∈ p.executed, returns (callable i) = true) := by
  have h : Counted p := tries_inv (fun _ _ _ hs hstep => hs.step hstep) hrun (.construct hnew)
  refine ⟨h.conserved, fun hc i hi => ?_, fun hall => ⟨h.conserved, ?_, ?_⟩⟩
  · have hnone : p.executed.countP (fun i => !returns (callable i)) = 0 := hc.failed.symm.trans h.failed
    simpa using List.countP_eq_zero.1 hnone i hi
  · rw [h.completed, List.countP_eq_length.2 hall]
  · rw [h.failed, List.countP_eq_zero.2 fun i hi => by rw [hall i hi]; decide]

/-- One task that returns, and one worker. -/
theorem classified_solo : ∃ p₀ p, construct Unit ⟨1, 1000⟩ = some p₀ ∧
    tries (stepWith (fun _ => (.ok 7 : Except Unit ℕ)) ⟨1, 1000⟩ false) soloEvents p₀ = some p ∧ p.executed = [()] ∧
    Classified (fun _ => (.ok 7 : Except Unit ℕ)) p := by
  let p₀ := (construct Unit ⟨1, 1000⟩).get rfl
  have hend : (tries (stepWith (fun _ => (.ok 7 : Except Unit ℕ)) ⟨1, 1000⟩ false) soloEvents p₀).map
      (fun p => p.executed) = some [()] := by decide +kernel
  obtain ⟨p, hrun, hexec⟩ := Option.map_eq_some_iff.1 hend
  exact ⟨p₀, p, rfl, hrun, hexec, (classified_iff (fun _ => (.ok 7 : Except Unit ℕ)) ⟨1, 1000⟩ false rfl hrun).2.2
    fun _ _ => rfl⟩

/-- The same with a callable that throws: it is counted as completed. -/
theorem not_classified_solo : ∃ p₀ p, construct Unit ⟨1, 1000⟩ = some p₀ ∧
    tries (stepWith (fun _ => (.error () : Except Unit ℕ)) ⟨1, 1000⟩ false) soloEvents p₀ = some p ∧
    p.completedTasks = 1 ∧ p.failedTasks = 0 ∧ ¬ Classified (fun _ => (.error () : Except Unit ℕ)) p := by
  let p₀ := (construct Unit ⟨1, 1000⟩).get rfl
  have hend : (tries (stepWith (fun _ => (.error () : Except Unit ℕ)) ⟨1, 1000⟩ false) soloEvents p₀).map
      (fun p => (p.executed, p.completedTasks, p.failedTasks)) = some ([()], 1, 0) := by decide +kernel
  obtain ⟨p, hrun, hp⟩ := Option.map_eq_some_iff.1 hend
  obtain ⟨hexec, hcompleted, hfailed⟩ : p.executed = [()] ∧ p.completedTasks = 1 ∧ p.failedTasks = 0 := by
    simpa using hp
  refine ⟨p₀, p, rfl, hrun, hcompleted, hfailed, fun h => ?_⟩
  have hcount := h.completed
  rw [hexec, hcompleted] at hcount
  exact absurd hcount (by decide)

end ThreadPool

end StreamGate.Pool
