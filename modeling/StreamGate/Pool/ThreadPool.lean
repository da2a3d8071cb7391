import Mathlib.Data.List.FinRange
import Mathlib.Logic.Function.Basic

/-!
# The thread pool

`ThreadPool` as a system of calls of `submit`, of workers and of one call of `stop_and_wait`.  What happens
under `_queueMutex` is cut where an atomic variable is read: a call of `submit` that has read `_stop` still
holds the mutex when it pushes its task, and a worker that has come back from `_condition.wait` still holds
it when it decides.  Between the two, `stop_and_wait` may set `_stop` and request the stop, as neither needs
the mutex.

`_condition.wait` with a stop token and a predicate returns, with the mutex, when there is a task or a stop
is requested; else the worker sleeps until it is signalled.  A signal may also be spurious.
-/

namespace StreamGate.Pool

/-- `ThreadPool::Config`.  A queue size of `0` means no limit. -/
structure Config where
  num_threads : ℕ
  max_queue_size : ℕ := 1000

/-- Where a call of `submit` is. -/
inductive Submit where
  /-- Before the mutex. -/
  | call
  /-- With the mutex, after `_stop` has been read as `false`. -/
  | admitted
  /-- The task is in the queue, the mutex is free again. -/
  | notifying
  /-- With a future. -/
  | returned
  /-- With an exception. -/
  | rejected
  deriving DecidableEq

/-- The task of the call is in the queue, or has been. -/
def Submit.accepted : Submit → Bool
  | notifying | returned => true
  | _ => false

/-- Where a worker is. -/
inductive Worker (ι : Type) where
  /-- At the top of its loop. -/
  | top
  /-- In `_condition.wait`, without the mutex. -/
  | asleep
  /-- Back from `_condition.wait`, with the mutex. -/
  | chosen
  /-- With a task, without the mutex. -/
  | running (i : ι)
  | exited
  deriving DecidableEq

/-- Where the call of `stop_and_wait` is. -/
inductive Stopper (n : ℕ) where
  | call
  /-- The workers that have not been asked to stop. -/
  | asking (ws : List (Fin n))
  | loading
  /-- In the timed loop. -/
  | draining (target : ℕ)
  /-- The workers that have not been joined. -/
  | joining (ws : List (Fin n))
  | returned
  deriving DecidableEq

/-- Who has the mutex. -/
inductive Holder (ι : Type) (n : ℕ) where
  | submit (i : ι)
  | worker (w : Fin n)
  deriving DecidableEq

/-- The pool, where everybody is, and the tasks that have been executed.  The counters are `uint64_t` in the source;
`counted_lt` bounds them. -/
structure ThreadPool (ι : Type) (n : ℕ) where
  stop : Bool
  tasks : List ι
  mutex : Option (Holder ι n)
  totalSubmitted : ℕ
  completedTasks : ℕ
  failedTasks : ℕ
  rejectedTasks : ℕ
  /-- The stop token of a worker. -/
  requested : Fin n → Bool
  /-- A worker that sleeps is about to wake up. -/
  signalled : Fin n → Bool
  submits : ι → Submit
  workers : Fin n → Worker ι
  stopper : Stopper n
  executed : List ι

/-- The constructor: without threads it throws. -/
def construct (ι : Type) (config : Config) : Option (ThreadPool ι config.num_threads) :=
  if config.num_threads = 0 then none
  else some
    { stop := false
      tasks := []
      mutex := none
      totalSubmitted := 0
      completedTasks := 0
      failedTasks := 0
      rejectedTasks := 0
      requested := fun _ => false
      signalled := fun _ => false
      submits := fun _ => .call
      workers := fun _ => .top
      stopper := .call
      executed := [] }

/-- What happens next. -/
inductive Event (ι : Type) (n : ℕ) where
  /-- The next step of a call of `submit`; `woken` is whom `notify_one` wakes, if this is that step. -/
  | submit (i : ι) (woken : Option (Fin n))
  /-- The next step of a worker; `threw` if this is the end of a task that throws. -/
  | worker (w : Fin n) (threw : Bool)
  /-- The next step of `stop_and_wait`; `timedOut` if it gives up waiting. -/
  | stop (timedOut : Bool)
  /-- `stop_and_wait` looks at the counters and goes on waiting. -/
  | poll
  /-- A worker wakes up without being notified. -/
  | spurious (w : Fin n)
  deriving DecidableEq

namespace ThreadPool

variable {ι : Type} [DecidableEq ι] {n : ℕ} (config : Config) (timed : Bool)

/-- A worker that sleeps and has not been signalled. -/
def Sleeps (p : ThreadPool ι n) (w : Fin n) : Prop := p.workers w = .asleep ∧ p.signalled w = false

instance (p : ThreadPool ι n) (w : Fin n) : Decidable (p.Sleeps w) := inferInstanceAs (Decidable (_ ∧ _))

/-- `_condition.notify_one()`: one that sleeps is signalled, if there is one. -/
def notifyOne (woken : Option (Fin n)) (p : ThreadPool ι n) : Option (ThreadPool ι n) :=
  match woken with
  | some w => if p.Sleeps w then some { p with signalled := Function.update p.signalled w true } else none
  | none => if ∃ w, p.Sleeps w then none else some p

/-- The capacity of the queue is exhausted. -/
def full (p : ThreadPool ι n) : Prop := 0 < config.max_queue_size ∧ config.max_queue_size ≤ p.tasks.length

instance (p : ThreadPool ι n) : Decidable (p.full config) := inferInstanceAs (Decidable (_ ∧ _))

/-- `submit`: the mutex and the check of `_stop`, the check of the capacity and the push, and
`notify_one`. -/
def submit (i : ι) (woken : Option (Fin n)) (p : ThreadPool ι n) : Option (ThreadPool ι n) :=
  match p.submits i with
  | .call =>
    if p.mutex = none then
      if p.stop then
        some { p with
          rejectedTasks := p.rejectedTasks + 1
          submits := Function.update p.submits i .rejected }
      else some { p with mutex := some (.submit i), submits := Function.update p.submits i .admitted }
    else none
  | .admitted =>
    if p.full config then
      some { p with
        mutex := none
        rejectedTasks := p.rejectedTasks + 1
        submits := Function.update p.submits i .rejected }
    else
      some { p with
        mutex := none
        tasks := p.tasks ++ [i]
        totalSubmitted := p.totalSubmitted + 1
        submits := Function.update p.submits i .notifying }
  | .notifying => (p.notifyOne woken).map fun q => { q with submits := Function.update q.submits i .returned }
  | .returned | .rejected => none

/-- `_condition.wait`, with the mutex: it returns if there is a task or a stop is requested. -/
def wait (w : Fin n) (p : ThreadPool ι n) : Option (ThreadPool ι n) :=
  if p.mutex = none then
    if p.tasks ≠ [] ∨ p.requested w then
      some { p with
        mutex := some (.worker w)
        signalled := Function.update p.signalled w false
        workers := Function.update p.workers w .chosen }
    else
      some { p with
        signalled := Function.update p.signalled w false
        workers := Function.update p.workers w .asleep }
  else none

/-- `worker_thread`. -/
def worker (w : Fin n) (threw : Bool) (p : ThreadPool ι n) : Option (ThreadPool ι n) :=
  match p.workers w with
  | .top => p.wait w
  | .asleep => if p.signalled w then p.wait w else none
  | .chosen =>
    match p.tasks with
    | [] =>
      some { p with
        mutex := none
        workers := Function.update p.workers w (if p.requested w then .exited else .top) }
    | i :: tasks =>
      some { p with
        mutex := none
        tasks := tasks
        workers := Function.update p.workers w (.running i) }
  | .running i =>
    some { p with
      completedTasks := if threw then p.completedTasks else p.completedTasks + 1
      failedTasks := if threw then p.failedTasks + 1 else p.failedTasks
      workers := Function.update p.workers w .top
      executed := p.executed ++ [i] }
  | .exited => none

/-- As many tasks have ended as were submitted. -/
def drained (target : ℕ) (p : ThreadPool ι n) : Prop := target ≤ p.completedTasks + p.failedTasks

instance (target : ℕ) (p : ThreadPool ι n) : Decidable (p.drained target) := inferInstanceAs (Decidable (_ ≤ _))

/-- `stop_and_wait`, with a timeout (`timed`) or without: set `_stop`, request the stop of every worker,
`notify_all`, wait for the counters, and join. -/
def stopAndWait (timedOut : Bool) (p : ThreadPool ι n) : Option (ThreadPool ι n) :=
  match p.stopper with
  | .call => some { p with stop := true, stopper := if p.stop then .returned else .asking (List.finRange n) }
  | .asking (w :: ws) =>
    some { p with
      requested := Function.update p.requested w true
      signalled := Function.update p.signalled w (p.signalled w || decide (p.workers w = .asleep))
      stopper := .asking ws }
  | .asking [] =>
    some { p with
      signalled := fun w => p.signalled w || decide (p.workers w = .asleep)
      stopper := .loading }
  | .loading => some { p with stopper := if timed then .draining p.totalSubmitted else .joining (List.finRange n) }
  | .draining target =>
    if p.drained target ∨ timedOut then some { p with stopper := .joining (List.finRange n) } else none
  | .joining (w :: ws) => if p.workers w = .exited then some { p with stopper := .joining ws } else none
  | .joining [] => some { p with stopper := .returned }
  | .returned => none

/-- `stop_and_wait` sleeps and looks again. -/
def poll (p : ThreadPool ι n) : Option (ThreadPool ι n) :=
  match p.stopper with
  | .draining target => if p.drained target then none else some p
  | _ => none

/-- One step. -/
def step : Event ι n → ThreadPool ι n → Option (ThreadPool ι n)
  | .submit i woken => submit config i woken
  | .worker w threw => worker w threw
  | .stop timedOut => stopAndWait timed timedOut
  | .poll => poll
  | .spurious w => fun p => if p.Sleeps w then some { p with signalled := Function.update p.signalled w true } else none

/-! ### What a step does -/

section Steps

variable {config timed}

/-- The steps, one by one.  `i` is a call of `submit`, `w` a worker. -/
inductive Step (config : Config) (timed : Bool) (p : ThreadPool ι n) : Event ι n → ThreadPool ι n → Prop
  | refuse {i : ι} (o : Option (Fin n)) (hi : p.submits i = .call) (hm : p.mutex = none) (hs : p.stop = true) :
      Step config timed p (.submit i o)
        { p with
          rejectedTasks := p.rejectedTasks + 1
          submits := Function.update p.submits i .rejected }
  | enter {i : ι} (o : Option (Fin n)) (hi : p.submits i = .call) (hm : p.mutex = none) (hs : p.stop = false) :
      Step config timed p (.submit i o)
        { p with mutex := some (.submit i), submits := Function.update p.submits i .admitted }
  | full {i : ι} (o : Option (Fin n)) (hi : p.submits i = .admitted) (hf : p.full config) :
      Step config timed p (.submit i o)
        { p with
          mutex := none
          rejectedTasks := p.rejectedTasks + 1
          submits := Function.update p.submits i .rejected }
  | push {i : ι} (o : Option (Fin n)) (hi : p.submits i = .admitted) (hf : ¬ p.full config) :
      Step config timed p (.submit i o)
        { p with
          mutex := none
          tasks := p.tasks ++ [i]
          totalSubmitted := p.totalSubmitted + 1
          submits := Function.update p.submits i .notifying }
  | notify {i : ι} {w : Fin n} (hi : p.submits i = .notifying) (hw : p.Sleeps w) :
      Step config timed p (.submit i (some w))
        { p with
          signalled := Function.update p.signalled w true
          submits := Function.update p.submits i .returned }
  | notifyNone {i : ι} (hi : p.submits i = .notifying) (hw : ¬ ∃ w, p.Sleeps w) :
      Step config timed p (.submit i none) { p with submits := Function.update p.submits i .returned }
  | choose {w : Fin n} (b : Bool) (hw : p.workers w = .top ∨ p.workers w = .asleep ∧ p.signalled w = true)
      (hm : p.mutex = none) (ht : p.tasks ≠ [] ∨ p.requested w = true) :
      Step config timed p (.worker w b)
        { p with
          mutex := some (.worker w)
          signalled := Function.update p.signalled w false
          workers := Function.update p.workers w .chosen }
  | sleep {w : Fin n} (b : Bool) (hw : p.workers w = .top ∨ p.workers w = .asleep ∧ p.signalled w = true)
      (hm : p.mutex = none) (ht : p.tasks = []) (hr : p.requested w = false) :
      Step config timed p (.worker w b)
        { p with
          signalled := Function.update p.signalled w false
          workers := Function.update p.workers w .asleep }
  | leave {w : Fin n} (b : Bool) (hw : p.workers w = .chosen) (ht : p.tasks = []) :
      Step config timed p (.worker w b)
        { p with
          mutex := none
          workers := Function.update p.workers w (if p.requested w then .exited else .top) }
  | pop {w : Fin n} {i : ι} {tasks : List ι} (b : Bool) (hw : p.workers w = .chosen) (ht : p.tasks = i :: tasks) :
      Step config timed p (.worker w b)
        { p with
          mutex := none
          tasks := tasks
          workers := Function.update p.workers w (.running i) }
  | finish {w : Fin n} {i : ι} (b : Bool) (hw : p.workers w = .running i) :
      Step config timed p (.worker w b)
        { p with
          completedTasks := if b then p.completedTasks else p.completedTasks + 1
          failedTasks := if b then p.failedTasks + 1 else p.failedTasks
          workers := Function.update p.workers w .top
          executed := p.executed ++ [i] }
  | exchange (b : Bool) (hs : p.stopper = .call) :
      Step config timed p (.stop b)
        { p with stop := true, stopper := if p.stop then .returned else .asking (List.finRange n) }
  | ask {w : Fin n} {ws : List (Fin n)} (b : Bool) (hs : p.stopper = .asking (w :: ws)) :
      Step config timed p (.stop b)
        { p with
          requested := Function.update p.requested w true
          signalled := Function.update p.signalled w (p.signalled w || decide (p.workers w = .asleep))
          stopper := .asking ws }
  | notifyAll (b : Bool) (hs : p.stopper = .asking []) :
      Step config timed p (.stop b)
        { p with
          signalled := fun w => p.signalled w || decide (p.workers w = .asleep)
          stopper := .loading }
  | load (b : Bool) (hs : p.stopper = .loading) :
      Step config timed p (.stop b)
        { p with stopper := if timed then .draining p.totalSubmitted else .joining (List.finRange n) }
  | drain {target : ℕ} (b : Bool) (hs : p.stopper = .draining target) (hd : p.drained target ∨ b = true) :
      Step config timed p (.stop b) { p with stopper := .joining (List.finRange n) }
  | join {w : Fin n} {ws : List (Fin n)} (b : Bool) (hs : p.stopper = .joining (w :: ws))
      (hw : p.workers w = .exited) : Step config timed p (.stop b) { p with stopper := .joining ws }
  | back (b : Bool) (hs : p.stopper = .joining []) : Step config timed p (.stop b) { p with stopper := .returned }
  | poll {target : ℕ} (hs : p.stopper = .draining target) : Step config timed p .poll p
  | spurious {w : Fin n} (hw : p.Sleeps w) :
      Step config timed p (.spurious w) { p with signalled := Function.update p.signalled w true }

theorem wait_eq_some {p q : ThreadPool ι n} {w : Fin n} {b : Bool} (h : p.wait w = some q)
    (hw : p.workers w = .top ∨ p.workers w = .asleep ∧ p.signalled w = true) :
    Step config timed p (.worker w b) q := by
  unfold wait at h
  split at h
  · rename_i hm
    split at h
    · rename_i ht
      obtain rfl := Option.some.inj h
      exact .choose b hw hm ht
    · rename_i ht
      rw [not_or, not_not, Bool.not_eq_true] at ht
      obtain rfl := Option.some.inj h
      exact .sleep b hw hm ht.1 ht.2
  · cases h

theorem submit_eq_some {p q : ThreadPool ι n} {i : ι} {o : Option (Fin n)} (h : submit config i o p = some q) :
    Step config timed p (.submit i o) q := by
  unfold submit at h
  split at h
  · rename_i hi
    split at h
    · rename_i hm
      split at h
      · rename_i hs
        obtain rfl := Option.some.inj h
        exact .refuse o hi hm hs
      · rename_i hs
        obtain rfl := Option.some.inj h
        exact .enter o hi hm (Bool.eq_false_iff.2 hs)
    · cases h
  · rename_i hi
    split at h
    · rename_i hf
      obtain rfl := Option.some.inj h
      exact .full o hi hf
    · rename_i hf
      obtain rfl := Option.some.inj h
      exact .push o hi hf
  · rename_i hi
    obtain ⟨r, hr, rfl⟩ := Option.map_eq_some_iff.1 h
    cases o with
    | some w =>
      simp only [notifyOne] at hr
      split at hr
      · rename_i hw
        obtain rfl := Option.some.inj hr
        exact .notify hi hw
      · cases hr
    | none =>
      simp only [notifyOne] at hr
      split at hr
      · cases hr
      · rename_i hw
        obtain rfl := Option.some.inj hr
        exact .notifyNone hi hw
  · cases h
  · cases h

theorem worker_eq_some {p q : ThreadPool ι n} {w : Fin n} {b : Bool} (h : worker w b p = some q) :
    Step config timed p (.worker w b) q := by
  unfold worker at h
  split at h
  · rename_i hw
    exact wait_eq_some h (.inl hw)
  · rename_i hw
    split at h
    · rename_i hs
      exact wait_eq_some h (.inr ⟨hw, hs⟩)
    · cases h
  · rename_i hw
    split at h
    · rename_i ht
      obtain rfl := Option.some.inj h
      exact .leave b hw ht
    · rename_i i tasks ht
      obtain rfl := Option.some.inj h
      exact .pop b hw ht
  · rename_i i hw
    obtain rfl := Option.some.inj h
    exact .finish b hw
  · cases h

theorem stopAndWait_eq_some {p q : ThreadPool ι n} {b : Bool} (h : stopAndWait timed b p = some q) :
    Step config timed p (.stop b) q := by
  unfold stopAndWait at h
  split at h
  · rename_i hs
    obtain rfl := Option.some.inj h
    exact .exchange b hs
  · rename_i w ws hs
    obtain rfl := Option.some.inj h
    exact .ask b hs
  · rename_i hs
    obtain rfl := Option.some.inj h
    exact .notifyAll b hs
  · rename_i hs
    obtain rfl := Option.some.inj h
    exact .load b hs
  · rename_i target hs
    split at h
    · rename_i hd
      obtain rfl := Option.some.inj h
      exact .drain b hs hd
    · cases h
  · rename_i w ws hs
    split at h
    · rename_i hw
      obtain rfl := Option.some.inj h
      exact .join b hs hw
    · cases h
  · rename_i hs
    obtain rfl := Option.some.inj h
    exact .back b hs
  · cases h

/-- **These are the steps.** -/
theorem step_eq_some {p q : ThreadPool ι n} {e : Event ι n} (h : step config timed e p = some q) :
    Step config timed p e q := by
  cases e with
  | submit i o => exact submit_eq_some h
  | worker w b => exact worker_eq_some h
  | stop b => exact stopAndWait_eq_some h
  | poll =>
    simp only [step, ThreadPool.poll] at h
    split at h
    · rename_i target hs
      split at h
      · cases h
      · obtain rfl := Option.some.inj h
        exact .poll hs
    · cases h
  | spurious w =>
    simp only [step] at h
    split at h
    · rename_i hw
      obtain rfl := Option.some.inj h
      exact .spurious hw
    · cases h

end Steps

end ThreadPool

end StreamGate.Pool
