import Mathlib.Algebra.Order.BigOperators.Group.Finset
import Mathlib.Data.Fintype.BigOperators
import StreamGate.Lib.Runs
import StreamGate.Pool.ThreadPool

/-!
# Draining the pool

A worker leaves only with the mutex, when it finds the queue empty and a stop requested.  By then `_stop` is
set, so no call of `submit` is admitted after that; and one that had been admitted before has the mutex,
so it has pushed its task by then.  Hence the queue stays empty once a worker has left (`Closed`), and when
all have left every accepted task has been taken and run.  `Placed` follows each task through the pool.
That they all do leave is a matter of counting: every step uses up some of `potential`, and in a state
without a further step `stop_and_wait` has returned (`returned_of_stuck`).
-/

namespace StreamGate.Pool

open StreamGate.Lib

variable {ι : Type} [DecidableEq ι] {n : ℕ} {config : Config} {timed : Bool} {p q : ThreadPool ι n}
  {e : Event ι n}

/-- A sum over all, after one has changed. -/
theorem sum_update {α κ : Type} [Fintype κ] [DecidableEq κ] (f : α → ℕ) (g : κ → α) (k : κ) (v : α) :
    (∑ j, f (Function.update g k v j)) + f (g k) = (∑ j, f (g j)) + f v := by
  rw [← Finset.add_sum_erase _ _ (Finset.mem_univ k), ← Finset.add_sum_erase _ (fun j => f (g j)) (Finset.mem_univ k),
    Function.update_self]
  have : ∑ j ∈ Finset.univ.erase k, f (Function.update g k v j) = ∑ j ∈ Finset.univ.erase k, f (g j) :=
    Finset.sum_congr rfl fun j hj => by rw [Function.update_of_ne (Finset.ne_of_mem_erase hj)]
  omega

/-- The same, with the value before and the value after. -/
theorem sum_move {α κ : Type} [Fintype κ] [DecidableEq κ] {f : α → ℕ} {g : κ → α} {k : κ} {v : α} {a b : ℕ}
    (ha : f (g k) = a) (hb : f v = b) : (∑ j, f (Function.update g k v j)) + a = (∑ j, f (g j)) + b := by
  rw [← ha, ← hb]
  exact sum_update f g k v

/-- The workers that `stop_and_wait` has not asked to stop. -/
def Stopper.unasked : Stopper n → List (Fin n)
  | .call => List.finRange n
  | .asking ws => ws
  | _ => []

/-- The workers that it has not joined. -/
def Stopper.unjoined : Stopper n → List (Fin n)
  | .joining ws => ws
  | .returned => []
  | _ => List.finRange n

/-! The steps that everybody has before them.  A task in the queue pays for the worker that runs it, and a
signal for the worker that wakes up. -/

def Submit.potential : Submit → ℕ
  | .call => 3
  | .admitted => 2
  | .notifying => 1
  | .returned | .rejected => 0

def Worker.potential : Worker ι → ℕ
  | .running _ => 3
  | .top => 2
  | .chosen => 1
  | .asleep | .exited => 0

def signal (b : Bool) : ℕ := if b then 2 else 0

def Stopper.potential : Stopper n → ℕ
  | .call => 5 + 6 * n
  | .asking ws => 4 + 3 * n + 3 * ws.length
  | .loading => 3 + n
  | .draining _ => 2 + n
  | .joining ws => 1 + ws.length
  | .returned => 0

namespace Event

/-- A step of a call of `submit`. -/
def ofSubmit : Event ι n → Bool
  | .submit _ _ => true
  | _ => false

/-- A step of the call `i`. -/
def ofCall (i : ι) : Event ι n → Bool
  | .submit j _ => j = i
  | _ => false

def ofWorker : Event ι n → Bool
  | .worker _ _ => true
  | _ => false

def ofStop : Event ι n → Bool
  | .stop _ => true
  | _ => false

def ofSpurious : Event ι n → Bool
  | .spurious _ => true
  | _ => false

/-- What an event may add to the steps of the workers and of `stop_and_wait`: a task in the queue, or a
signal. -/
def gain (e : Event ι n) : ℕ := 3 * e.ofSubmit.toNat + 2 * e.ofSpurious.toNat

end Event

namespace ThreadPool

/-! ### The mutex, the signals, and the way out -/

/-- Whoever is in a section of the mutex holds it. -/
structure Locked (p : ThreadPool ι n) : Prop where
  submit : ∀ i, p.submits i = .admitted ↔ p.mutex = some (.submit i)
  worker : ∀ w, p.workers w = .chosen ↔ p.mutex = some (.worker w)

/-- What `stop_and_wait` has done, and that no worker sleeps through it. -/
structure Signals (p : ThreadPool ι n) : Prop where
  stop : p.stop = true ↔ p.stopper ≠ .call
  request : ∀ w, p.requested w = true → p.stopper ≠ .call
  asked : ∀ w, w ∉ p.stopper.unasked → p.requested w = true
  joined : ∀ w, w ∉ p.stopper.unjoined → p.workers w = .exited
  woken : ∀ w, p.workers w = .asleep → p.requested w = true → p.signalled w = true
  /-- A worker that comes back to an empty queue was asked to stop. -/
  chosen : ∀ w, p.workers w = .chosen → p.tasks = [] → p.requested w = true

/-- Once a worker has left, the queue is empty and no call is about to push. -/
def Closed (p : ThreadPool ι n) : Prop :=
  ∀ w, p.workers w = .exited → p.requested w = true ∧ p.tasks = [] ∧ ∀ i, p.submits i ≠ .admitted

theorem Locked.step (h : Locked p) (hs : Step config timed p e q) : Locked q := by
  obtain ⟨hsub, hwork⟩ := h
  cases hs <;> constructor <;> grind [Function.update_apply]

theorem Signals.step (h : Signals p) (hl : Locked p) (hs : Step config timed p e q) : Signals q where
  stop := by
    have hstop := h.stop
    cases hs <;> grind
  request := by
    have hreq := h.request
    cases hs <;> grind [Function.update_apply]
  asked := by
    have hasked := h.asked
    have hstop := h.stop
    cases hs <;> grind [Function.update_apply, Stopper.unasked]
  joined := by
    have hjoined := h.joined
    have hstop := h.stop
    cases hs <;> grind [Function.update_apply, Stopper.unjoined]
  woken := by
    have hwoken := h.woken
    cases hs <;> grind [Function.update_apply]
  chosen := by
    have hchosen := h.chosen
    have hwork := hl.worker
    have hsub := hl.submit
    cases hs <;> grind [Function.update_apply]

/-- **No task is accepted once a worker has left.** -/
theorem Closed.step (h : Closed p) (hl : Locked p) (hg : Signals p) (hs : Step config timed p e q) : Closed q := by
  intro w hw
  cases hs with
  | enter o hi hm hstop =>
    -- `_stop` has been set before the worker left
    have hset := hg.stop.2 (hg.request w (h w hw).1)
    rw [hstop] at hset
    cases hset
  | push o hi hf => exact absurd hi ((h w hw).2.2 _)
  | @leave w' b hc ht =>
    by_cases hww : w = w'
    · subst hww
      refine ⟨hg.chosen w hc ht, ht, fun i hi => ?_⟩
      -- the worker has the mutex, so the call has not
      have hmutex := (hl.worker w).1 hc
      rw [(hl.submit i).1 hi] at hmutex
      cases hmutex
    · exact h w (by simpa [Function.update_of_ne hww] using hw)
  | _ =>
    have hclosed := h w
    grind [Function.update_apply]

/-! ### Where the tasks are -/

/-- Where the task of a call is. -/
inductive Place (n : ℕ) where
  | out
  | queued
  | running (w : Fin n)
  | done

/-- Every task is in one place. -/
structure Placed (p : ThreadPool ι n) (place : ι → Place n) : Prop where
  accepted : ∀ i, (p.submits i).accepted = true ↔ place i ≠ .out
  queued : ∀ i, i ∈ p.tasks ↔ place i = .queued
  running : ∀ w i, p.workers w = .running i ↔ place i = .running w
  done : ∀ i, i ∈ p.executed ↔ place i = .done
  once : p.tasks.Nodup ∧ p.executed.Nodup

omit [DecidableEq ι] in
/-- A step that moves no task. -/
theorem Placed.quiet {place : ι → Place n} (h : Placed p place)
    (hsub : ∀ i, (q.submits i).accepted = (p.submits i).accepted) (htasks : q.tasks = p.tasks)
    (hrun : ∀ w i, q.workers w = .running i ↔ p.workers w = .running i) (hdone : q.executed = p.executed) :
    Placed q place where
  accepted i := by rw [hsub]; exact h.accepted i
  queued i := by rw [htasks]; exact h.queued i
  running w i := (hrun w i).trans (h.running w i)
  done i := by rw [hdone]; exact h.done i
  once := by rw [htasks, hdone]; exact h.once

/-- **Every task goes one way.** -/
theorem Placed.step {place : ι → Place n} (h : Placed p place) (hs : Step config timed p e q) :
    ∃ place', Placed q place' := by
  cases hs with
  | @push i o hi hf =>
    have hout : place i = .out := by
      by_contra hne
      have := (h.accepted i).2 hne
      rw [hi] at this
      cases this
    refine ⟨Function.update place i .queued, fun j => ?_, fun j => ?_, fun w j => ?_, fun j => ?_, ?_, h.once.2⟩
    · have := h.accepted j
      grind [Function.update_apply, Submit.accepted]
    · have := h.queued j
      grind [Function.update_apply]
    · have := h.running w j
      grind [Function.update_apply]
    · have := h.done j
      grind [Function.update_apply]
    · have hnew : i ∉ p.tasks := fun hi => by
        rw [h.queued, hout] at hi
        cases hi
      rw [← List.concat_eq_append]
      exact h.once.1.concat hnew
  | @pop w i tasks b hw ht =>
    have hin : place i = .queued := (h.queued i).1 (by rw [ht]; exact List.mem_cons_self)
    obtain ⟨hnot, hnodup⟩ := List.nodup_cons.1 (ht ▸ h.once.1)
    refine ⟨Function.update place i (.running w), fun j => ?_, fun j => ?_, fun w' j => ?_, fun j => ?_,
      hnodup, h.once.2⟩
    · have := h.accepted j
      grind [Function.update_apply]
    · have := h.queued j
      grind [Function.update_apply]
    · have := h.running w' j
      have hwj := h.running w j
      grind [Function.update_apply]
    · have := h.done j
      grind [Function.update_apply]
  | @finish w i b hw =>
    have hin : place i = .running w := (h.running w i).1 hw
    refine ⟨Function.update place i .done, fun j => ?_, fun j => ?_, fun w' j => ?_, fun j => ?_, h.once.1, ?_⟩
    · have := h.accepted j
      grind [Function.update_apply]
    · have := h.queued j
      grind [Function.update_apply]
    · have := h.running w' j
      grind [Function.update_apply]
    · have := h.done j
      grind [Function.update_apply]
    · have hnew : i ∉ p.executed := fun hi => by
        rw [h.done, hin] at hi
        cases hi
      rw [← List.concat_eq_append]
      exact h.once.2.concat hnew
  | _ => exact ⟨place, h.quiet (by grind [Function.update_apply, Submit.accepted]) rfl
      (by grind [Function.update_apply]) rfl⟩

/-! ### No lost signal -/

/-- If there is a task in the queue, a worker is awake or is going to be woken. -/
def Alert (p : ThreadPool ι n) : Prop :=
  p.tasks ≠ [] → (∃ i, p.submits i = .notifying) ∨
    ∃ w, p.workers w ≠ .exited ∧ (p.workers w = .asleep → p.signalled w = true)

theorem Alert.step (h : Alert p) (hc : Closed p) (hn : n ≠ 0) (hs : Step config timed p e q) : Alert q := by
  intro htasks
  cases hs with
  | @push i o hi hf => exact .inl ⟨i, Function.update_self ..⟩
  | @notify i w hi hw =>
    refine .inr ⟨w, ?_, fun _ => Function.update_self ..⟩
    simp [hw.1]
  | @notifyNone i hi hw =>
    -- then nobody sleeps, and nobody has left
    let w : Fin n := ⟨0, Nat.pos_of_ne_zero hn⟩
    refine .inr ⟨w, fun hexit => htasks (hc w hexit).2.1, fun hsleep => ?_⟩
    by_contra hsig
    exact hw ⟨w, hsleep, by simpa using hsig⟩
  | @choose w b hw hm ht => exact .inr ⟨w, by simp⟩
  | sleep b hw hm ht => exact absurd ht htasks
  | leave b hw ht => exact absurd ht htasks
  | @pop w i tasks b hw ht => exact .inr ⟨w, by simp⟩
  | @finish w i b hw => exact .inr ⟨w, by simp⟩
  | _ =>
    rcases h htasks with ⟨j, hj⟩ | ⟨w, hexit, hsig⟩
    · exact .inl ⟨j, by grind [Function.update_apply]⟩
    · exact .inr ⟨w, by grind [Function.update_apply]⟩

/-! ### Reachable pools -/

/-- What holds in every state of a run. -/
structure Sane (p : ThreadPool ι n) : Prop where
  threads : n ≠ 0
  locked : Locked p
  signals : Signals p
  closed : Closed p
  alert : Alert p
  placed : ∃ place, Placed p place

theorem Sane.step (h : Sane p) (hs : ThreadPool.step config timed e p = some q) : Sane q := by
  have hs := step_eq_some hs
  obtain ⟨place, hplace⟩ := h.placed
  exact ⟨h.threads, h.locked.step hs, h.signals.step h.locked hs, h.closed.step h.locked h.signals hs,
    h.alert.step h.closed h.threads hs, hplace.step hs⟩

omit [DecidableEq ι] in
theorem Sane.construct {p : ThreadPool ι config.num_threads} (h : construct ι config = some p) : Sane p := by
  unfold Pool.construct at h
  split at h
  · cases h
  · rename_i hn
    obtain rfl := Option.some.inj h
    refine ⟨hn, ⟨?_, ?_⟩, ⟨?_, ?_, ?_, ?_, ?_, ?_⟩, ?_, ?_, fun _ => .out, ?_, ?_, ?_, ?_, ?_⟩ <;>
      simp [Closed, Alert, Stopper.unasked, Stopper.unjoined, Submit.accepted]

theorem Sane.tries {es : List (Event ι n)} (h : Sane p) (hrun : tries (ThreadPool.step config timed) es p = some q) :
    Sane q :=
  tries_inv (fun _ _ _ hs hstep => hs.step hstep) hrun h

theorem Sane.count_le_one (h : Sane p) (i : ι) : p.executed.count i ≤ 1 := by
  obtain ⟨place, hplace⟩ := h.placed
  exact List.nodup_iff_count_le_one.1 hplace.once.2 i

omit [DecidableEq ι] in
theorem Sane.accepted_of_mem (h : Sane p) {i : ι} (hi : i ∈ p.executed) : (p.submits i).accepted = true := by
  obtain ⟨place, hplace⟩ := h.placed
  simp [hplace.accepted, (hplace.done i).1 hi]

omit [DecidableEq ι] in
/-- A task that is neither in the queue nor with a worker has been executed. -/
theorem Sane.mem_executed (h : Sane p) {i : ι} (hi : (p.submits i).accepted = true) (hqueue : i ∉ p.tasks)
    (hrun : ∀ w, p.workers w ≠ .running i) : i ∈ p.executed := by
  obtain ⟨place, hplace⟩ := h.placed
  rw [hplace.done]
  cases hat : place i with
  | out => exact absurd hat ((hplace.accepted i).1 hi)
  | queued => exact absurd ((hplace.queued i).2 hat) hqueue
  | running w => exact absurd ((hplace.running w i).2 hat) (hrun w)
  | done => rfl

omit [DecidableEq ι] in
/-- **When `stop_and_wait` has returned, all have been executed**: it has joined the workers, so they have
left. -/
theorem Sane.executed_of_returned (h : Sane p) (hret : p.stopper = .returned) {i : ι}
    (hi : (p.submits i).accepted = true) : i ∈ p.executed := by
  have hexited : ∀ w, p.workers w = .exited := fun w =>
    h.signals.joined w (by rw [hret]; exact List.not_mem_nil)
  have hempty : p.tasks = [] :=
    let w : Fin n := ⟨0, Nat.pos_of_ne_zero h.threads⟩
    (h.closed w (hexited w)).2.1
  refine h.mem_executed hi ?_ fun w hw => ?_
  · rw [hempty]
    exact List.not_mem_nil
  · rw [hexited w] at hw
    cases hw

/-- Once a worker has left, no call is accepted. -/
theorem accepted_of_exited (hs : ThreadPool.step config timed e p = some q) (h : Sane p) {w : Fin n}
    (hw : p.workers w = .exited) :
    q.workers w = .exited ∧ ∀ i, (q.submits i).accepted = true → (p.submits i).accepted = true := by
  have hclosed := (h.closed w hw).2.2
  have hs := step_eq_some hs
  constructor
  · cases hs <;> grind [Function.update_apply]
  · intro i hi
    cases hs with
    | @push j o hj hf => exact absurd hj (hclosed j)
    | _ => grind [Function.update_apply, Submit.accepted]

/-! ### The end -/

section Stuck

omit [DecidableEq ι] in
/-- A worker that is not asleep, or has been woken, can go on. -/
theorem worker_ne_none {w : Fin n} {b : Bool} (hm : p.mutex = none) (hw : p.workers w ≠ .exited)
    (hsig : p.workers w = .asleep → p.signalled w = true) : worker w b p ≠ none := by
  have hwait : p.wait w ≠ none := by
    unfold wait
    rw [if_pos hm]
    split <;> exact Option.some_ne_none _
  unfold worker
  cases hpc : p.workers w with
  | top => exact hwait
  | asleep =>
    simp only [hsig hpc, if_true]
    exact hwait
  | chosen =>
    dsimp only
    split <;> exact Option.some_ne_none _
  | running i => exact Option.some_ne_none _
  | exited => exact absurd hpc hw

variable (h : Sane p)
  (hstuck : ∀ e : Event ι n, (e.ofSubmit || e.ofWorker) = true → ThreadPool.step config timed e p = none)

include h hstuck

/-- If neither a call nor a worker can go on, nobody is in a section of the mutex. -/
theorem mutex_of_stuck : p.mutex = none := by
  cases hm : p.mutex with
  | none => rfl
  | some holder =>
    exfalso
    cases holder with
    | submit i =>
      have hi : submit config i none p = none := hstuck (.submit i none) rfl
      simp only [submit, (h.locked.submit i).2 hm] at hi
      split at hi <;> cases hi
    | worker w =>
      have hw : worker w false p = none := hstuck (.worker w false) rfl
      simp only [worker, (h.locked.worker w).2 hm] at hw
      split at hw <;> cases hw

/-- Then a worker has left, or sleeps without a signal. -/
theorem worker_of_stuck (w : Fin n) : p.workers w = .exited ∨ p.Sleeps w := by
  by_contra hcon
  rw [not_or] at hcon
  refine worker_ne_none (b := false) (mutex_of_stuck h hstuck) hcon.1 (fun hsleep => ?_)
    (hstuck (.worker w false) rfl)
  by_contra hsig
  exact hcon.2 ⟨hsleep, by simpa using hsig⟩

/-- **All tasks have been executed by then**, also without a call of `stop_and_wait`. -/
theorem executed_of_stuck {i : ι} (hi : (p.submits i).accepted = true) : i ∈ p.executed := by
  refine h.mem_executed hi (fun hqueue => ?_) fun w hw => ?_
  · rcases h.alert (List.ne_nil_of_mem hqueue) with ⟨j, hj⟩ | ⟨w, hexit, hsig⟩
    · by_cases hsleep : ∃ w, p.Sleeps w
      · obtain ⟨w, hw⟩ := hsleep
        have hsubmit : submit config j (some w) p = none := hstuck (.submit j (some w)) rfl
        simp [submit, hj, notifyOne, hw] at hsubmit
      · have hsubmit : submit config j none p = none := hstuck (.submit j none) rfl
        simp [submit, hj, notifyOne, hsleep] at hsubmit
    · rcases worker_of_stuck h hstuck w with hw | hw
      · exact hexit hw
      · exact absurd (hsig hw.1) (by simp [hw.2])
  · rcases worker_of_stuck h hstuck w with hw' | hw'
    · rw [hw'] at hw
      cases hw
    · rw [hw'.1] at hw
      cases hw

/-- **And `stop_and_wait`, if it cannot go on either, has returned.** -/
theorem returned_of_stuck (hstop : stopAndWait timed true p = none) : p.stopper = .returned := by
  have hexited : ∀ w, p.requested w = true → p.workers w = .exited := by
    intro w hr
    rcases worker_of_stuck h hstuck w with hw | hw
    · exact hw
    · exact absurd (h.signals.woken w hw.1 hr) (by simp [hw.2])
  unfold stopAndWait at hstop
  cases hpc : p.stopper with
  | returned => rfl
  | joining ws =>
    rw [hpc] at hstop
    cases ws with
    | nil => cases hstop
    | cons w ws =>
      have hr := h.signals.asked w (by rw [hpc]; exact List.not_mem_nil)
      simp only [hexited w hr, if_true] at hstop
      cases hstop
  | draining target =>
    rw [hpc] at hstop
    simp at hstop
  | asking ws =>
    rw [hpc] at hstop
    cases ws <;> cases hstop
  | call =>
    rw [hpc] at hstop
    cases hstop
  | loading =>
    rw [hpc] at hstop
    cases hstop

end Stuck

/-! ### Counting steps -/

/-- The steps that the workers and `stop_and_wait` have before them. -/
def potential (p : ThreadPool ι n) : ℕ :=
  3 * p.tasks.length + (∑ w, (p.workers w).potential) + (∑ w, signal (p.signalled w)) + p.stopper.potential

omit [DecidableEq ι] in
/-- Awake, or woken. -/
theorem two_le_potential {w : Fin n} (h : p.workers w = .top ∨ (p.workers w = .asleep ∧ p.signalled w = true)) :
    2 ≤ (p.workers w).potential + signal (p.signalled w) := by
  rcases h with h | ⟨h, hs⟩
  · rw [h]
    exact Nat.le_add_right _ _
  · rw [h, hs]
    exact Nat.le_refl _

theorem potential_worker (hg : Signals p) (hs : Step config timed p e q) (he : e.ofWorker = true) :
    q.potential + 1 ≤ p.potential := by
  unfold potential
  cases hs with
  | @choose w b hw hm ht =>
    have htwo := two_le_potential hw
    have hsum := sum_move (b := 1) (g := p.workers) (k := w) rfl (rfl : Worker.potential .chosen = 1)
    have hsig := sum_move (b := 0) (f := signal) (g := p.signalled) (k := w) rfl (rfl : signal false = 0)
    dsimp only
    omega
  | @sleep w b hw hm ht hr =>
    have htwo := two_le_potential hw
    have hsum := sum_move (b := 0) (g := p.workers) (k := w) rfl (rfl : Worker.potential .asleep = 0)
    have hsig := sum_move (b := 0) (f := signal) (g := p.signalled) (k := w) rfl (rfl : signal false = 0)
    dsimp only
    omega
  | @leave w b hw ht =>
    have hsum := sum_move (a := 1) (b := 0) (congrArg Worker.potential hw) (rfl : Worker.potential .exited = 0)
    dsimp only
    rw [if_pos (hg.chosen w hw ht)]
    omega
  | @pop w i tasks b hw ht =>
    have hsum := sum_move (a := 1) (b := 3) (congrArg Worker.potential hw) (rfl : Worker.potential (.running i) = 3)
    dsimp only
    rw [ht, List.length_cons]
    omega
  | @finish w i b hw =>
    have hsum := sum_move (a := 3) (b := 2) (congrArg Worker.potential hw) (rfl : Worker.potential .top = 2)
    dsimp only
    omega
  | _ => cases he

theorem potential_stop (hs : Step config timed p e q) (he : e.ofStop = true) : q.potential + 1 ≤ p.potential := by
  unfold potential
  cases hs with
  | exchange b hs =>
    rw [hs]
    dsimp only
    split
    · dsimp only [Stopper.potential]
      omega
    · simp only [Stopper.potential, List.length_finRange]
      omega
  | @ask w ws b hs =>
    have hsig := sum_update signal p.signalled w (p.signalled w || decide (p.workers w = .asleep))
    have hle : signal (p.signalled w || decide (p.workers w = .asleep)) ≤ 2 := by
      unfold signal
      split <;> omega
    rw [hs]
    dsimp only [Stopper.potential, List.length_cons]
    omega
  | notifyAll b hs =>
    have hle : ∑ w, signal (p.signalled w || decide (p.workers w = .asleep)) ≤ 2 * n := by
      calc ∑ w, signal (p.signalled w || decide (p.workers w = .asleep))
        _ ≤ ∑ _ : Fin n, 2 := Finset.sum_le_sum fun w _ => by unfold signal; split <;> omega
        _ = 2 * n := by simp [Nat.mul_comm]
    rw [hs]
    dsimp only [Stopper.potential, List.length_nil]
    omega
  | load b hs =>
    rw [hs]
    dsimp only
    split
    · dsimp only [Stopper.potential]
      omega
    · simp only [Stopper.potential, List.length_finRange]
      omega
  | drain b hs hd =>
    rw [hs]
    simp only [Stopper.potential, List.length_finRange]
    omega
  | join b hs hw =>
    rw [hs]
    dsimp only [Stopper.potential, List.length_cons]
    omega
  | back b hs =>
    rw [hs]
    dsimp only [Stopper.potential, List.length_nil]
    omega
  | _ => cases he

/-- Every one of their steps uses some of them up. -/
theorem potential_step (hg : Signals p) (hs : Step config timed p e q) (he : (e.ofWorker || e.ofStop) = true) :
    q.potential + 1 ≤ p.potential := by
  rw [Bool.or_eq_true] at he
  exact he.elim (potential_worker hg hs) (potential_stop hs)

/-- The others add at most a task in the queue, or a signal. -/
theorem potential_gain (hs : Step config timed p e q) (he : (e.ofWorker || e.ofStop) = false) :
    q.potential ≤ p.potential + e.gain := by
  unfold potential
  cases hs with
  | push o hi hf =>
    change _ ≤ _ + 3
    dsimp only
    rw [List.length_append, List.length_singleton]
    omega
  | @notify i w hi hw =>
    have hsig := sum_move (a := 0) (b := 2) (congrArg signal hw.2) (rfl : signal true = 2)
    change _ ≤ _ + 3
    dsimp only
    omega
  | @spurious w hw =>
    have hsig := sum_move (a := 0) (b := 2) (congrArg signal hw.2) (rfl : signal true = 2)
    change _ ≤ _ + 2
    dsimp only
    omega
  | refuse => exact Nat.le_add_right _ _
  | enter => exact Nat.le_add_right _ _
  | full => exact Nat.le_add_right _ _
  | notifyNone => exact Nat.le_add_right _ _
  | poll => exact Nat.le_add_right _ _
  | _ => cases he

omit [DecidableEq ι] in
theorem potential_construct {p : ThreadPool ι config.num_threads} (h : construct ι config = some p) :
    p.potential = 5 + 8 * config.num_threads := by
  unfold construct at h
  split at h
  · cases h
  · obtain rfl := Option.some.inj h
    simp [potential, signal, Worker.potential, Stopper.potential]
    omega

omit [DecidableEq ι] in
theorem gains_gain (es : List (Event ι n)) :
    gains Event.gain es = 3 * es.countP Event.ofSubmit + 2 * es.countP Event.ofSpurious := by
  induction es with
  | nil => rfl
  | cons e es ih =>
    rw [gains, ih, List.countP_cons, List.countP_cons]
    cases e <;> simp only [Event.gain, Event.ofSubmit, Event.ofSpurious, Bool.toNat_true, Bool.toNat_false,
      Bool.false_eq_true, if_true, if_false] <;> omega

/-- A call of `submit` takes three steps at most. -/
theorem call_step (i : ι) (hs : Step config timed p e q) :
    (q.submits i).potential + (if e.ofCall i then 1 else 0) ≤ (p.submits i).potential := by
  cases hs <;> grind [Function.update_apply, Event.ofCall, Submit.potential]

/-- **The pool drains.**  In every interleaving, a task is executed at most once, and only if it was accepted.
When `stop_and_wait` has returned, all that were accepted have been executed, and once a worker has left, no
further one is accepted.  If the calls and the workers cannot go on, then too all have been executed, and if
`stop_and_wait` cannot go on either, it has returned.  And they cannot go on for ever: there are three steps for
each call, and a bounded number of steps of the workers and of `stop_and_wait` for each of these and for each
spurious signal. -/
theorem drains (config : Config) (timed : Bool) {p₀ p : ThreadPool ι config.num_threads}
    (hnew : construct ι config = some p₀) {es : List (Event ι config.num_threads)}
    (hrun : tries (step config timed) es p₀ = some p) :
    (∀ i, p.executed.count i ≤ 1 ∧ (i ∈ p.executed → (p.submits i).accepted = true)) ∧
    (p.stopper = .returned → ∀ i, (p.submits i).accepted = true → p.executed.count i = 1) ∧
    (∀ w, p.workers w = .exited → ∀ es' q, tries (step config timed) es' p = some q →
      ∀ i, (q.submits i).accepted = true → (p.submits i).accepted = true) ∧
    ((∀ e : Event ι config.num_threads, (e.ofSubmit || e.ofWorker) = true → step config timed e p = none) →
      ∀ i, (p.submits i).accepted = true → p.executed.count i = 1) ∧
    ((∀ e : Event ι config.num_threads, (e.ofSubmit || e.ofWorker || e.ofStop) = true → step config timed e p = none) →
      p.stopper = .returned) ∧
    (∀ i, es.countP (Event.ofCall i) ≤ 3) ∧
    es.countP (fun e => e.ofWorker || e.ofStop) ≤
      5 + 8 * config.num_threads + 3 * es.countP Event.ofSubmit + 2 * es.countP Event.ofSpurious := by
  have h₀ := Sane.construct hnew
  have h := h₀.tries hrun
  have hone : ∀ i, i ∈ p.executed → p.executed.count i = 1 := fun i hi =>
    Nat.le_antisymm (h.count_le_one i) (List.count_pos_iff.2 hi)
  refine ⟨fun i => ⟨h.count_le_one i, h.accepted_of_mem⟩, fun hret i hi => hone i (h.executed_of_returned hret hi),
    ?_, fun hstuck i hi => hone i (executed_of_stuck h hstuck hi), fun hstuck => ?_, fun i => ?_, ?_⟩
  · intro w hw es' q hrun' i hi
    -- what holds from now on: the worker is gone, and nothing new is accepted
    let I : ThreadPool ι config.num_threads → Prop := fun r =>
      Sane r ∧ r.workers w = .exited ∧ ∀ i, (r.submits i).accepted = true → (p.submits i).accepted = true
    have hinv : I q := by
      refine tries_inv (I := I) (fun r e r' hr hs => ?_) hrun' ⟨h, hw, fun _ hi => hi⟩
      obtain ⟨hexit, hacc⟩ := accepted_of_exited hs hr.1 hr.2.1
      exact ⟨hr.1.step hs, hexit, fun i hi => hr.2.2 i (hacc i hi)⟩
    exact hinv.2.2 i hi
  · refine returned_of_stuck h (fun e he => hstuck e ?_) (hstuck (.stop true) rfl)
    rw [he, Bool.true_or]
  · have hcall : (p₀.submits i).potential ≤ 3 := by cases p₀.submits i <;> decide
    have hcount := tries_count (I := fun _ => True) (μ := fun r => (r.submits i).potential) (A := Event.ofCall i)
      (g := fun _ => 0) (fun _ _ _ _ _ => trivial)
      (fun r e r' _ hs he => by
        have := call_step i (step_eq_some hs)
        rwa [if_pos he] at this)
      (fun r e r' _ hs _ => by
        have := call_step i (step_eq_some hs)
        omega) hrun trivial
    rw [gains_zero] at hcount
    omega
  · have hcount := tries_count (I := Sane) (μ := potential) (A := fun e => e.ofWorker || e.ofStop)
      (g := Event.gain) (fun _ _ _ hr hs => hr.step hs)
      (fun r e r' hr hs he => potential_step hr.signals (step_eq_some hs) he)
      (fun r e r' _ hs he => potential_gain (step_eq_some hs) he) hrun h₀
    rw [gains_gain, potential_construct hnew] at hcount
    omega

/-- One task, one worker, and `stop_and_wait` without a timeout. -/
def soloEvents : List (Event Unit 1) :=
  [.submit () none, .submit () none, .stop false, .submit () none, .worker 0 false, .worker 0 false, .stop false,
    .worker 0 false, .stop false, .stop false, .worker 0 false, .worker 0 false, .stop false, .stop false]

/-- The task was admitted before `_stop` was set, and it has been executed when `stop_and_wait` returns. -/
theorem drains_solo : ∃ p₀ p, construct Unit ⟨1, 1000⟩ = some p₀ ∧ tries (step ⟨1, 1000⟩ false) soloEvents p₀ = some p ∧
    p.stopper = .returned ∧ p.executed.count () = 1 := by
  let p₀ := (construct Unit ⟨1, 1000⟩).get rfl
  have hsome : (tries (step ⟨1, 1000⟩ false) soloEvents p₀).isSome = true := by decide +kernel
  have hend : (tries (step ⟨1, 1000⟩ false) soloEvents p₀).map (fun p => (p.stopper, (p.submits ()).accepted)) =
      some (.returned, true) := by decide +kernel
  obtain ⟨p, hrun⟩ := Option.isSome_iff_exists.1 hsome
  rw [hrun, Option.map_some, Option.some.injEq, Prod.mk.injEq] at hend
  exact ⟨p₀, p, rfl, hrun, hend.1, (drains ⟨1, 1000⟩ false rfl hrun).2.1 hend.1 () hend.2⟩

end ThreadPool

end StreamGate.Pool
