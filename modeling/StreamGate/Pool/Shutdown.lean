import StreamGate.Pool.Drain
import StreamGate.Pool.AuthTasks

/-!
# The end of `main`

`main` stops the server, destroys the scheduler, the authentication manager and the state manager, and only
then waits for the pool.  So a task that is still in the queue by then, or has not come to its end, runs on
objects that may be gone: its next step uses one of them, and `main` does not wait for it.  The flag `_shutdown`
does not help, as it is a member of an object that is destroyed (`shutdown_safe_iff`).
-/

namespace StreamGate.Pool

open StreamGate.Lib StreamGate.Auth StreamGate.Scheduler

/-- What `main` does to the objects. -/
inductive Teardown where
  /-- `server->stop()`, which joins the threads that call `submit`. -/
  | server
  | scheduler
  /-- The body of `~AuthManager`. -/
  | shutdown
  | authManager
  | stateManager
  deriving DecidableEq, Repr

/-- From the destructor of the scheduler on. -/
def resets : List Teardown := [.scheduler, .shutdown, .authManager, .stateManager]

/-- What there is when the process runs.  `left` is what the tasks have before them, `main` what `main` has
not done, and `fault` tells that a task has used an object after its end. -/
structure Process (ι : Type) (n : ℕ) where
  pool : ThreadPool ι n
  left : ι → TProg Unit
  service : Service
  alive : Obj → Bool
  main : List Teardown
  fault : Bool

/-- What happens next. -/
inductive Act (ι : Type) (n : ℕ) where
  | pool (e : Event ι n)
  /-- The next command of the task that the worker runs; it may fail. -/
  | task (w : Fin n) (fails : Bool)
  | main
  /-- Others act on Redis and on the database. -/
  | others (redis : Redis.World) (auth : Store)

/-- The start: nothing is in the queue yet, and `job i` is what the call `i` of `submit` is going to put there. -/
def launch {ι : Type} (config : Config) (cacheTTL : ℤ) (job : ι → Job) (service : Service) :
    Option (Process ι config.num_threads) :=
  (construct ι config).map fun pool =>
    { pool := pool
      left := fun i => (job i).task cacheTTL
      service := service
      alive := fun _ => true
      main := .server :: resets
      fault := false }

namespace Process

variable {ι : Type} [DecidableEq ι] {n : ℕ} (config : Config) (sql : Sql) (node_config : NodeConfig)

/-- When a step of the pool is possible: a call of `submit` begins and pushes only while there is a server, a task
ends when it has no command left, and `main` comes to `stop_and_wait` last. -/
def ready (s : Process ι n) : Event ι n → Bool
  | .submit i _ => s.main.contains .server || s.pool.submits i = .notifying
  | .worker w _ =>
    match s.pool.workers w with
    | .running i => (s.left i).head.isNone
    | _ => true
  | .stop _ | .poll => s.main.isEmpty
  | .spurious _ => true

/-- A command of a task: it is served, or fails. -/
def serve (p : TProg Unit) (fails : Bool) (s : Service) : Option (TProg Unit × Service) :=
  if fails then p.fail.map fun q => (q, s) else p.next (Service.handle sql node_config) s

/-- The next command of a task, and whether it uses what is no more. -/
def task (w : Fin n) (fails : Bool) (s : Process ι n) : Option (Process ι n) :=
  match s.pool.workers w with
  | .running i =>
    (s.left i).head.bind fun c => (serve sql node_config (s.left i) fails s.service).map fun q =>
      { s with
        left := Function.update s.left i q.1
        service := q.2
        fault := s.fault || !c.objects.all s.alive }
  | _ => none

/-- The next step of `main`.  The server has stopped when no call of `submit` is in the section of the mutex. -/
def teardown (s : Process ι n) : Option (Process ι n) :=
  match s.main with
  | [] => none
  | .server :: rest =>
    match s.pool.mutex with
    | some (.submit _) => none
    | _ => some { s with main := rest }
  | .scheduler :: rest => some { s with main := rest, alive := Function.update s.alive .scheduler false }
  | .shutdown :: rest => some { s with main := rest, service := { s.service with shutdown := true } }
  | .authManager :: rest => some { s with main := rest, alive := Function.update s.alive .authManager false }
  | .stateManager :: rest => some { s with main := rest, alive := Function.update s.alive .stateManager false }

/-- One step.  `stop_and_wait` has no timeout here. -/
def step : Act ι n → Process ι n → Option (Process ι n)
  | .pool e => fun s =>
    if s.ready e then (ThreadPool.step config false e s.pool).map fun p => { s with pool := p } else none
  | .task w fails => task sql node_config w fails
  | .main => teardown
  | .others redis auth => fun s => some { s with service := { s.service with redis := redis, auth := auth } }

variable {config sql node_config} {s s' : Process ι n} {a : Act ι n}

/-! ### Up to the end of `main` -/

/-- Who is taken after a step of the pool. -/
theorem taken_step {timed : Bool} {p q : ThreadPool ι n} {e : Event ι n} (hs : ThreadPool.Step config timed p e q)
    {i : ι} (hdone : i ∉ q.executed) (hrun : ∀ w, q.workers w ≠ .running i) :
    i ∉ p.executed ∧ ∀ w, p.workers w ≠ .running i := by
  cases hs with
  | @finish w j b hw =>
    rw [List.mem_append, List.mem_singleton, not_or] at hdone
    refine ⟨hdone.1, fun w' hw' => ?_⟩
    by_cases hww : w' = w
    · subst hww
      rw [hw] at hw'
      exact hdone.2 (Worker.running.inj hw').symm
    · exact hrun w' ((Function.update_of_ne hww ..).trans hw')
  | _ => exact ⟨hdone, fun w hw => by have := hrun w; grind [Function.update_apply]⟩

/-- A step of the pool. -/
theorem pool_eq_some {e : Event ι n} (hs : step config sql node_config (.pool e) s = some s') :
    ∃ p, s.ready e = true ∧ ThreadPool.step config false e s.pool = some p ∧ s' = { s with pool := p } := by
  simp only [Process.step] at hs
  split at hs
  · rename_i hready
    obtain ⟨p, hp, rfl⟩ := Option.map_eq_some_iff.1 hs
    exact ⟨p, hready, hp, rfl⟩
  · cases hs

/-- A step of a task that a worker runs. -/
theorem task_eq_some {w : Fin n} {fails : Bool} (hs : step config sql node_config (.task w fails) s = some s') :
    ∃ i c, ∃ q : TProg Unit × Service, s.pool.workers w = .running i ∧ (s.left i).head = some c ∧
      s' = { s with
        left := Function.update s.left i q.1
        service := q.2
        fault := s.fault || !c.objects.all s.alive } := by
  simp only [Process.step, task] at hs
  split at hs
  · rename_i i hw
    obtain ⟨c, hc, hs⟩ := Option.bind_eq_some_iff.1 hs
    obtain ⟨q, hq, rfl⟩ := Option.map_eq_some_iff.1 hs
    exact ⟨i, c, q, hw, hc, rfl⟩
  · cases hs

omit [DecidableEq ι] in
/-- What `main` does in a step: the server stops without a call in the section of the mutex, and only later steps
end an object. -/
theorem teardown_eq_some (hs : teardown s = some s') :
    ∃ t, s.main = t :: s'.main ∧ s'.pool = s.pool ∧ s'.left = s.left ∧ s'.fault = s.fault ∧
      (t = .server → (∀ i, s.pool.mutex ≠ some (.submit i)) ∧ s'.alive = s.alive) := by
  unfold teardown at hs
  split at hs
  · cases hs
  · rename_i rest hmain
    split at hs
    · cases hs
    · rename_i hmutex
      obtain rfl := Option.some.inj hs
      exact ⟨.server, hmain, rfl, rfl, rfl, fun _ => ⟨hmutex, rfl⟩⟩
  all_goals
    rename_i rest hmain
    obtain rfl := Option.some.inj hs
    exact ⟨_, hmain, rfl, rfl, rfl, Teardown.noConfusion⟩

/-- What holds in every state that the process comes to. -/
structure Fit (whole : ι → TProg Unit) (s : Process ι n) : Prop where
  sane : s.pool.Sane
  /-- A task that has not been taken has everything before it. -/
  whole : ∀ i, i ∉ s.pool.executed → (∀ w, s.pool.workers w ≠ .running i) → s.left i = whole i
  calls : .server ∉ s.main → ∀ i, s.pool.submits i ≠ .admitted
  order : s.main <:+ .server :: resets
  intact : resets.length ≤ s.main.length → (∀ o, s.alive o = true) ∧ s.fault = false

theorem Fit.step {whole : ι → TProg Unit} (h : Fit whole s) (hs : step config sql node_config a s = some s') :
    Fit whole s' := by
  cases a with
  | pool e =>
    obtain ⟨p, hready, hp, rfl⟩ := pool_eq_some hs
    refine ⟨h.sane.step hp, fun i hdone hrun => ?_, fun hserver i => ?_, h.order, h.intact⟩
    · obtain ⟨hdone, hrun⟩ := taken_step (ThreadPool.step_eq_some hp) hdone hrun
      exact h.whole i hdone hrun
    · -- no call begins any more
      have hcalls := h.calls hserver
      have hp := ThreadPool.step_eq_some hp
      cases hp with
      | @enter j o hi hm hstop => simp [ready, hi, hserver] at hready
      | _ => grind [Function.update_apply]
  | task w fails =>
    obtain ⟨i, c, q, hw, -, rfl⟩ := task_eq_some hs
    refine ⟨h.sane, fun j hdone hrun => ?_, h.calls, h.order, fun hlen => ?_⟩
    · have hij : j ≠ i := fun hij => hrun w (hij ▸ hw)
      dsimp only
      rw [Function.update_of_ne hij]
      exact h.whole j hdone hrun
    · obtain ⟨halive, hfault⟩ := h.intact hlen
      refine ⟨halive, ?_⟩
      dsimp only
      rw [hfault, Bool.false_or, List.all_eq_true.2 fun o _ => halive o]
      rfl
  | main =>
    obtain ⟨t, hmain, hpool, hleft, hfault, hserver⟩ := teardown_eq_some hs
    have horder := h.order
    rw [hmain] at horder
    refine ⟨hpool ▸ h.sane, ?_, fun hnot i => ?_, (List.suffix_cons t _).trans horder, fun hlen => ?_⟩
    · rw [hpool, hleft]
      exact h.whole
    · rw [hpool]
      by_cases ht : t = .server
      · -- a call in the section would have the mutex
        intro hi
        exact (hserver ht).1 i ((h.sane.locked.submit i).1 hi)
      · exact h.calls (by rw [hmain]; simp [hnot, Ne.symm ht]) i
    · -- only the first of the five steps leaves four
      have hfull : t :: s'.main = .server :: resets := horder.eq_of_length_le (Nat.succ_le_succ hlen)
      have ht := (List.cons.inj hfull).1
      rw [(hserver ht).2, hfault]
      apply h.intact
      rw [hmain]
      exact Nat.le_succ_of_le hlen
  | others redis auth =>
    obtain rfl := Option.some.inj hs
    exact ⟨h.sane, h.whole, h.calls, h.order, h.intact⟩

omit [DecidableEq ι] in
theorem Fit.launch {cacheTTL : ℤ} {job : ι → Job} {service : Service} {s : Process ι config.num_threads}
    (h : launch config cacheTTL job service = some s) : Fit (fun i => (job i).task cacheTTL) s := by
  obtain ⟨pool, hpool, rfl⟩ := Option.map_eq_some_iff.1 h
  exact ⟨.construct hpool, fun _ _ _ => rfl, fun hnot => absurd List.mem_cons_self hnot, List.suffix_rfl,
    fun _ => ⟨fun _ => rfl, rfl⟩⟩

/-! ### Nothing left to do -/

/-- No task has a command left, and none will come. -/
structure Quiet (s : Process ι n) : Prop where
  stopped : .server ∉ s.main
  queue : s.pool.tasks = []
  calls : ∀ i, s.pool.submits i ≠ .admitted
  ended : ∀ w i, s.pool.workers w = .running i → (s.left i).head = none
  sound : s.fault = false

theorem Quiet.step (h : Quiet s) (hs : step config sql node_config a s = some s') : Quiet s' := by
  obtain ⟨hstopped, hqueue, hcalls, hended, hsound⟩ := h
  cases a with
  | pool e =>
    obtain ⟨p, hready, hp, rfl⟩ := pool_eq_some hs
    have hp := ThreadPool.step_eq_some hp
    refine ⟨hstopped, ?_, fun i => ?_, fun w i hw => hended w i ?_, hsound⟩
    · cases hp with
      | push o hi hf => exact absurd hi (hcalls _)
      | pop b hw ht => simp [hqueue] at ht
      | _ => exact hqueue
    · cases hp with
      | @enter j o hi hm hstop => simp [ready, hi, hstopped] at hready
      | _ => grind [Function.update_apply]
    · cases hp with
      | pop b hw ht => simp [hqueue] at ht
      | _ => grind [Function.update_apply]
  | task w fails =>
    obtain ⟨i, c, q, hw, hc, -⟩ := task_eq_some hs
    rw [hended w i hw] at hc
    cases hc
  | main =>
    obtain ⟨t, hmain, hpool, hleft, hfault, -⟩ := teardown_eq_some hs
    exact ⟨fun hin => hstopped (hmain ▸ List.mem_cons_of_mem t hin), hpool ▸ hqueue, hpool ▸ hcalls,
      by rw [hpool, hleft]; exact hended, hfault ▸ hsound⟩
  | others redis auth =>
    obtain rfl := Option.some.inj hs
    exact ⟨hstopped, hqueue, hcalls, hended, hsound⟩

/-! ### Something left to do -/

variable (config sql node_config) in
/-- The process can come to a state in which a task has used an object after its end. -/
def Faulty (s : Process ι n) : Prop :=
  ∃ as s', tries (step config sql node_config) as s = some s' ∧ s'.fault = true

theorem Faulty.of_step (h : Faulty config sql node_config s') (hs : step config sql node_config a s = some s') :
    Faulty config sql node_config s := by
  obtain ⟨as, s'', hrun, hfault⟩ := h
  exact ⟨a :: as, s'', tries_cons_eq_some.2 ⟨s', hs, hrun⟩, hfault⟩

/-- A step of the pool. -/
theorem Faulty.of_pool {e : Event ι n} {p : ThreadPool ι n} (hready : s.ready e = true)
    (hp : ThreadPool.step config false e s.pool = some p) (h : Faulty config sql node_config { s with pool := p }) :
    Faulty config sql node_config s := by
  apply h.of_step (a := .pool e)
  simp only [Process.step, hready, hp, if_true, Option.map_some]

/-- The objects are gone, but a worker is running a task. -/
theorem faulty_of_running {w : Fin n} {i : ι} (hdead : ∀ o, s.alive o = false) (hw : s.pool.workers w = .running i)
    (hleft : (s.left i).head ≠ none) : Faulty config sql node_config s := by
  obtain ⟨c, hc⟩ := Option.ne_none_iff_exists'.1 hleft
  have hserve : ∃ q, serve sql node_config (s.left i) false s.service = some q := by
    cases hp : s.left i with
    | ret a => simp [hp, Prog.head] at hc
    | call c k => exact ⟨_, rfl⟩
    | exec c k => exact ⟨_, rfl⟩
  obtain ⟨q, hq⟩ := hserve
  refine ⟨[.task w false], _, tries_cons_eq_some.2 ⟨_, by simp only [Process.step, task, hw, hc, hq]; rfl, rfl⟩, ?_⟩
  obtain ⟨o, os, ho⟩ := List.exists_cons_of_ne_nil c.objects_ne_nil
  simp [ho, hdead o]

/-- A worker is about to take a task from the queue. -/
theorem faulty_of_chosen {w : Fin n} (hdead : ∀ o, s.alive o = false) (htasks : s.pool.tasks ≠ [])
    (hleft : ∀ i ∈ s.pool.tasks, (s.left i).head ≠ none) (hw : s.pool.workers w = .chosen) :
    Faulty config sql node_config s := by
  obtain ⟨i, tasks, hqueue⟩ := List.exists_cons_of_ne_nil htasks
  refine Faulty.of_pool (e := .worker w false) (p := _) (by simp [ready, hw])
    (by simp only [ThreadPool.step, ThreadPool.worker, hw, hqueue]; rfl) ?_
  exact faulty_of_running hdead (w := w) (by simp) (hleft i (by rw [hqueue]; exact List.mem_cons_self))

/-- A worker looks at the queue. -/
theorem faulty_of_awake {w : Fin n} (hdead : ∀ o, s.alive o = false) (htasks : s.pool.tasks ≠ [])
    (hleft : ∀ i ∈ s.pool.tasks, (s.left i).head ≠ none) (hm : s.pool.mutex = none)
    (hw : s.pool.workers w = .top ∨ s.pool.workers w = .asleep ∧ s.pool.signalled w = true) :
    Faulty config sql node_config s := by
  have hstep : ThreadPool.step config false (.worker w false) s.pool = some
      { s.pool with
        mutex := some (.worker w)
        signalled := Function.update s.pool.signalled w false
        workers := Function.update s.pool.workers w .chosen } := by
    rcases hw with hw | hw <;> simp [ThreadPool.step, ThreadPool.worker, ThreadPool.wait, hw, hm, htasks]
  refine Faulty.of_pool ?_ hstep (faulty_of_chosen (w := w) hdead htasks hleft (by simp))
  rcases hw with hw | hw <;> simp [ready, hw]

/-- There is a task in the queue, and nobody is in the way. -/
theorem faulty_of_queue (hdead : ∀ o, s.alive o = false) (htasks : s.pool.tasks ≠ [])
    (hleft : ∀ i ∈ s.pool.tasks, (s.left i).head ≠ none) (hsane : s.pool.Sane)
    (hcalls : ∀ i, s.pool.submits i ≠ .admitted) : Faulty config sql node_config s := by
  cases hm : s.pool.mutex with
  | some holder =>
    cases holder with
    | submit i => exact absurd ((hsane.locked.submit i).2 hm) (hcalls i)
    | worker w => exact faulty_of_chosen hdead htasks hleft ((hsane.locked.worker w).2 hm)
  | none =>
    let w : Fin n := ⟨0, Nat.pos_of_ne_zero hsane.threads⟩
    cases hw : s.pool.workers w with
    | top => exact faulty_of_awake hdead htasks hleft hm (.inl hw)
    | asleep =>
      cases hsig : s.pool.signalled w with
      | true => exact faulty_of_awake hdead htasks hleft hm (.inr ⟨hw, hsig⟩)
      | false =>
        refine Faulty.of_pool (e := .spurious w) (p := _) rfl (if_pos ⟨hw, hsig⟩) ?_
        exact faulty_of_awake (w := w) hdead htasks hleft hm (.inr ⟨hw, by simp⟩)
    | chosen => exact faulty_of_chosen hdead htasks hleft hw
    | running i =>
      cases hhead : (s.left i).head with
      | some c => exact faulty_of_running hdead hw (by rw [hhead]; exact Option.some_ne_none c)
      | none =>
        refine Faulty.of_pool (e := .worker w false) (p := _) (by simp [ready, hw, hhead])
          (by simp only [ThreadPool.step, ThreadPool.worker, hw]; rfl) ?_
        exact faulty_of_awake (w := w) hdead htasks hleft hm (.inl (by simp))
    | exited => exact absurd (hsane.closed w hw).2.1 htasks

/-- `main` can be faster than all workers. -/
theorem Faulty.of_resets (hmain : s.main = resets)
    (h : ∀ s' : Process ι n, s'.pool = s.pool → s'.left = s.left → (∀ o, s'.alive o = false) →
      Faulty config sql node_config s') : Faulty config sql node_config s := by
  let s' : Process ι n :=
    { s with
      alive := Function.update (Function.update (Function.update s.alive .scheduler false) .authManager false)
        .stateManager false
      service := { s.service with shutdown := true }
      main := [] }
  have hrun : tries (step config sql node_config) [.main, .main, .main, .main] s = some s' := by
    simp [tries, Process.step, teardown, hmain, resets, s']
  obtain ⟨as, s'', has, hfault⟩ := h s' rfl rfl fun o => by cases o <;> rfl
  exact ⟨[.main, .main, .main, .main] ++ as, s'', tries_append_eq_some.2 ⟨s', hrun, has⟩, hfault⟩

/-- **When the end of `main` is safe.**  The process has come to the point where the server has been stopped and
`main` goes on to the objects.  No task uses an object after its end, however the steps are interleaved, exactly
if at that point the queue is empty and every task that a worker still runs has come to its end. -/
theorem shutdown_safe_iff (config : Config) (sql : Sql) (node_config : NodeConfig) (cacheTTL : ℤ) (job : ι → Job)
    (service : Service) {s₀ s : Process ι config.num_threads} (hlaunch : launch config cacheTTL job service = some s₀)
    {as : List (Act ι config.num_threads)} (hrun : tries (step config sql node_config) as s₀ = some s)
    (hmain : s.main = resets) :
    (∀ as' s', tries (step config sql node_config) as' s = some s' → s'.fault = false) ↔
      s.pool.tasks = [] ∧ ∀ w i, s.pool.workers w = .running i → (s.left i).head = none := by
  have h : Fit (fun i => (job i).task cacheTTL) s :=
    tries_inv (fun _ _ _ hs hstep => hs.step hstep) hrun (Fit.launch hlaunch)
  have hstopped : .server ∉ s.main := by rw [hmain]; decide
  constructor
  · intro hsafe
    have hnot : ¬ Faulty config sql node_config s := by
      rintro ⟨as', s', hrun', hfault⟩
      rw [hsafe as' s' hrun'] at hfault
      cases hfault
    constructor
    · by_contra htasks
      refine hnot (Faulty.of_resets hmain fun s' hpool hleft hdead => ?_)
      refine faulty_of_queue hdead (hpool ▸ htasks) (fun i hi => ?_) (hpool ▸ h.sane) (hpool ▸ h.calls hstopped)
      -- a task in the queue is whole
      rw [hpool] at hi
      obtain ⟨place, hplace⟩ := h.sane.placed
      have hat := (hplace.queued i).1 hi
      have hwhole := h.whole i (fun hdone => by simp [(hplace.done i).1 hdone] at hat)
        (fun w hw => by simp [(hplace.running w i).1 hw] at hat)
      rw [hleft, hwhole, Job.head_task]
      exact Option.some_ne_none _
    · intro w i hw
      by_contra hhead
      exact hnot (Faulty.of_resets hmain fun s' hpool hleft hdead =>
        faulty_of_running hdead (hpool ▸ hw) (hleft ▸ hhead))
  · rintro ⟨htasks, hended⟩ as' s' hrun'
    have hquiet : Quiet s := ⟨hstopped, htasks, h.calls hstopped, hended, (h.intact (by rw [hmain])).2⟩
    exact (tries_inv (fun _ _ _ hs hstep => hs.step hstep) hrun' hquiet).sound

/-! ### One task in the queue -/

section OneTask

def onePublish : Job := .publish { stream_name := "live", client_id := "cam", auth_token := "t" }

def emptyService : Service where
  redis := Redis.World.initial 0
  auth := { cache := fun _ => none, table := [] }

/-- A task is put in the queue, and the server stops. -/
def backlog : List (Act Unit 1) := [.pool (.submit () none), .pool (.submit () none), .main]

def oneWorker : Fin 1 := ⟨0, Nat.zero_lt_one⟩

/-- `main` ends the objects, and a worker takes the task and reads `_shutdown`. -/
def endAndTake : List (Act Unit 1) :=
  [.main, .main, .main, .main, .pool (.worker oneWorker false), .pool (.worker oneWorker false), .task oneWorker false]

theorem shutdown_backlog : ∃ s₀ s s', launch ⟨1, 1000⟩ 300 (fun _ : Unit => onePublish) emptyService = some s₀ ∧
    tries (step ⟨1, 1000⟩ Sql.bytes {}) backlog s₀ = some s ∧ s.main = resets ∧ s.fault = false ∧
    tries (step ⟨1, 1000⟩ Sql.bytes {}) endAndTake s = some s' ∧ s'.fault = true := by
  let s₀ := (launch ⟨1, 1000⟩ 300 (fun _ : Unit => onePublish) emptyService).get rfl
  have hsome : (tries (step ⟨1, 1000⟩ Sql.bytes {}) backlog s₀).isSome = true := by decide +kernel
  have hbegin : (tries (step ⟨1, 1000⟩ Sql.bytes {}) backlog s₀).map (fun s => (s.main, s.fault)) =
      some (resets, false) := by decide +kernel
  have hend : (tries (step ⟨1, 1000⟩ Sql.bytes {}) (backlog ++ endAndTake) s₀).map Process.fault = some true := by
    decide +kernel
  obtain ⟨s, hrun⟩ := Option.isSome_iff_exists.1 hsome
  rw [hrun, Option.map_some, Option.some.injEq, Prod.mk.injEq] at hbegin
  obtain ⟨s', hall, hfault⟩ := Option.map_eq_some_iff.1 hend
  obtain ⟨m, hm, hrest⟩ := tries_append_eq_some.1 hall
  obtain rfl := Option.some.inj (hrun.symm.trans hm)
  exact ⟨s₀, s, s', rfl, hrun, hbegin.1, hbegin.2, hrest, hfault⟩

/-- With nothing in the queue it is safe. -/
theorem shutdown_idle : ∃ s₀ s, launch ⟨1, 1000⟩ 300 (fun _ : Unit => onePublish) emptyService = some s₀ ∧
    tries (step ⟨1, 1000⟩ Sql.bytes {}) [.main] s₀ = some s ∧
    ∀ as' s', tries (step ⟨1, 1000⟩ Sql.bytes {}) as' s = some s' → s'.fault = false := by
  let s₀ := (launch ⟨1, 1000⟩ 300 (fun _ : Unit => onePublish) emptyService).get rfl
  have hrun : tries (step ⟨1, 1000⟩ Sql.bytes {}) [.main] s₀ = some { s₀ with main := resets } := rfl
  refine ⟨s₀, _, rfl, hrun, (shutdown_safe_iff _ _ _ 300 _ emptyService rfl hrun rfl).2 ⟨rfl, fun w i hw => ?_⟩⟩
  cases hw

end OneTask

end Process

end StreamGate.Pool
