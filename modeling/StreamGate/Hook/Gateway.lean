import StreamGate.Lib.Product
import StreamGate.Auth.Soundness
import StreamGate.Hook.Matching

/-!
# The gateway

The server as a whole: connections, the thread pool that authenticates and registers what their publish and play
hooks ask for, the cache and the database of the authentication, and Redis.  The steps of the connections and the
commands of the tasks are interleaved in any order, beside expiries, changes of the table and what others send to Redis.

A hook that is answered with the code 0 has been authenticated by a row that the table held, and its task was
registered (`granted_sound`).
-/

namespace StreamGate.Hook

open StreamGate.Lib StreamGate.Scheduler StreamGate.Task StreamGate.Auth

/-! ### The task of a hook -/

/-- The code that the callback of the authentication gets. -/
def authCode : AuthError → ℤ
  | .SUCCESS => 0
  | .AUTH_DENIED => 1
  | .RUNTIME_ERROR => -1

/-- The two services. -/
abbrev services : Iface := Iface.sum Auth.iface Redis.iface

/-- What happens to Redis beside the tasks: time passes, others send commands. -/
inductive Disturbance where
  | pass (t : ℤ)
  | command (c : Redis.Cmd)

def Disturbance.act : Disturbance → Redis.World → Redis.World
  | pass t, w => Redis.advance t w
  | command c, w => (Redis.handle c w).2

/-- What surrounds the tasks. -/
abbrev Around := Auth.Change ⊕ Disturbance

/-- What the gateway is made with: the JSON parser, the time to live in the cache, the nodes, and the counters
`_nodeIndex` and `_nextTaskId` as the task of a hook finds them. -/
structure Setup (σ : Type) where
  parse : String → Except ParseFault Json
  sql : Sql
  cacheTTL : ℤ
  node_config : NodeConfig
  counters : σ → ℕ → UInt64 × UInt64

def Setup.machine {σ : Type} (env : Setup σ) : Machine services (Store × Redis.World) Around :=
  (Auth.machine env.sql).prod ⟨Redis.handle, Disturbance.act⟩

/-- The request of a hook to the scheduler. -/
def schedulerRequest (hook : ZlmHookRequest) (counters : UInt64 × UInt64) : Scheduler.Request :=
  { stream_name := hook.stream_key
    client_id := hook.client_id
    auth_token := hook.get_token
    protocol := hook.protocol
    nodeIndex := counters.1
    nextTaskId := counters.2 }

/-- What the hook does once it is authenticated, or not. -/
def handler (node_config : NodeConfig) (action : HookAction) (r : Scheduler.Request) : Redis.RProg SchedulerResult :=
  match action with
  | .Publish => onPublish node_config r
  | .Play => onPlay r
  | _ => .ret ⟨.INTERNAL_ERROR, none, "Unknown error"⟩

/-- The task of the thread pool: the authentication, and the callback of the scheduler. -/
def hookTask (cacheTTL : ℤ) (node_config : NodeConfig) (action : HookAction) (r : Scheduler.Request) :
    Prog services SchedulerResult :=
  (performAuthLogic cacheTTL ⟨r.stream_name, r.client_id, r.auth_token⟩).inl >>= fun a =>
    (handler node_config action { r with code := authCode a }).inr

/-- The task for a request, if it is a hook. -/
def taskOf {σ : Type} (env : Setup σ) (j : σ) (i : ℕ) (r : HttpRequest) : Prog services SchedulerResult :=
  match hookOf env.parse r with
  | none => .ret ⟨.INTERNAL_ERROR, none, "Unknown error"⟩
  | some hook => hookTask env.cacheTTL env.node_config hook.action (schedulerRequest hook (env.counters j i))

/-! ### The system -/

/-- The connections, and the tasks of the pool with the two services. -/
structure Gateway (σ : Type) where
  sessions : σ → Session
  pool : Conf services (Store × Redis.World) (σ × ℕ) SchedulerResult

namespace Gateway

variable {σ : Type} [DecidableEq σ]

inductive Event (σ : Type) where
  | read (j : σ)
  /-- The task of the request `i` is over and its callback is called. -/
  | callback (j : σ) (i : ℕ)
  | strand (j : σ)
  | wrote (j : σ)
  /-- A command of a task, or something around them. -/
  | pool (e : Ev (σ × ℕ) Around)

/-- The requests that clients send on the connections, and the two services at the beginning. -/
def start (env : Setup σ) (reqs : σ → List (HttpRequest × Call)) (s : Store) (w : Redis.World) : Gateway σ where
  sessions j := Session.start (reqs j)
  pool := ⟨(s, w), fun (j, i) =>
    match (reqs j)[i]? with
    | none => .ret ⟨.INTERNAL_ERROR, none, "Unknown error"⟩
    | some r => taskOf env j i r.1⟩

/-- One step of a connection. -/
def sessionStep (parse : String → Except ParseFault Json) (j : σ) (e : Hook.Event) (g : Gateway σ) :
    Option (Gateway σ) :=
  (Session.step parse e (g.sessions j)).map fun s => { g with sessions := Function.update g.sessions j s }

/-- A task runs once the pool has it. -/
def Runs (g : Gateway σ) : Ev (σ × ℕ) Around → Prop
  | .run (j, i) | .fail (j, i) => i ∈ (g.sessions j).kept
  | .env _ => True

instance (g : Gateway σ) : DecidablePred g.Runs
  | .run (j, i) => inferInstanceAs (Decidable (i ∈ (g.sessions j).kept))
  | .fail (j, i) => inferInstanceAs (Decidable (i ∈ (g.sessions j).kept))
  | .env _ => inferInstanceAs (Decidable True)

def step (env : Setup σ) : Event σ → Gateway σ → Option (Gateway σ)
  | .read j, g => g.sessionStep env.parse j .read
  | .callback j i, g =>
    match (g.pool.thr (j, i)).result with
    | none => none
    | some res => g.sessionStep env.parse j (.callback i res)
  | .strand j, g => g.sessionStep env.parse j .strand
  | .wrote j, g => g.sessionStep env.parse j .wrote
  | .pool e, g => if g.Runs e then (g.pool.step env.machine e).map fun c => { g with pool := c } else none

/-- The part of the thread pool and its surroundings in a run. -/
def Event.pool? : Event σ → Option (Ev (σ × ℕ) Around)
  | .pool e => some e
  | _ => none

variable {env : Setup σ} {reqs : σ → List (HttpRequest × Call)} {s : Store} {w : Redis.World} {g g' : Gateway σ}

omit [DecidableEq σ] in
/-- The task of a hook, at the beginning. -/
theorem thr_start {j : σ} {i : ℕ} {r : HttpRequest × Call} {hook : ZlmHookRequest} (hr : (reqs j)[i]? = some r)
    (hhook : hookOf env.parse r.1 = some hook) :
    (start env reqs s w).pool.thr (j, i) =
      hookTask env.cacheTTL env.node_config hook.action (schedulerRequest hook (env.counters j i)) := by
  simp only [start, hr, taskOf, hhook]

/-! ### Its parts -/

/-- After the events `es`: where the pool is, and each connection, whose callbacks were called with what their tasks
returned. -/
structure Parts (env : Setup σ) (reqs : σ → List (HttpRequest × Call)) (s : Store) (w : Redis.World)
    (es : List (Event σ)) (g : Gateway σ) : Prop where
  pool : (start env reqs s w).pool.exec env.machine (es.filterMap Event.pool?) = some g.pool
  sessions : ∀ j, ∃ fs, Session.exec env.parse fs (Session.start (reqs j)) = some (g.sessions j) ∧
    ∀ i res, .callback i res ∈ fs → (g.pool.thr (j, i)).result = some res

/-- A task that is over stays where it is. -/
theorem result_of_step {c c' : Conf services (Store × Redis.World) (σ × ℕ) SchedulerResult} {e : Ev (σ × ℕ) Around}
    (hs : c.step env.machine e = some c') {k : σ × ℕ} {res : SchedulerResult} (hres : (c.thr k).result = some res) :
    (c'.thr k).result = some res := by
  have hret := Prog.result_eq_some.1 hres
  refine Conf.step_thr (P := fun p => p.result = some res) (fun q s' hn => ?_) (fun q hf => ?_) hres hs
  · rw [hret] at hn
    cases hn
  · rw [hret] at hf
    cases hf

theorem Parts.session {es : List (Event σ)} (h : Parts env reqs s w es g) {j : σ} {e : Hook.Event} {e' : Event σ}
    (hs : g.sessionStep env.parse j e = some g') (he' : e'.pool? = none)
    (hres : ∀ i res, e = .callback i res → (g.pool.thr (j, i)).result = some res) :
    Parts env reqs s w (es ++ [e']) g' := by
  obtain ⟨t, ht, rfl⟩ := Option.map_eq_some_iff.1 hs
  constructor
  · rw [List.filterMap_append, List.filterMap_cons_none he', List.filterMap_nil, List.append_nil]
    exact h.pool
  · intro k
    dsimp only
    by_cases hk : k = j
    · subst hk
      obtain ⟨fs, hfs, htold⟩ := h.sessions k
      refine ⟨fs ++ [e], ?_, fun i res hi => ?_⟩
      · rw [Function.update_self]
        exact tries_append_eq_some.2 ⟨_, hfs, tries_cons_eq_some.2 ⟨t, ht, rfl⟩⟩
      · rcases List.mem_append.1 hi with hi | hi
        · exact htold i res hi
        · exact hres i res (List.mem_singleton.1 hi).symm
    · rw [Function.update_of_ne hk]
      exact h.sessions k

theorem parts_of_run {es : List (Event σ)} (h : tries (step env) es (start env reqs s w) = some g) :
    Parts env reqs s w es g := by
  refine tries_history (I := Parts env reqs s w) ?_ h ⟨rfl, fun j => ⟨[], rfl, fun i res hi => nomatch hi⟩⟩
  intro past g e g' hg hs
  cases e with
  | read j => exact hg.session (e := .read) hs rfl fun i res he => nomatch he
  | strand j => exact hg.session (e := .strand) hs rfl fun i res he => nomatch he
  | wrote j => exact hg.session (e := .wrote) hs rfl fun i res he => nomatch he
  | callback j i =>
    rw [step] at hs
    cases hres : (g.pool.thr (j, i)).result with
    | none =>
      rw [hres] at hs
      cases hs
    | some res =>
      rw [hres] at hs
      refine hg.session hs rfl fun i' res' he => ?_
      obtain ⟨rfl, rfl⟩ := Hook.Event.callback.inj he
      exact hres
  | pool e =>
    rw [step] at hs
    split at hs
    · obtain ⟨c, hc, rfl⟩ := Option.map_eq_some_iff.1 hs
      refine ⟨?_, fun j => ?_⟩
      · rw [List.filterMap_append, List.filterMap_cons_some (f := Event.pool?) (b := e) rfl, List.filterMap_nil]
        exact Conf.exec_append_eq_some.2 ⟨_, hg.pool, by rw [Conf.exec_cons, hc]; rfl⟩
      · obtain ⟨fs, hfs, htold⟩ := hg.sessions j
        exact ⟨fs, hfs, fun i res hi => result_of_step hc (htold i res hi)⟩
    · cases hs

/-- A response on a connection is that of its own request and its own task. -/
theorem written_own {es : List (Event σ)} (h : tries (step env) es (start env reqs s w) = some g) {j : σ} {v : Write}
    (hv : v ∈ (g.sessions j).written) :
    ∃ r, (reqs j)[v.origin]? = some r ∧
      Answers env.parse (fun res => (g.pool.thr (j, v.origin)).result = some res) r v.response := by
  obtain ⟨fs, hfs, htold⟩ := (parts_of_run h).sessions j
  obtain ⟨r, hr, hans⟩ := (Session.matching_of_run hfs).written v hv
  exact ⟨r, hr, hans.mono fun res hres => htold v.origin res hres⟩

/-! ### What a granted hook has taken -/

/-- The task that a hook has registered. -/
structure Registered (r : Scheduler.Request) (t : StreamTask) : Prop where
  stream_name : t.stream_name = r.stream_name
  client_id : t.client_id = r.client_id
  auth_token : t.auth_token = r.auth_token

/-- The hash of a task is written. -/
def HashOf (t : StreamTask) (c : Redis.Cmd) : Prop := c = .hset t.key (serializeTask t)

/-- The hash of such a task is written. -/
def Writes (r : Scheduler.Request) (c : Redis.Cmd) : Prop := ∃ t, Registered r t ∧ HashOf t c

theorem earns_registerHash (t : StreamTask) :
    (State.registerHash t).Earns (HashOf t) (· = true) := by
  have hset : (State.hashSet t.key (serializeTask t)).Earns (HashOf t) (· = true) :=
    ⟨fun _ => .inl rfl, Bool.false_ne_true⟩
  refine hset.bind fun ok hok => ?_
  rw [if_neg hok]
  exact Bool.false_ne_true

/-- A registration that succeeds has written the hash of the task. -/
theorem earns_registerTask (t : StreamTask) :
    (State.registerTask t).Earns (HashOf t) (· = true) := by
  unfold State.registerTask
  split
  · refine Prog.Earns.bind_right _ fun existing => ?_
    cases existing with
    | none => exact earns_registerHash t
    | some pub =>
      dsimp only
      split
      · exact Bool.false_ne_true
      · exact Prog.Earns.bind_right _ fun _ => earns_registerHash t
  · refine Prog.Earns.bind_right _ fun found => ?_
    split
    · exact Prog.Earns.bind_right _ fun _ => earns_registerHash t
    · exact earns_registerHash t

/-- A new task is that of its request, whatever the clock says. -/
theorem earns_register {r : Scheduler.Request} {type : StreamType} {ip : String} {port : Int32}
    {f : StreamTask → Redis.RProg SchedulerResult}
    (hf : ∀ t, Registered r t → (f t).Earns (Writes r) fun res => res.error = .SUCCESS) :
    (createTask r type ip port >>= f).Earns (Writes r) fun res => res.error = .SUCCESS :=
  fun _ => .inr (hf _ ⟨rfl, rfl, rfl⟩)

/-- What is granted is registered. -/
theorem earns_handler (node_config : NodeConfig) (action : HookAction) (r : Scheduler.Request) :
    (handler node_config action r).Earns (Writes r) fun res => res.error = .SUCCESS := by
  have hregister : ∀ t (a b : SchedulerResult), Registered r t → b.error ≠ .SUCCESS →
      (State.registerTask t >>= fun ok => if ok then pure a else pure b).Earns (Writes r)
        fun res => res.error = .SUCCESS := by
    intro t a b ht hb
    refine ((earns_registerTask t).mono (fun c hc => ⟨t, ht, hc⟩) fun _ h => h).bind fun ok hok => ?_
    rw [if_neg hok]
    exact hb
  have hno : ∀ e task message, e ≠ Scheduler.Error.SUCCESS →
      (Prog.ret ⟨e, task, message⟩ : Redis.RProg SchedulerResult).Earns (Writes r) fun res => res.error = .SUCCESS :=
    fun _ _ _ h => h
  unfold handler
  split
  · unfold onPublish
    split
    · exact hno _ _ _ (by decide)
    · split
      · exact hno _ _ _ (by decide)
      · refine earns_register fun t ht => ?_
        exact Prog.Earns.bind_right _ fun _ => hregister t _ _ ht (by decide)
  · unfold onPlay
    split
    · exact hno _ _ _ (by decide)
    · split
      · exact hno _ _ _ (by decide)
      · refine Prog.Earns.bind_right _ fun pub => ?_
        cases pub with
        | none => exact hno _ _ _ (by decide)
        | some pub => exact earns_register fun t ht => hregister t _ _ ht (by decide)
  · exact hno _ _ _ (by decide)

/-! ### What a granted hook was authenticated by -/

/-- A request that was not authenticated is not granted. -/
theorem leaves_handler (node_config : NodeConfig) (action : HookAction) (r : Scheduler.Request) (hcode : r.code ≠ 0) :
    (handler node_config action r).Leaves fun res => res.error ≠ .SUCCESS := by
  have hno : ∀ e task message, e ≠ Scheduler.Error.SUCCESS →
      (Prog.ret ⟨e, task, message⟩ : Redis.RProg SchedulerResult).Leaves fun res => res.error ≠ .SUCCESS :=
    fun _ _ _ h => h
  unfold handler onPublish onPlay
  simp only [if_pos hcode]
  split
  · split <;> exact hno _ _ _ (by decide)
  · split <;> exact hno _ _ _ (by decide)
  · exact hno _ _ _ (by decide)

theorem tracks_hookTask {cacheTTL : ℤ} {node_config : NodeConfig} {action : HookAction} {r : Scheduler.Request}
    {x : Set Row} :
    (hookTask cacheTTL node_config action r).Tracks (possibleLeft Possible) (permittedLeft Permitted)
      (fun y res => res.error = .SUCCESS → ⟨r.stream_name, r.client_id, r.auth_token, true⟩ ∈ y) x := by
  refine tracks_performAuthLogic.inl.bind fun y a _ ha => ?_
  by_cases hcode : authCode a = 0
  · have hok : a = .SUCCESS := by
      cases a with
      | SUCCESS => rfl
      | AUTH_DENIED => cases hcode
      | RUNTIME_ERROR => cases hcode
    exact (Prog.leaves_true _).inr fun z res hz _ _ => hz (ha hok)
  · exact (leaves_handler node_config action { r with code := authCode a } hcode).inr fun z res _ hres he =>
      absurd he hres

/-- The rows that the table has held in a run of the pool and what surrounds it. -/
def Held (env : Setup σ) (g : Gateway σ) (es : List (Ev (σ × ℕ) Around)) : Set Row :=
  {row | ∃ past m, past <+: es ∧ g.pool.exec env.machine past = some m ∧ row ∈ m.st.1.table}

theorem held_mono (env : Setup σ) (g : Gateway σ) (es : List (Ev (σ × ℕ) Around)) (e : Ev (σ × ℕ) Around) :
    Held env g es ⊆ Held env g (es ++ [e]) := by
  rintro row ⟨past, m, hpre, hm, hrow⟩
  exact ⟨past, m, hpre.trans (List.prefix_append _ _), hm, hrow⟩

theorem consistent_around {past : List (Ev (σ × ℕ) Around)} {e : Around}
    {c : Conf services (Store × Redis.World) (σ × ℕ) SchedulerResult} (hrun : g.pool.exec env.machine past = some c)
    (h : Consistent (Held env g past) c.st.1) :
    Consistent (Held env g (past ++ [.env e])) (env.machine.env e c.st).1 := by
  have h' := h.mono (held_mono env g past (.env e))
  cases e with
  | inr d => exact h'
  | inl ch =>
    cases ch with
    | expire key => exact h'.setEntry fun e d he => nomatch he
    | health hl => exact ⟨h'.table, h'.cache⟩
    | table rows =>
      refine ⟨fun row hrow => ?_, h'.cache⟩
      refine ⟨past ++ [.env (.inl (.table rows))], ⟨_, c.thr⟩, List.prefix_rfl, ?_, hrow⟩
      exact Conf.exec_append_eq_some.2 ⟨c, hrun, rfl⟩

/-- A task that grants its request has been authenticated. -/
theorem held_of_granted (hsql : env.sql.ByteEquality) (hcache : ∀ key, s.cache key = none) {j : σ} {i : ℕ}
    {r : HttpRequest × Call} {hook : ZlmHookRequest} (hr : (reqs j)[i]? = some r)
    (hhook : hookOf env.parse r.1 = some hook) {es : List (Ev (σ × ℕ) Around)}
    {c : Conf services (Store × Redis.World) (σ × ℕ) SchedulerResult}
    (hrun : (start env reqs s w).pool.exec env.machine es = some c) {res : SchedulerResult}
    (hres : (c.thr (j, i)).result = some res) (hok : res.error = .SUCCESS) :
    ⟨hook.stream_key, hook.client_id, hook.get_token, true⟩ ∈ Held env (start env reqs s w) es := by
  let granted : σ × ℕ → Set Row → SchedulerResult → Prop := fun k y res =>
    res.error = .SUCCESS → ∀ r hook, (reqs k.1)[k.2]? = some r → hookOf env.parse r.1 = some hook →
      ⟨hook.stream_key, hook.client_id, hook.get_token, true⟩ ∈ y
  have h0 : Consistent (Held env (start env reqs s w) []) s :=
    ⟨fun row hrow => ⟨[], _, List.prefix_rfl, rfl, hrow⟩, fun key e d he => by simp [hcache] at he⟩
  have hthr : ∀ k, ((start env reqs s w).pool.thr k).Tracks (possibleLeft Possible) (permittedLeft Permitted)
      (granted k) (Held env (start env reqs s w) []) := by
    rintro ⟨j, i⟩
    simp only [start]
    split
    · exact fun _ _ he => nomatch he
    · rename_i r hr
      unfold taskOf
      split
      · exact fun _ _ he => nomatch he
      · rename_i hook hhook
        refine tracks_hookTask.imp fun y res _ hres hok r' hook' hr' hhook' => ?_
        obtain rfl := Option.some.inj (hr.symm.trans hr')
        obtain rfl := Option.some.inj (hhook.symm.trans hhook')
        exact hres hok
  have hpossible : ∀ x (cmd : services.Cmd) (st : Store × Redis.World), Consistent x st.1 →
      possibleLeft Possible x cmd (env.machine.handle cmd st).1 := by
    rintro x (cmd | cmd) st h
    · exact h.possible hsql cmd
    · trivial
  have hkeeps : ∀ x (cmd : services.Cmd) (st : Store × Redis.World), permittedLeft Permitted x cmd →
      Consistent x st.1 → Consistent x (env.machine.handle cmd st).2.1 := by
    rintro x (cmd | cmd) st hc h
    · exact h.handle hc
    · exact h
  have hmono : ∀ (x y : Set Row) (st : Store × Redis.World), x ≤ y → Consistent x st.1 → Consistent y st.1 :=
    fun _ _ _ hxy h => h.mono hxy
  obtain ⟨-, ht⟩ := Conf.exec_tracks (Held env _) (fun x st => Consistent x st.1) (held_mono env _) hmono hpossible
    hkeeps (fun _ _ _ hp h => consistent_around hp h) h0 hthr hrun
  exact Conf.tracks_result (ht (j, i)) hres hok r hook hr hhook

/-! ### What the client is told -/

/-- What the scheduler makes of a publish or play hook. -/
theorem leaves_known {node_config : NodeConfig} {action : HookAction} (r : Scheduler.Request)
    (haction : action = .Publish ∨ action = .Play) : (handler node_config action r).Leaves Known := by
  have hno : ∀ e task message, message ∈ refusals →
      (Prog.ret ⟨e, task, message⟩ : Redis.RProg SchedulerResult).Leaves Known := fun _ _ _ h => Or.inr h
  have hregister : ∀ (t : StreamTask) (a b : SchedulerResult), Known a → Known b →
      (State.registerTask t >>= fun ok => if ok then pure a else pure b).Leaves Known := by
    intro t a b ha hb
    refine (Prog.leaves_true _).bind fun ok _ => ?_
    split
    · exact ha
    · exact hb
  unfold handler
  split
  · unfold onPublish
    split
    · exact hno _ _ _ (by decide)
    · split
      · exact hno _ _ _ (by decide)
      · refine (Prog.leaves_true _).bind fun t _ => (Prog.leaves_true _).bind fun _ _ => ?_
        exact hregister t _ _ (.inl rfl) (.inr (by decide))
  · unfold onPlay
    split
    · exact hno _ _ _ (by decide)
    · split
      · exact hno _ _ _ (by decide)
      · refine (Prog.leaves_true _).bind fun pub _ => ?_
        cases pub with
        | none => exact hno _ _ _ (by decide)
        | some pub =>
          exact (Prog.leaves_true _).bind fun t _ => hregister t _ _ (.inl rfl) (.inr (by decide))
  · rcases haction with h | h
    · exact absurd h ‹_›
    · exact absurd h ‹_›

/-- What the task of a publish or play hook returns. -/
theorem known_of_result {es : List (Event σ)} (h : tries (step env) es (start env reqs s w) = some g) {j : σ} {i : ℕ}
    {r : HttpRequest} {call : Call} (hr : (reqs j)[i]? = some (r, call)) (hgated : Gated r) {hook : ZlmHookRequest}
    {res : SchedulerResult} (hhook : hookOf env.parse r = some hook) (hres : (g.pool.thr (j, i)).result = some res) :
    Known res := by
  have hleaves : ((start env reqs s w).pool.thr (j, i)).Leaves Known := by
    rw [thr_start hr hhook]
    have haction : hook.action = .Publish ∨ hook.action = .Play := by
      obtain ⟨hook', -, rfl⟩ := Option.map_eq_some_iff.1 hhook
      exact hgated.2
    exact (Prog.leaves_true _).bind fun a _ => (leaves_known _ haction).right
  have hend := Conf.exec_thr (P := Prog.Leaves Known) (fun _ _ _ _ hp hn => hp.next hn) (fun _ _ hp hf => hp.fail hf)
    hleaves (parts_of_run h).pool
  rw [Prog.result_eq_some.1 hres] at hend
  exact hend

/-- **What the client of a publish or play hook is told**, in every run: that it is granted, if its own task has ended
so, that the hook is not in the right format, or, with the code 4, that there was an internal error.  A refused
authentication is one of those: no client is ever told of it by the code 1. -/
theorem told_sound {es : List (Event σ)} (h : tries (step env) es (start env reqs s w) = some g) {j : σ} {v : Write}
    (hv : v ∈ (g.sessions j).written) {r : HttpRequest} {call : Call} (hr : (reqs j)[v.origin]? = some (r, call))
    (hgated : Gated r) :
    Outcomes env.parse (fun res => (g.pool.thr (j, v.origin)).result = some res) r v.response := by
  obtain ⟨r', hr', hans⟩ := written_own h hv
  obtain rfl := Option.some.inj (hr.symm.trans hr')
  exact outcomes_of_gated hgated (fun _ _ hhook hres => known_of_result h hr hgated hhook hres) hans

/-- **A hook that is answered with the code 0 was authenticated and is registered.**  Connections and tasks are
interleaved in any order, with failures of the database and of Redis, expiries, changes of the table and anything that
others do in Redis but for the `auth_data:` entries, which only the repository writes; none of them is there at the
beginning.  If a publish or play hook has got a response with the code 0, then none of its three fields is empty, the
table held the active row of its stream, client and token at some moment of the run, and the hash of its task was
written to Redis. -/
theorem granted_sound (hsql : env.sql.ByteEquality) (hcache : ∀ key, s.cache key = none) {es : List (Event σ)}
    (h : tries (step env) es (start env reqs s w) = some g) {j : σ} {v : Write} (hv : v ∈ (g.sessions j).written)
    {r : HttpRequest} {call : Call} (hr : (reqs j)[v.origin]? = some (r, call)) (hgated : Gated r) {msg : String}
    (hcode : v.response.body = .result 0 msg) :
    ∃ hook, hookOf env.parse r = some hook ∧ hook.Complete ∧
      ⟨hook.stream_key, hook.client_id, hook.get_token, true⟩ ∈
        Held env (start env reqs s w) (es.filterMap Event.pool?) ∧
      Conf.WasServed env.machine (onRight (Writes (schedulerRequest hook (env.counters j v.origin))))
        (start env reqs s w).pool (j, v.origin) (es.filterMap Event.pool?) := by
  obtain ⟨r', hr', hans⟩ := written_own h hv
  obtain rfl := Option.some.inj (hr.symm.trans hr')
  obtain ⟨res, hres, hok, hook, hhook, hnames⟩ : ∃ res, (g.pool.thr (j, v.origin)).result = some res ∧
      res.error = .SUCCESS ∧ ∃ hook, hookOf env.parse r = some hook ∧ hook.Complete := by
    obtain ⟨-, -, ⟨res, hres, hok⟩, hhook⟩ | ⟨status, code, message, hmem, -, hbody⟩ | ⟨-, message, -, hbody⟩ :=
      (outcomes_of_gated hgated (fun _ _ hhook hres => known_of_result h hr hgated hhook hres) hans).told
    · exact ⟨res, hres, hok, hhook⟩
    · obtain ⟨rfl, -⟩ := Body.result.inj (hcode.symm.trans hbody)
      simp [hookErrors] at hmem
    · cases hcode.symm.trans hbody
  have hpool := (parts_of_run h).pool
  refine ⟨hook, hhook, hnames, held_of_granted hsql hcache hr hhook hpool hres hok, ?_⟩
  refine Conf.wasServed_of_earns (P := fun res : SchedulerResult => res.error = .SUCCESS) ?_ hpool hres hok
  rw [thr_start hr hhook]
  refine Prog.Earns.bind_right _ fun a => Prog.Earns.inr ?_
  exact (earns_handler env.node_config hook.action _).mono
    (fun _ hw => hw.imp fun _ ht => ⟨⟨ht.1.stream_name, ht.1.client_id, ht.1.auth_token⟩, ht.2⟩) fun _ h => h

/-- A publisher whose stream, client and token are in the table. -/
def camera : Setup Unit where
  parse text :=
    if text = "hook" then
      .ok (.object [("stream", .string "cam"), ("id", .string "obs"), ("params", .string "token")])
    else if text = "token" then .ok (.object [("token", .string "key")])
    else .error .parse_error
  sql := .bytes
  cacheTTL := 300
  node_config := {}
  counters _ _ := (0, 1000)

def cameraHook : HttpRequest := { method := .post, target := "/index/hook/on_publish", body := "hook" }

def cameraStart : Gateway Unit :=
  start camera (fun _ => [(cameraHook, .returns)])
    { cache := fun _ => none, table := [⟨"__defaultVhost__/live/cam", "obs", "key", true⟩] }
    (Redis.World.initial 1700000000000000000)

/-- The hook is read, its task runs, and the response is written. -/
def cameraRun : List (Event Unit) :=
  .read () :: List.replicate 16 (.pool (.run ((), 0))) ++ [.callback () 0, .strand (), .wrote ()]

/-- What is written then. -/
def granted : Write := ⟨0, ⟨11, 200, true, .result 0 "success"⟩⟩

theorem camera_written :
    ∃ g, tries (step camera) cameraRun cameraStart = some g ∧ (g.sessions ()).written = [granted] :=
  Option.map_eq_some_iff.1 (by decide +kernel)

theorem camera_gated : Gated cameraHook := ⟨rfl, .inl (by decide +kernel)⟩

theorem told_camera : ∃ g, tries (step camera) cameraRun cameraStart = some g ∧
    Outcomes camera.parse (fun res => (g.pool.thr ((), 0)).result = some res) cameraHook granted.response := by
  obtain ⟨g, hrun, hw⟩ := camera_written
  exact ⟨g, hrun, told_sound hrun (j := ()) (v := granted) (by simp [hw]) rfl camera_gated⟩

theorem granted_camera : ∃ hook, hookOf camera.parse cameraHook = some hook ∧ hook.Complete ∧
    ⟨hook.stream_key, hook.client_id, hook.get_token, true⟩ ∈
      Held camera cameraStart (cameraRun.filterMap Event.pool?) ∧
    Conf.WasServed camera.machine (onRight (Writes (schedulerRequest hook (0, 1000)))) cameraStart.pool ((), 0)
      (cameraRun.filterMap Event.pool?) := by
  obtain ⟨g, hrun, hw⟩ := camera_written
  have hbytes : camera.sql.ByteEquality := fun a b => decide_eq_true_iff
  exact granted_sound hbytes (fun _ => rfl) hrun (j := ()) (v := granted) (by simp [hw]) rfl camera_gated rfl

end Gateway

end StreamGate.Hook
