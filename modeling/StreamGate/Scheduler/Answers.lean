import StreamGate.Scheduler.Metrics
import StreamGate.Scheduler.TaskScheduler
import StreamGate.State.Alone

/-!
# How often a hook request is answered

`onPublish` and `onPlay` with the exceptions that may be thrown: by the state manager, by the callback itself and by
`ThreadPool::submit`.  The callback is called within a `try` block and once more in its `catch` blocks, and it is not
called at all when `AuthManager` is being shut down.
-/

namespace StreamGate.Scheduler.Answers

open StreamGate.Lib StreamGate.Redis StreamGate.Task StreamGate.State

/-- What is thrown. -/
inductive Exn where
  /-- Something derived from `std::exception`. -/
  | exception
  | other
  deriving DecidableEq

/-- What a request finds. -/
structure Env where
  node_config : NodeConfig := {}
  now : ℤ := 0
  /-- `AuthManager::_shutdown`, as `checkAuthAsync` loads it, and as the task of the pool does. -/
  shutdownAtCall : Bool := false
  shutdownInTask : Bool := false
  /-- What `submit` throws, if it does. -/
  submit : Option Exn := none
  /-- The two methods of the state manager. -/
  getPublisherTask : Except Exn (Option StreamTask) := .ok none
  registerTask : StreamTask → Except Exn Bool := fun _ => .ok true
  /-- What the callback throws, if it does, given the results it was called with before and the present one. -/
  callback : List SchedulerResult → SchedulerResult → Option Exn := fun _ _ => none

/-- What a request changes: the counters, and what the callback was called with. -/
structure Desk where
  metrics : Metrics := {}
  answers : List SchedulerResult := []

/-- Code that may throw. -/
abbrev Act (α : Type) := ExceptT Exn (StateM Desk) α

variable (env : Env) (r : Request)

def count (f : Metrics → Metrics) : Act Unit := modify fun s => { s with metrics := f s.metrics }

def throwIf : Option Exn → Act Unit
  | none => return ()
  | some e => throw e

/-- The callback is called. -/
def callback (result : SchedulerResult) : Act Unit := do
  let s ← get
  set { s with answers := s.answers ++ [result] }
  throwIf (env.callback s.answers result)

/-- The `try` block of `onPublish`. -/
def publishBody : Act Unit :=
  if r.code ≠ 0 then do
    count Metrics.refuse
    callback env ⟨.AUTH_FAILED, none, "鉴权拒绝"⟩
  else do
    let (ip, port) := selectBestNode env.node_config r.nodeIndex r.protocol
    let task := newTask r .PUBLISHER ip port env.now
    let _ ← liftExcept env.getPublisherTask
    if ← liftExcept (env.registerTask task) then do
      count (·.succeed .publish)
      callback env ⟨.SUCCESS, some task, "推流授权成功"⟩
    else callback env ⟨.ALREADY_PUBLISHING, none, "该流已在推送中"⟩

/-- The `try` block of `onPlay`. -/
def playBody : Act Unit :=
  if r.code ≠ 0 then do
    count Metrics.refuse
    callback env ⟨.AUTH_FAILED, none, "鉴权拒绝"⟩
  else do
    match ← liftExcept env.getPublisherTask with
    | none => callback env ⟨.NO_PUBLISHER, none, "找不到活跃推流端"⟩
    | some pub =>
      let task := newTask r .PLAYER pub.server_ip pub.server_port env.now
      if ← liftExcept (env.registerTask task) then do
        count (·.succeed .play)
        callback env ⟨.SUCCESS, some task, "播放授权成功"⟩
      else callback env ⟨.STATE_STORE_ERROR, none, "状态注册失败"⟩

/-- What the `catch` blocks answer. -/
def caught : Exn → SchedulerResult
  | .exception => ⟨.INTERNAL_ERROR, none, "Internal error"⟩
  | .other => ⟨.INTERNAL_ERROR, none, "Unknown error"⟩

/-- The `try` block with them. -/
def guarded (body : Act Unit) : Act Unit := tryCatch body fun e => callback env (caught e)

/-- The task of `checkAuthAsync`.  What its own `catch` block does not take goes into a future that nobody reads. -/
def authTask (cb : Act Unit) : Act Unit :=
  if env.shutdownInTask then return ()
  else tryCatch cb fun
    | .exception => return ()
    | .other => throw .other

/-- `checkAuthAsync`, with the task that it has submitted. -/
def checkAuthAsync (cb : Act Unit) : Act (Option (Act Unit)) :=
  if env.shutdownAtCall then return none
  else match env.submit with
  | some e => throw e
  | none => return some (authTask env cb)

/-- The part that the two hooks share. -/
def request (h : HookKind) (body : Act Unit) : Act (Option (Act Unit)) := do
  count (·.arrive h)
  if validateRequest r then checkAuthAsync env (guarded env body)
  else do
    callback env ⟨.INTERNAL_ERROR, none, "参数缺失"⟩
    return none

def onPublish : Act (Option (Act Unit)) := request env r .publish (publishBody env r)

def onPlay : Act (Option (Act Unit)) := request env r .play (playBody env r)

/-! ### A request from its beginning to its end -/

/-- The `try` block of a hook. -/
def body : HookKind → Act Unit
  | .publish => publishBody env r
  | .play => playBody env r

/-- A hook. -/
def onHook : HookKind → Act (Option (Act Unit))
  | .publish => onPublish env r
  | .play => onPlay env r

/-- The hook is called and does not throw, and the pool runs the task if one was submitted. -/
def serve (h : HookKind) (s : Desk) : Option Desk :=
  match (onHook env r h).run s with
  | (.error _, _) => none
  | (.ok none, s) => some s
  | (.ok (some task), s) => some (task.run s).2

/-- What the `try` block comes to before it calls the callback. -/
def answer : HookKind → Except Exn SchedulerResult
  | .publish =>
    if r.code ≠ 0 then .ok ⟨.AUTH_FAILED, none, "鉴权拒绝"⟩
    else do
      let (ip, port) := selectBestNode env.node_config r.nodeIndex r.protocol
      let task := newTask r .PUBLISHER ip port env.now
      let _ ← env.getPublisherTask
      if ← env.registerTask task then return ⟨.SUCCESS, some task, "推流授权成功"⟩
      else return ⟨.ALREADY_PUBLISHING, none, "该流已在推送中"⟩
  | .play =>
    if r.code ≠ 0 then .ok ⟨.AUTH_FAILED, none, "鉴权拒绝"⟩
    else do
      match ← env.getPublisherTask with
      | none => return ⟨.NO_PUBLISHER, none, "找不到活跃推流端"⟩
      | some pub =>
        let task := newTask r .PLAYER pub.server_ip pub.server_port env.now
        if ← env.registerTask task then return ⟨.SUCCESS, some task, "播放授权成功"⟩
        else return ⟨.STATE_STORE_ERROR, none, "状态注册失败"⟩

/-- Then it throws, or calls it. -/
def settle : Except Exn SchedulerResult → Act Unit
  | .error e => throw e
  | .ok result => callback env result

/-- How the counters of the successes and refusals change on the way. -/
def tally (h : HookKind) (m : Metrics) : Metrics :=
  if r.code ≠ 0 then m.refuse
  else match answer env r h with
  | .ok ⟨.SUCCESS, _, _⟩ => m.succeed h
  | _ => m

variable {env r} {h : HookKind} {s : Desk}

theorem callback_run (result : SchedulerResult) :
    (callback env result).run s =
      ((env.callback s.answers result).elim (.ok ()) .error, { s with answers := s.answers ++ [result] }) := by
  have hrun : (callback env result).run s =
      (throwIf (env.callback s.answers result)).run { s with answers := s.answers ++ [result] } := rfl
  rw [hrun]
  cases env.callback s.answers result <;> rfl

theorem ok_bind {α β : Type} (a : α) (f : α → Except Exn β) : (Except.ok a >>= f) = f a := rfl

/-- **The `try` block**: an exception of the state manager, or one call of the callback. -/
theorem body_run : (body env r h).run s =
    (settle env (answer env r h)).run { s with metrics := tally env r h s.metrics } := by
  by_cases hcode : r.code ≠ 0
  · cases h <;> simp only [body, publishBody, playBody, answer, tally, if_pos hcode] <;> rfl
  cases h with
  | publish =>
    simp only [body, publishBody, answer, tally, if_neg hcode]
    generalize selectBestNode env.node_config r.nodeIndex r.protocol = node
    obtain ⟨ip, port⟩ := node
    cases env.getPublisherTask with
    | error e => rfl
    | ok pub =>
      cases env.registerTask (newTask r .PUBLISHER ip port env.now) with
      | error e => rfl
      | ok b => cases b <;> rfl
  | play =>
    simp only [body, playBody, answer, tally, if_neg hcode]
    cases env.getPublisherTask with
    | error e => rfl
    | ok pub =>
      cases pub with
      | none => rfl
      | some pub =>
        -- the task depends on the publisher that was found, so its name has to be reduced away first
        simp only [liftExcept, pure_bind, ok_bind]
        cases env.registerTask (newTask r .PLAYER pub.server_ip pub.server_port env.now) with
        | error e => rfl
        | ok b => cases b <;> rfl

section Run

variable {b : Act Unit} {f : Exn → Act Unit} {e : Exn} {s' : Desk}

theorem bind_run_ok {α : Type} {k : Unit → Act α} (hb : b.run s = (.ok (), s')) : (b >>= k).run s = (k ()).run s' := by
  have hb' : b s = (.ok (), s') := hb
  simp only [ExceptT.run, bind, ExceptT.bind, ExceptT.mk, StateT.bind, hb', ExceptT.bindCont]

theorem bind_run_error {α : Type} {k : Unit → Act α} (hb : b.run s = (.error e, s')) :
    (b >>= k).run s = (.error e, s') := by
  have hb' : b s = (.error e, s') := hb
  simp only [ExceptT.run, bind, ExceptT.bind, ExceptT.mk, StateT.bind, hb', ExceptT.bindCont]
  rfl

theorem tryCatch_run_ok (hb : b.run s = (.ok (), s')) : (tryCatch b f).run s = (.ok (), s') := by
  have hb' : b s = (.ok (), s') := hb
  simp only [tryCatch, tryCatchThe, MonadExceptOf.tryCatch, ExceptT.tryCatch, ExceptT.run, ExceptT.mk, bind,
    StateT.bind, hb']
  rfl

theorem tryCatch_run_error (hb : b.run s = (.error e, s')) : (tryCatch b f).run s = (f e).run s' := by
  have hb' : b s = (.error e, s') := hb
  simp only [tryCatch, tryCatchThe, MonadExceptOf.tryCatch, ExceptT.tryCatch, ExceptT.run, ExceptT.mk, bind,
    StateT.bind, hb']

end Run

/-- The state manager throws: the callback is called by a `catch` block only. -/
theorem guarded_run_error {e : Exn} (ha : answer env r h = .error e) :
    (guarded env (body env r h)).run s =
      (callback env (caught e)).run { s with metrics := tally env r h s.metrics } := by
  apply tryCatch_run_error
  rw [body_run, ha]
  rfl

/-- The callback is called, and throws nothing. -/
theorem guarded_run_ok {result : SchedulerResult} (ha : answer env r h = .ok result)
    (hcb : env.callback s.answers result = none) :
    (guarded env (body env r h)).run s =
      (.ok (), ⟨tally env r h s.metrics, s.answers ++ [result]⟩) := by
  apply tryCatch_run_ok
  rw [body_run, ha]
  simp only [settle, callback_run, hcb, Option.elim]

/-- It throws, and is called again. -/
theorem guarded_run_again {result : SchedulerResult} {e : Exn} (ha : answer env r h = .ok result)
    (hcb : env.callback s.answers result = some e) :
    (guarded env (body env r h)).run s =
      (callback env (caught e)).run ⟨tally env r h s.metrics, s.answers ++ [result]⟩ := by
  apply tryCatch_run_error
  rw [body_run, ha]
  simp only [settle, callback_run, hcb, Option.elim]

/-- The answers of a task that gets to the callback. -/
theorem guarded_answers (m : Metrics) :
    ((guarded env (body env r h)).run ⟨m, []⟩).2.answers.length = 1 ↔
      ∀ result, answer env r h = .ok result → env.callback [] result = none := by
  cases ha : answer env r h with
  | error e =>
    rw [guarded_run_error ha, callback_run]
    simp
  | ok result =>
    cases hcb : env.callback [] result with
    | none =>
      rw [guarded_run_ok ha hcb]
      simp [hcb]
    | some e =>
      rw [guarded_run_again ha hcb, callback_run]
      simp [hcb]

theorem guarded_metrics : ((guarded env (body env r h)).run s).2.metrics = tally env r h s.metrics := by
  cases ha : answer env r h with
  | error e => rw [guarded_run_error ha, callback_run]
  | ok result =>
    cases hcb : env.callback s.answers result with
    | none => rw [guarded_run_ok ha hcb]
    | some e => rw [guarded_run_again ha hcb, callback_run]

theorem tally_cases (m : Metrics) :
    tally env r h m = m ∨ tally env r h m = m.refuse ∨ tally env r h m = m.succeed h := by
  unfold tally
  split
  · exact .inr (.inl rfl)
  · split
    · exact .inr (.inr rfl)
    · exact .inl rfl

/-! ### The task and the call -/

/-- The task of the pool leaves the state as the callback of the scheduler does, if it gets there. -/
theorem authTask_run (cb : Act Unit) :
    ((authTask env cb).run s).2 = if env.shutdownInTask then s else (cb.run s).2 := by
  unfold authTask
  split
  · rfl
  · rcases hcb : cb.run s with ⟨x, s'⟩
    cases x with
    | ok u => rw [tryCatch_run_ok hcb]
    | error e =>
      rw [tryCatch_run_error hcb]
      cases e <;> rfl

theorem onHook_eq : onHook env r h = request env r h (body env r h) := by
  cases h <;> rfl

theorem request_run_invalid (hv : ¬ validateRequest r = true) (b : Act Unit) :
    (request env r h b).run s =
      ((env.callback s.answers ⟨.INTERNAL_ERROR, none, "参数缺失"⟩).elim (.ok none) .error,
        ⟨s.metrics.arrive h, s.answers ++ [⟨.INTERNAL_ERROR, none, "参数缺失"⟩]⟩) := by
  simp only [request, if_neg hv]
  have hcount : (count (·.arrive h)).run s = (.ok (), { s with metrics := s.metrics.arrive h }) := rfl
  have hcb : (callback env ⟨.INTERNAL_ERROR, none, "参数缺失"⟩).run { s with metrics := s.metrics.arrive h } = _ :=
    callback_run _
  rw [bind_run_ok hcount]
  cases hthrow : env.callback s.answers ⟨.INTERNAL_ERROR, none, "参数缺失"⟩ with
  | none =>
    rw [hthrow] at hcb
    rw [bind_run_ok hcb]
    rfl
  | some e =>
    rw [hthrow] at hcb
    rw [bind_run_error hcb]
    rfl

theorem request_run (hv : validateRequest r = true) (b : Act Unit) :
    (request env r h b).run s = (checkAuthAsync env (guarded env b)).run { s with metrics := s.metrics.arrive h } := by
  simp only [request, if_pos hv]
  rfl

/-- What a call that does not throw leads to. -/
theorem serve_eq_some {s' : Desk} (hs : serve env r h s = some s') :
    (validateRequest r = false ∧
      s' = ⟨s.metrics.arrive h, s.answers ++ [⟨.INTERNAL_ERROR, none, "参数缺失"⟩]⟩) ∨
    (validateRequest r = true ∧ (env.shutdownAtCall = true ∨ env.shutdownInTask = true) ∧
      s' = { s with metrics := s.metrics.arrive h }) ∨
    (validateRequest r = true ∧ env.shutdownAtCall = false ∧ env.shutdownInTask = false ∧
      s' = ((guarded env (body env r h)).run { s with metrics := s.metrics.arrive h }).2) := by
  rw [serve, onHook_eq] at hs
  by_cases hv : validateRequest r = true
  · rw [request_run hv] at hs
    right
    by_cases hcall : env.shutdownAtCall = true
    · left
      simp only [checkAuthAsync, if_pos hcall] at hs
      exact ⟨hv, .inl hcall, (Option.some.inj hs).symm⟩
    simp only [checkAuthAsync, if_neg hcall] at hs
    cases hsubmit : env.submit with
    | some e =>
      rw [hsubmit] at hs
      cases hs
    | none =>
      rw [hsubmit] at hs
      obtain rfl : ((authTask env (guarded env (body env r h))).run { s with metrics := s.metrics.arrive h }).2 = s' :=
        Option.some.inj hs
      rw [authTask_run]
      by_cases htask : env.shutdownInTask = true
      · left
        exact ⟨hv, .inr htask, if_pos htask⟩
      · right
        exact ⟨hv, by simpa using hcall, by simpa using htask, if_neg htask⟩
  · rw [request_run_invalid hv] at hs
    cases hthrow : env.callback s.answers ⟨.INTERNAL_ERROR, none, "参数缺失"⟩ with
    | none =>
      rw [hthrow] at hs
      exact .inl ⟨by simpa using hv, (Option.some.inj hs).symm⟩
    | some e =>
      rw [hthrow] at hs
      cases hs

/-- **How often a hook request is answered.**  Once, exactly if its fields are missing, or the shutdown flag is not set
at either of its loads and the callback does not throw on what the `try` block calls it with. -/
theorem answered_once_iff {m : Metrics} (hs : serve env r h ⟨m, []⟩ = some s) :
    s.answers.length = 1 ↔
      (validateRequest r = true → env.shutdownAtCall = false ∧ env.shutdownInTask = false ∧
        ∀ result, answer env r h = .ok result → env.callback [] result = none) := by
  rcases serve_eq_some hs with ⟨hv, rfl⟩ | ⟨hv, hdown, rfl⟩ | ⟨hv, hcall, htask, rfl⟩
  · simp [hv]
  · constructor
    · simp
    · intro h
      obtain ⟨hcall, htask, -⟩ := h hv
      rcases hdown with hdown | hdown
      · exact absurd (hdown.symm.trans hcall) nofun
      · exact absurd (hdown.symm.trans htask) nofun
  · rw [guarded_answers]
    simp [hv, hcall, htask]

/-- A publisher with a token that is valid. -/
def valid : Request := { stream_name := "live", client_id := "obs", auth_token := "token" }

/-- The flag is set before the call, or before the task: no answer.  The callback throws when it is called first:
two answers. -/
theorem not_answered_once :
    (∃ s, serve { shutdownAtCall := true } valid .publish {} = some s ∧ s.answers.length = 0) ∧
    (∃ s, serve { shutdownInTask := true } valid .play {} = some s ∧ s.answers.length = 0) ∧
    (∃ s, serve { callback := fun before _ => if before = [] then some .exception else none } valid .publish {} =
      some s ∧ s.answers.length = 2) := by
  refine ⟨⟨_, rfl, rfl⟩, ⟨_, rfl, rfl⟩, ⟨_, rfl, rfl⟩⟩

/-- The state manager throws, and so does the callback then. -/
theorem valid_answered_once :
    ∃ s, serve { getPublisherTask := .error .exception, callback := fun _ _ => some .other } valid .play {} = some s ∧
      s.answers.length = 1 := by
  let env : Env := { getPublisherTask := .error .exception, callback := fun _ _ => some .other }
  have hs : serve env valid .play {} =
      some ⟨{ total_play_req := 1 }, [⟨.INTERNAL_ERROR, none, "Internal error"⟩]⟩ := rfl
  refine ⟨_, hs, (answered_once_iff hs).2 ?_⟩
  intro _
  refine ⟨rfl, rfl, ?_⟩
  intro result hresult
  cases hresult

/-! ### Without exceptions -/

/-- The request finds a store, and nothing is thrown. -/
def Env.of (node_config : NodeConfig) (w : World) (r : Request) : Env where
  node_config := node_config
  now := w.clock
  getPublisherTask := .ok (pubAt w r.stream_name)
  registerTask t := .ok (w.run (State.registerTask t)).1

/-- The answers are what the hooks return that run on the store. -/
theorem answer_onPublish (cfg : NodeConfig) (w : World) (hv : validateRequest r = true) :
    answer (.of cfg w r) r .publish = .ok (w.run (Scheduler.onPublish cfg r)).1 := by
  unfold Scheduler.onPublish
  rw [if_neg (not_not.2 hv)]
  by_cases hcode : r.code ≠ 0
  · simp only [answer, if_pos hcode]
    rfl
  · simp only [answer, if_neg hcode, run_bind, createTask, run_systemClock, Prog.pure_eq, run_ret,
      run_getPublisherTask, Env.of, ok_bind]
    split <;> rfl

theorem answer_onPlay (cfg : NodeConfig) (w : World) (hv : validateRequest r = true) :
    answer (.of cfg w r) r .play = .ok (w.run (Scheduler.onPlay r)).1 := by
  unfold Scheduler.onPlay
  rw [if_neg (not_not.2 hv)]
  by_cases hcode : r.code ≠ 0
  · simp only [answer, if_pos hcode]
    rfl
  · simp only [answer, if_neg hcode, run_bind, run_getPublisherTask, Env.of, ok_bind]
    cases pubAt w r.stream_name with
    | none => rfl
    | some pub =>
      simp only [run_bind, createTask, run_systemClock, Prog.pure_eq, run_ret]
      split <;> rfl

/-- The hook that runs on the store. -/
def hookResult (cfg : NodeConfig) (r : Request) (w : World) : HookKind → SchedulerResult
  | .publish => (w.run (Scheduler.onPublish cfg r)).1
  | .play => (w.run (Scheduler.onPlay r)).1

/-- **Where nothing is thrown and nobody shuts down**, the one answer is the result of the hook. -/
theorem serve_of {cfg : NodeConfig} {w : World} {m : Metrics} (hs : serve (.of cfg w r) r h ⟨m, []⟩ = some s) :
    s.answers = [hookResult cfg r w h] := by
  rcases serve_eq_some hs with ⟨hv, rfl⟩ | ⟨-, hdown, -⟩ | ⟨hv, -, -, rfl⟩
  · have hno : ¬ validateRequest r = true := by rw [hv]; exact Bool.false_ne_true
    cases h with
    | publish =>
      rw [hookResult, Scheduler.onPublish, if_pos hno]
      rfl
    | play =>
      rw [hookResult, Scheduler.onPlay, if_pos hno]
      rfl
  · rcases hdown with hdown | hdown <;> cases hdown
  · have ha : answer (.of cfg w r) r h = .ok (hookResult cfg r w h) := by
      cases h with
      | publish => exact answer_onPublish cfg w hv
      | play => exact answer_onPlay cfg w hv
    rw [guarded_run_ok ha rfl]
    rfl

/-! ### What the counters see of it -/

/-- An event of the request that has just arrived. -/
theorem arrive_run {t t' : Traffic} {e : Traffic.Event}
    (he : Traffic.step e ⟨t.metrics.arrive h, t.requests ++ [(h, .pending)]⟩ = some t') :
    tries Traffic.step [.arrive h, e] t = some t' :=
  tries_cons_eq_some.2 ⟨_, rfl, tries_cons_eq_some.2 ⟨t', he, rfl⟩⟩

/-- **A request is an arrival and at most one event more.**  The counters of `Traffic` are those of the requests. -/
theorem serve_traffic {t : Traffic} {s' : Desk} (ht : t.metrics = s.metrics) (hs : serve env r h s = some s') :
    ∃ es t', tries Traffic.step (.arrive h :: es) t = some t' ∧ t'.metrics = s'.metrics := by
  have hidle : ∃ es t', tries Traffic.step (.arrive h :: es) t = some t' ∧ t'.metrics = s.metrics.arrive h :=
    ⟨[], _, rfl, congrArg (·.arrive h) ht⟩
  rcases serve_eq_some hs with ⟨-, rfl⟩ | ⟨-, -, rfl⟩ | ⟨-, -, -, rfl⟩
  · exact hidle
  · exact hidle
  · rw [guarded_metrics]
    simp only
    have hlast : (t.requests ++ [(h, Progress.pending)])[t.requests.length]? = some (h, .pending) :=
      List.getElem?_concat_length
    rcases tally_cases (s.metrics.arrive h) with hm | hm | hm
    · rw [hm]
      exact hidle
    · have hstep : Traffic.step (.refuse t.requests.length) ⟨t.metrics.arrive h, t.requests ++ [(h, .pending)]⟩ =
          some ⟨(t.metrics.arrive h).refuse,
            (t.requests ++ [(h, Progress.pending)]).set t.requests.length (h, .ended)⟩ := by
        simp only [Traffic.step, hlast]
      exact ⟨_, _, arrive_run hstep, by rw [hm, ht]⟩
    · have hstep : Traffic.step (.succeed t.requests.length) ⟨t.metrics.arrive h, t.requests ++ [(h, .pending)]⟩ =
          some ⟨(t.metrics.arrive h).succeed h,
            (t.requests ++ [(h, Progress.pending)]).set t.requests.length (h, .succeeded)⟩ := by
        simp only [Traffic.step, hlast]
      exact ⟨_, _, arrive_run hstep, by rw [hm, ht]⟩

end StreamGate.Scheduler.Answers
