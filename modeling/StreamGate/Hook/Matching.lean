import StreamGate.Hook.Responses

/-!
# Responses and their requests

What the handling of a request comes to, as a function of the request alone, and the response that belongs to it.
A session writes no other: the version, the connection flag, the status and the body of every response are those
that its own request asks for, whenever callbacks are called, and however often (`matching_of_run`).
-/

namespace StreamGate.Hook

open StreamGate.Lib StreamGate.Scheduler

/-! ### What a request comes to -/

inductive Reply where
  | report (body : Body)
  | direct (http_status business_code : ℕ) (message : String)
  /-- The callback is called in place. -/
  | called (resp : ZlmHookResponse)
  /-- The callback goes to the thread pool. -/
  | kept

/-- The request of a hook, if its body is in the right format. -/
def hookOf (parse : String → Except ParseFault Json) (r : HttpRequest) : Option ZlmHookRequest :=
  ((parse r.body).toOption.bind (ZlmHookRequest.from_json parse)).map fun hook =>
    { hook with action := map_path_to_action r.path }

/-- Hooks, as far as their text is in order. -/
def replyHook (parse : String → Except ParseFault Json) (r : HttpRequest) (call : Call) : Reply :=
  match parse r.body with
  | .error _ => .direct 400 2 "Protocol format error"
  | .ok _ =>
    match hookOf parse r with
    | none => .direct 400 2 "Invalid hook format"
    | some hook =>
      match routeHook hook call with
      | .threw .json => .direct 400 2 "Protocol format error"
      | .threw .std => .direct 200 4 "Internal service error"
      | .called resp => .called resp
      | .kept => .kept

def reply (parse : String → Except ParseFault Json) (r : HttpRequest) (call : Call) : Reply :=
  if r.method = .get then
    if r.path = "/metrics" then .report .metrics
    else if r.path = "/health" then .report .health
    else .direct 404 999 "Not found"
  else if r.method ≠ .post then .direct 405 999 "Method not allowed"
  else if map_path_to_action r.path = .Unknown then .direct 404 999 "Not found"
  else replyHook parse r call

/-- What the session does with it. -/
def Reply.perform (i : ℕ) (s : Session) : Reply → Session
  | report body => s.send_report i body
  | direct http_status business_code message => s.send_response i http_status business_code message
  | called resp => s.callback i resp
  | kept => s.keep_callback i

variable {parse : String → Except ParseFault Json} {rs : List (HttpRequest × Call)} {s s' : Session} {past : List Event}

/-- **A request is handled by what it comes to.** -/
theorem handle_request_eq (i : ℕ) (call : Call) (s : Session) :
    Session.handle_request parse i call s = (reply parse s.request call).perform i s := by
  unfold Session.handle_request reply
  dsimp only
  split_ifs
  · rfl
  · rfl
  · rfl
  · rfl
  · rfl
  · unfold Session.handle_hook replyHook hookOf
    cases parse s.request.body with
    | error e => rfl
    | ok j =>
      rw [Except.toOption, Option.bind_some]
      dsimp only
      cases ZlmHookRequest.from_json parse j with
      | none => rfl
      | some hook =>
        rw [Option.map_some]
        dsimp only
        cases routeHook { hook with action := map_path_to_action s.request.path } call with
        | threw e => cases e <;> rfl
        | _ => rfl

/-! ### The response -/

/-- The response to a request that is made from the result of its hook. -/
def HttpRequest.respond (r : HttpRequest) (resp : ZlmHookResponse) : HttpResponse :=
  ⟨r.version, (map_to_http resp.code).1, r.keep_alive, .result (map_to_http resp.code).2 resp.message⟩

/-- The results that a hook is answered with: the one at hand, or one that the scheduler has come to. -/
inductive Results (parse : String → Except ParseFault Json) (R : SchedulerResult → Prop) (r : HttpRequest × Call) :
    ZlmHookResponse → Prop
  | called {resp : ZlmHookResponse} (h : reply parse r.1 r.2 = .called resp) : Results parse R r resp
  | kept {res : SchedulerResult} (h : reply parse r.1 r.2 = .kept) (hres : R res) :
      Results parse R r (mapResult res).to_response

/-- The responses to a request. -/
inductive Answers (parse : String → Except ParseFault Json) (R : SchedulerResult → Prop) (r : HttpRequest × Call) :
    HttpResponse → Prop
  | report {body : Body} (h : reply parse r.1 r.2 = .report body) :
      Answers parse R r ⟨r.1.version, 200, r.1.keep_alive, body⟩
  | direct {http_status business_code : ℕ} {message : String}
      (h : reply parse r.1 r.2 = .direct http_status business_code message) :
      Answers parse R r ⟨r.1.version, http_status, r.1.keep_alive, .result business_code message⟩
  | hook {resp : ZlmHookResponse} (h : Results parse R r resp) : Answers parse R r (r.1.respond resp)

theorem Results.mono {R R' : SchedulerResult → Prop} {r : HttpRequest × Call} {resp : ZlmHookResponse}
    (h : Results parse R r resp) (hR : ∀ res, R res → R' res) : Results parse R' r resp := by
  cases h with
  | called h => exact .called h
  | kept h hres => exact .kept h (hR _ hres)

theorem Answers.mono {R R' : SchedulerResult → Prop} {r : HttpRequest × Call} {resp : HttpResponse}
    (h : Answers parse R r resp) (hR : ∀ res, R res → R' res) : Answers parse R' r resp := by
  cases h with
  | report h => exact .report h
  | direct h => exact .direct h
  | hook h => exact .hook (h.mono hR)

/-! ### A session and its requests -/

namespace Session

/-- The results that the callback of the request `i` was called with. -/
def Told (es : List Event) (i : ℕ) (res : SchedulerResult) : Prop := Event.callback i res ∈ es

/-- After the events `es` of a session with the requests `rs`. -/
structure Matching (parse : String → Except ParseFault Json) (rs : List (HttpRequest × Call)) (es : List Event)
    (s : Session) :
    Prop where
  sent : s.sent = rs.drop s.delivered
  request : s.reading = false → ∃ i call, s.delivered = i + 1 ∧ rs[i]? = some (s.request, call)
  kept : ∀ i ∈ s.kept, ∃ r, rs[i]? = some r ∧ reply parse r.1 r.2 = .kept
  /-- As long as no callback has gone through, that of the last request is awaited, or none. -/
  waiting : s.responded = false → ∀ i ∈ s.kept, i + 1 = s.delivered ∧ s.reading = false ∧ s.posted = [] ∧ s.writing = []
  posted : ∀ p ∈ s.posted, s.posted = [p] ∧ s.writing = [] ∧ s.reading = false ∧ s.responded = true ∧
    p.origin + 1 = s.delivered ∧ ∃ r resp, rs[p.origin]? = some r ∧ Results parse (Told es p.origin) r resp ∧
      p = ⟨p.origin, (map_to_http resp.code).1, (map_to_http resp.code).2, resp.message⟩
  writing : ∀ w ∈ s.writing, s.writing = [w] ∧ s.posted = [] ∧ s.reading = false ∧
    ∃ r, rs[w.origin]? = some r ∧ Answers parse (Told es w.origin) r w.response
  written : ∀ w ∈ s.written, ∃ r, rs[w.origin]? = some r ∧ Answers parse (Told es w.origin) r w.response

theorem Matching.mono {es : List Event} (h : Matching parse rs past s) (hpast : past ⊆ es) :
    Matching parse rs es s := by
  have htold : ∀ i res, Told past i res → Told es i res := fun i res ht => hpast ht
  refine ⟨h.sent, h.request, h.kept, h.waiting, fun p hp => ?_, fun w hw => ?_, fun w hw => ?_⟩
  · obtain ⟨h₁, h₂, h₃, h₄, h₅, r, resp, hr, hres, heq⟩ := h.posted p hp
    exact ⟨h₁, h₂, h₃, h₄, h₅, r, resp, hr, hres.mono (htold p.origin), heq⟩
  · obtain ⟨h₁, h₂, h₃, r, hr, hans⟩ := h.writing w hw
    exact ⟨h₁, h₂, h₃, r, hr, hans.mono (htold w.origin)⟩
  · obtain ⟨r, hr, hans⟩ := h.written w hw
    exact ⟨r, hr, hans.mono (htold w.origin)⟩

theorem matching_start (parse : String → Except ParseFault Json) (rs : List (HttpRequest × Call)) :
    Matching parse rs [] (start rs) := by
  constructor
  · rfl
  · exact fun h => nomatch h
  · exact fun i hi => nomatch hi
  · exact fun _ i hi => nomatch hi
  · exact fun p hp => nomatch hp
  · exact fun w hw => nomatch hw
  · exact fun w hw => nomatch hw

/-! ### One event -/

theorem drop_eq_cons {α : Type} {rs rest : List α} {r : α} {n : ℕ} (h : rs.drop n = r :: rest) :
    rs[n]? = some r ∧ rest = rs.drop (n + 1) := by
  constructor
  · rw [← List.head?_drop, h, List.head?_cons]
  · rw [← List.tail_drop, h, List.tail_cons]

/-- A read, before it is handled. -/
theorem Matching.arrive (h : Matching parse rs past s) {r : HttpRequest} {call : Call}
    {sent : List (HttpRequest × Call)} (hsent : s.sent = (r, call) :: sent) (hreading : s.reading = true) :
    Matching parse rs past (s.deliver r sent) ∧ rs[s.delivered]? = some (r, call) ∧ s.posted = [] ∧ s.writing = [] ∧
      (s.responded = false → s.kept = []) := by
  obtain ⟨hr, hrest⟩ := drop_eq_cons (h.sent.symm.trans hsent)
  have hnot : s.reading = false → False := fun hf => Bool.false_ne_true (hf.symm.trans hreading)
  have hposted : s.posted = [] := List.eq_nil_iff_forall_not_mem.2 fun p hp => hnot (h.posted p hp).2.2.1
  have hwriting : s.writing = [] := List.eq_nil_iff_forall_not_mem.2 fun w hw => hnot (h.writing w hw).2.2.1
  have hkept : s.responded = false → s.kept = [] := fun hf =>
    List.eq_nil_iff_forall_not_mem.2 fun i hi => hnot (h.waiting hf i hi).2.1
  refine ⟨⟨hrest, fun _ => ⟨_, call, rfl, hr⟩, h.kept, fun hf i hi => ?_, fun p hp => ?_, fun w hw => ?_, h.written⟩,
    hr, hposted, hwriting, hkept⟩
  · rw [Session.deliver, hkept hf] at hi
    cases hi
  · rw [Session.deliver, hposted] at hp
    cases hp
  · rw [Session.deliver, hwriting] at hw
    cases hw

/-- The only write under way. -/
theorem Matching.async_write (h : Matching parse rs past s) {i : ℕ} {resp : HttpResponse} {r : HttpRequest × Call}
    (hposted : s.posted = []) (hwriting : s.writing = []) (hreading : s.reading = false)
    (hwait : s.responded = false → s.kept = []) (hr : rs[i]? = some r) (hans : Answers parse (Told past i) r resp) :
    Matching parse rs past (s.async_write i resp) := by
  refine ⟨h.sent, h.request, h.kept, fun hf j hj => ?_, fun p hp => ?_, fun w hw => ?_, h.written⟩
  · rw [Session.async_write, hwait hf] at hj
    cases hj
  · rw [Session.async_write, hposted] at hp
    cases hp
  · rw [Session.async_write, hwriting] at hw ⊢
    obtain rfl : w = ⟨i, resp⟩ := by simpa using hw
    exact ⟨rfl, hposted, hreading, r, hr, hans⟩

/-- A callback for the last request: the first one goes through. -/
theorem Matching.callback (h : Matching parse rs past s) {i : ℕ} {resp : ZlmHookResponse} {r : HttpRequest × Call}
    (hlast : s.responded = false → i + 1 = s.delivered ∧ s.reading = false ∧ s.posted = [] ∧ s.writing = [])
    (hr : rs[i]? = some r) (hres : Results parse (Told past i) r resp) :
    Matching parse rs past (s.callback i resp) := by
  unfold Session.callback
  split
  · exact h
  · rename_i hf
    obtain ⟨hi, hreading, hposted, hwriting⟩ := hlast (Bool.eq_false_iff.2 hf)
    refine ⟨h.sent, h.request, h.kept, fun hf' => absurd hf' (by simp), fun p hp => ?_, fun w hw => ?_, h.written⟩
    · dsimp only at hp ⊢
      rw [hposted, List.nil_append] at hp ⊢
      obtain rfl := List.mem_singleton.1 hp
      exact ⟨rfl, hwriting, hreading, rfl, hi, r, resp, hr, hres, rfl⟩
    · dsimp only at hw
      rw [hwriting] at hw
      cases hw

theorem Matching.read (h : Matching parse rs past s) {r : HttpRequest} {call : Call}
    {sent : List (HttpRequest × Call)} (hsent : s.sent = (r, call) :: sent) (hreading : s.reading = true) :
    Matching parse rs past (handle_request parse s.delivered call (s.deliver r sent)) := by
  obtain ⟨hd, hr, hposted, hwriting, hkept⟩ := h.arrive hsent hreading
  rw [handle_request_eq, show (s.deliver r sent).request = r from rfl]
  cases hreply : reply parse r call with
  | report body => exact hd.async_write hposted hwriting rfl hkept hr (.report hreply)
  | direct http_status business_code message => exact hd.async_write hposted hwriting rfl hkept hr (.direct hreply)
  | called resp => exact hd.callback (fun _ => ⟨rfl, rfl, hposted, hwriting⟩) hr (.called hreply)
  | kept =>
    refine ⟨hd.sent, hd.request, fun i hi => ?_, fun hf i hi => ?_, hd.posted, hd.writing, hd.written⟩
    · rcases List.mem_cons.1 hi with rfl | hi
      · exact ⟨_, hr, hreply⟩
      · exact hd.kept i hi
    · rcases List.mem_cons.1 hi with rfl | hi
      · exact ⟨rfl, rfl, hposted, hwriting⟩
      · rw [Session.deliver, hkept hf] at hi
        cases hi

/-- The strand sends what was posted: the session still holds its request. -/
theorem Matching.strand (h : Matching parse rs past s) {p : Posted} {posted : List Posted}
    (hposted : s.posted = p :: posted) :
    Matching parse rs past (send_response p.origin p.http_status p.business_code p.message
      { s with posted := posted }) := by
  obtain ⟨hone, hwriting, hreading, hresponded, hlast, r, resp, hr, hres, heq⟩ := h.posted p (by simp [hposted])
  obtain rfl : posted = [] := by simpa [hposted] using hone
  obtain ⟨i, call, hi, hcur⟩ := h.request hreading
  obtain rfl : i = p.origin := by omega
  obtain rfl : (s.request, call) = r := Option.some.inj (hcur.symm.trans hr)
  have hm : Matching parse rs past { s with posted := [] } := by
    refine ⟨h.sent, h.request, h.kept, fun hf => ?_, fun q hq => (nomatch hq), fun w hw => ?_, h.written⟩
    · exact absurd (hf.symm.trans hresponded) Bool.false_ne_true
    · rw [hwriting] at hw
      cases hw
  have hans : Answers parse (Told past p.origin) (s.request, call)
      ⟨s.request.version, p.http_status, s.request.keep_alive, .result p.business_code p.message⟩ := by
    rw [heq]
    exact .hook hres
  exact hm.async_write rfl hwriting hreading
    (fun hf => absurd (hf.symm.trans hresponded) Bool.false_ne_true) hr hans

theorem Matching.wrote (h : Matching parse rs past s) {w : Write} {writing : List Write}
    (hwriting : s.writing = w :: writing) :
    Matching parse rs past
      (on_write w.response.keep_alive { s with writing := writing, written := s.written ++ [w] }) := by
  obtain ⟨hone, hposted, hreading, hans⟩ := h.writing w (by simp [hwriting])
  obtain rfl : writing = [] := by simpa [hwriting] using hone
  have hkept : s.responded = false → s.kept = [] := fun hf =>
    List.eq_nil_iff_forall_not_mem.2 fun i hi => by
      have := (h.waiting hf i hi).2.2.2
      rw [hone] at this
      cases this
  have hwritten : ∀ v ∈ s.written ++ [w], ∃ r, rs[v.origin]? = some r ∧
    Answers parse (Told past v.origin) r v.response := by
    intro v hv
    rcases List.mem_append.1 hv with hv | hv
    · exact h.written v hv
    · rw [List.mem_singleton.1 hv]
      exact hans
  have hnone : ∀ p ∈ s.posted, False := by
    intro p hp
    rw [hposted] at hp
    cases hp
  unfold on_write
  split
  · exact ⟨h.sent, fun hf => (by cases hf), h.kept, fun hf i hi => by simp [do_read, hkept hf] at hi,
      fun p hp => (hnone p hp).elim, fun v hv => (by cases hv), hwritten⟩
  · exact ⟨h.sent, h.request, h.kept, fun hf i hi => by simp [hkept hf] at hi,
      fun p hp => (hnone p hp).elim, fun v hv => (by cases hv), hwritten⟩

theorem Matching.step {e : Event} (h : Matching parse rs past s) (hs : Session.step parse e s = some s') :
    Matching parse rs (past ++ [e]) s' := by
  have h' : Matching parse rs (past ++ [e]) s := h.mono (List.subset_append_left past [e])
  cases e with
  | read =>
    obtain ⟨r, call, sent, hsent, hreading, rfl⟩ := step_read.1 hs
    exact h'.read hsent hreading
  | callback i res =>
    obtain ⟨hi, rfl⟩ := step_callback.1 hs
    obtain ⟨r, hr, hkept⟩ := h.kept i hi
    have hm : Matching parse rs (past ++ [.callback i res]) { s with waiting := s.waiting.erase i } :=
      ⟨h'.sent, h'.request, h'.kept, h'.waiting, h'.posted, h'.writing, h'.written⟩
    exact hm.callback (fun hf => h.waiting hf i hi) hr (.kept hkept (by simp [Told]))
  | strand =>
    obtain ⟨p, posted, hp, rfl⟩ := step_strand.1 hs
    exact h'.strand hp
  | wrote =>
    obtain ⟨w, writing, hw, rfl⟩ := step_wrote.1 hs
    exact h'.wrote hw

theorem matching_of_run {es : List Event} (h : exec parse es (start rs) = some s) : Matching parse rs es s :=
  tries_history (I := fun es s => Matching parse rs es s) (fun _ _ _ _ hm hs => hm.step hs) h (matching_start parse rs)

end Session

/-! ### Publish and play hooks -/

section Gated

variable {r : HttpRequest} {call : Call}

/-- A publish or play hook. -/
def Gated (r : HttpRequest) : Prop :=
  r.method = .post ∧ (map_path_to_action r.path = .Publish ∨ map_path_to_action r.path = .Play)

theorem reply_of_gated (h : Gated r) : reply parse r call = replyHook parse r call := by
  have hget : r.method ≠ .get := by simp [h.1]
  have hknown : map_path_to_action r.path ≠ .Unknown := by rcases h.2 with h | h <;> simp [h]
  rw [reply, if_neg hget, if_neg (not_not.2 h.1), if_neg hknown]

/-- A publish or play hook that is in the right format is submitted. -/
theorem routeHook_of_gated (h : Gated r) {hook : ZlmHookRequest} (hhook : hookOf parse r = some hook) :
    routeHook hook call = submitRequest hook call := by
  obtain ⟨hook', -, rfl⟩ := Option.map_eq_some_iff.1 hhook
  rcases h.2 with h | h <;> simp only [routeHook, h]

/-- The fields that the scheduler asks for are there. -/
structure ZlmHookRequest.Complete (hook : ZlmHookRequest) : Prop where
  stream_key : hook.stream_key ≠ ""
  client_id : hook.client_id ≠ ""
  token : hook.get_token ≠ ""

/-- The responses that a hook may be given before it comes to the scheduler. -/
def hookErrors : List (ℕ × ℕ × String) :=
  [(400, 2, "Protocol format error"), (400, 2, "Invalid hook format"), (200, 4, "Internal service error")]

/-- What a publish or play hook comes to. -/
theorem replyHook_cases (h : Gated r) :
    (∃ status code message, replyHook parse r call = .direct status code message ∧
      (status, code, message) ∈ hookErrors) ∨
    replyHook parse r call = .called (HookDecision.deny "参数缺失").to_response ∨
    (replyHook parse r call = .kept ∧ ∃ hook, hookOf parse r = some hook ∧ hook.Complete) := by
  unfold replyHook
  cases parse r.body with
  | error e => exact .inl ⟨_, _, _, rfl, by simp [hookErrors]⟩
  | ok j =>
    dsimp only
    cases hhook : hookOf parse r with
    | none => exact .inl ⟨_, _, _, rfl, by simp [hookErrors]⟩
    | some hook =>
      dsimp only
      rw [routeHook_of_gated h hhook]
      unfold submitRequest
      by_cases hv : validateRequest
          { stream_name := hook.stream_key, client_id := hook.client_id, auth_token := hook.get_token } = true
      · simp only [hv, not_true_eq_false, if_false]
        cases call with
        | throws e =>
          cases e with
          | json => exact .inl ⟨_, _, _, rfl, by simp [hookErrors]⟩
          | std => exact .inl ⟨_, _, _, rfl, by simp [hookErrors]⟩
        | returns =>
          have hnames : (hook.stream_key ≠ "" ∧ hook.client_id ≠ "") ∧ hook.get_token ≠ "" := by
            simpa [validateRequest] using hv
          exact .inr (.inr ⟨rfl, hook, rfl, ⟨hnames.1.1, hnames.1.2, hnames.2⟩⟩)
      · simp only [hv]
        exact .inr (.inl rfl)

/-- The messages of the results that are no success. -/
def refusals : List String := ["参数缺失", "鉴权拒绝", "该流已在推送中", "找不到活跃推流端", "状态注册失败"]

/-- None of them is about authentication. -/
theorem deny_of_mem {message : String} (h : message ∈ refusals) :
    (HookDecision.deny message).to_response = ⟨.INTERNAL_ERROR, message⟩ := by
  have hnone : ∀ m ∈ refusals, ¬ ("auth".toList <:+: m.toList ∨ "Identity".toList <:+: m.toList ∨
      "not found".toList <:+: m.toList) := by
    decide +kernel
  exact if_neg (hnone message h)

/-- A result and its message. -/
def Known (res : SchedulerResult) : Prop := res.error = .SUCCESS ∨ res.message ∈ refusals

/-- The response that is made from such a result. -/
theorem response_of_known {res : SchedulerResult} (h : Known res) :
    (res.error = .SUCCESS ∧ (mapResult res).to_response = ⟨.SUCCESS, "success"⟩) ∨
      (res.error ≠ .SUCCESS ∧ res.message ∈ refusals ∧
        (mapResult res).to_response = ⟨.INTERNAL_ERROR, res.message⟩) := by
  by_cases hok : res.error = .SUCCESS
  · rw [mapResult, if_pos hok]
    exact .inl ⟨hok, rfl⟩
  · have hmem := h.resolve_left hok
    rw [mapResult, if_neg hok]
    exact .inr ⟨hok, hmem, deny_of_mem hmem⟩

/-- **What the client of a publish or play hook is told**: that it is granted, if its task has ended so, that the hook
is not in the right format, or that there was an internal error.  The code for a refused authentication is not used. -/
structure Outcomes (parse : String → Except ParseFault Json) (R : SchedulerResult → Prop) (r : HttpRequest)
    (resp : HttpResponse) :
    Prop where
  told : (resp.status = 200 ∧ resp.body = .result 0 "success" ∧ (∃ res, R res ∧ res.error = .SUCCESS) ∧
      ∃ hook, hookOf parse r = some hook ∧ hook.Complete) ∨
    (∃ status code message, (status, code, message) ∈ hookErrors ∧ resp.status = status ∧
      resp.body = .result code message) ∨
    (resp.status = 200 ∧ ∃ message ∈ refusals, resp.body = .result 4 message)

theorem outcomes_of_gated (h : Gated r) {R : SchedulerResult → Prop}
    (hR : ∀ hook res, hookOf parse r = some hook → R res → Known res)
    {resp : HttpResponse} (hans : Answers parse R (r, call) resp) : Outcomes parse R r resp := by
  have hreply := @reply_of_gated parse r call h
  cases hans with
  | report hr =>
    rw [hreply] at hr
    obtain ⟨_, _, _, he, -⟩ | he | ⟨he, -⟩ := @replyHook_cases parse r call h <;>
      cases he.symm.trans hr
  | direct hr =>
    rw [hreply] at hr
    obtain ⟨status, code, message, he, hmem⟩ | he | ⟨he, -⟩ := @replyHook_cases parse r call h
    · obtain ⟨rfl, rfl, rfl⟩ := Reply.direct.inj (he.symm.trans hr)
      exact ⟨.inr (.inl ⟨_, _, _, hmem, rfl, rfl⟩)⟩
    · cases he.symm.trans hr
    · cases he.symm.trans hr
  | hook hr =>
    cases hr with
    | called hr =>
      rw [hreply] at hr
      obtain ⟨_, _, _, he, -⟩ | he | ⟨he, -⟩ := @replyHook_cases parse r call h
      · cases he.symm.trans hr
      · obtain rfl := Reply.called.inj (he.symm.trans hr)
        have hmem : "参数缺失" ∈ refusals := List.mem_cons_self
        rw [deny_of_mem hmem]
        exact ⟨.inr (.inr ⟨rfl, _, hmem, rfl⟩)⟩
      · cases he.symm.trans hr
    | @kept res hr hres =>
      rw [hreply] at hr
      obtain ⟨_, _, _, he, -⟩ | he | ⟨-, hook, hhook, hcomplete⟩ := @replyHook_cases parse r call h
      · cases he.symm.trans hr
      · cases he.symm.trans hr
      · rcases response_of_known (hR hook res hhook hres) with ⟨hok, he⟩ | ⟨-, hmem, he⟩
        · rw [he]
          exact ⟨.inl ⟨rfl, rfl, ⟨res, hres, hok⟩, hook, hhook, hcomplete⟩⟩
        · rw [he]
          exact ⟨.inr (.inr ⟨rfl, _, hmem, rfl⟩)⟩

end Gated

end StreamGate.Hook
