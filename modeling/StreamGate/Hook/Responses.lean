import StreamGate.Hook.Session

/-!
# One response for each request

What one handling of a request does (`handle_request_direct`, `handle_request_hook`), the stages
that a request goes through, and when a session answers every request once: as long as at most one
request of the connection comes to a callback (`inv_of_run`).  The second one finds `_responded` set,
its callback is dropped, and its request stays without a response (`exists_not_oneEach`).
-/

namespace StreamGate.Hook

open StreamGate.Lib StreamGate.Scheduler

variable {parse : String → Except ParseFault Json}

/-! ### One request -/

namespace Session

/-- A request that comes to no callback is answered at once. -/
theorem handle_request_direct (s : Session) (i : ℕ) (call : Call)
    (h : callsBack parse (s.request, call) = false) :
    ∃ resp, resp.keep_alive = s.request.keep_alive ∧
      handle_request parse i call s = s.async_write i resp := by
  unfold handle_request
  dsimp only
  split_ifs with hget hmetrics hhealth hpost hunknown
  · exact ⟨_, rfl, rfl⟩
  · exact ⟨_, rfl, rfl⟩
  · exact ⟨_, rfl, rfl⟩
  · exact ⟨_, rfl, rfl⟩
  · exact ⟨_, rfl, rfl⟩
  · unfold handle_hook
    split
    · exact ⟨_, rfl, rfl⟩
    · rename_i j hj
      split
      · exact ⟨_, rfl, rfl⟩
      · rename_i hook hhook
        split
        · exact ⟨_, rfl, rfl⟩
        · exact ⟨_, rfl, rfl⟩
        all_goals simp_all [callsBack, Except.toOption]

/-- A request that comes to a callback: it has been called, or the thread pool has it. -/
theorem handle_request_hook (s : Session) (i : ℕ) (call : Call)
    (h : callsBack parse (s.request, call) = true) :
    (∃ resp, handle_request parse i call s = s.callback i resp) ∨
      handle_request parse i call s = s.keep_callback i := by
  simp only [callsBack, Bool.and_eq_true, decide_eq_true_eq] at h
  obtain ⟨⟨hpost, hact⟩, h⟩ := h
  unfold handle_request
  simp only [hpost, hact, if_false, ne_eq, not_true_eq_false]
  unfold handle_hook
  cases hj : parse s.request.body with
  | error e => simp [hj, Except.toOption] at h
  | ok j =>
    cases hh : ZlmHookRequest.from_json parse j with
    | none => simp [hj, hh, Except.toOption] at h
    | some hook =>
      simp only [hj, hh, Except.toOption, Option.bind_some] at h ⊢
      cases hr : routeHook { hook with action := map_path_to_action s.request.path } call with
      | threw e => simp [hr] at h
      | called resp => exact .inl ⟨resp, rfl⟩
      | kept => exact .inr rfl

end Session

/-- How many of the requests that are served come to a callback. -/
def callsLeft (parse : String → Except ParseFault Json) (rs : List (HttpRequest × Call)) : ℕ :=
  (served rs).countP (callsBack parse)

theorem callsLeft_cons {r : HttpRequest × Call} {rs : List (HttpRequest × Call)} :
    callsLeft parse (r :: rs) =
      (if r.1.keep_alive then callsLeft parse rs else 0) + (callsBack parse r).toNat := by
  cases hk : r.1.keep_alive <;> cases hc : callsBack parse r <;> simp [callsLeft, served, hk, hc]

/-! ### Stages -/

namespace Session

/-- Where a session is with its requests.  As long as it reads on, the requests that come to a
callback, those that have and those that will, are at most one. -/
inductive Stage (parse : String → Except ParseFault Json) (s : Session) : Prop
  /-- Every request that was read has its response. -/
  | idle (hpending : s.pending = []) (hdelivered : s.delivered = s.written.length)
      (hleft : s.reading = true → callsLeft parse s.sent + s.responded.toNat ≤ 1)
  /-- The callback of the last request is with the thread pool. -/
  | waiting (hwaiting : s.waiting = [s.written.length]) (hposted : s.posted = [])
      (hwriting : s.writing = []) (hreading : s.reading = false)
      (hdelivered : s.delivered = s.written.length + 1) (hresponded : s.responded = false)
      (hleft : s.request.keep_alive = true → callsLeft parse s.sent = 0)
  /-- It has been called and its response is on the strand. -/
  | posted (p : Posted) (hposted : s.posted = [p]) (horigin : p.origin = s.written.length)
      (hwaiting : s.waiting = []) (hwriting : s.writing = []) (hreading : s.reading = false)
      (hdelivered : s.delivered = s.written.length + 1) (hresponded : s.responded = true)
      (hleft : s.request.keep_alive = true → callsLeft parse s.sent = 0)
  /-- The response to the last request is being written. -/
  | writing (w : Write) (hwriting : s.writing = [w]) (horigin : w.origin = s.written.length)
      (hkeep : w.response.keep_alive = s.request.keep_alive) (hwaiting : s.waiting = [])
      (hposted : s.posted = []) (hreading : s.reading = false)
      (hdelivered : s.delivered = s.written.length + 1)
      (hleft : s.request.keep_alive = true → callsLeft parse s.sent + s.responded.toNat ≤ 1)

/-- The invariant of sessions on whose connection at most one request comes to a callback. -/
structure Inv (parse : String → Except ParseFault Json) (s : Session) : Prop where
  order : s.written.map Write.origin = List.range s.written.length
  /-- A callback that has been called has set the flag. -/
  called : ∀ i ∈ s.kept, i ∈ s.waiting ∨ s.responded = true
  stage : Stage parse s

theorem pending_eq_nil {s : Session} :
    s.pending = [] ↔ s.waiting = [] ∧ s.posted = [] ∧ s.writing = [] := by
  simp [pending]

theorem Inv.oneEach {s : Session} (h : Inv parse s) : OneEach s := by
  refine ⟨h.order, fun i hi hpend => ?_⟩
  -- the only request without a response is the one under way
  suffices i < s.written.length by
    rw [h.order]
    exact List.mem_range.2 this
  cases h.stage with
  | idle _ hd _ => omega
  | waiting hw _ _ _ hd _ _ =>
    have : i ≠ s.written.length := fun e => hpend (by simp [pending, hw, e])
    omega
  | posted p hp ho _ _ _ hd _ _ =>
    have : i ≠ s.written.length := fun e => hpend (by simp [pending, hp, ho, e])
    omega
  | writing w hw ho _ _ _ _ hd _ =>
    have : i ≠ s.written.length := fun e => hpend (by simp [pending, hw, ho, e])
    omega

theorem inv_start {rs : List (HttpRequest × Call)} (h : callsLeft parse rs ≤ 1) :
    Inv parse (start rs) :=
  ⟨rfl, fun _ hi => (nomatch hi), .idle rfl rfl fun _ => h⟩

/-! ### One event -/

theorem step_read {s s' : Session} : step parse .read s = some s' ↔
    ∃ r call sent, s.sent = (r, call) :: sent ∧ s.reading = true ∧
      handle_request parse s.delivered call (s.deliver r sent) = s' := by
  cases hs : s.sent with
  | nil => simp [step, hs]
  | cons rc sent =>
    obtain ⟨r, call⟩ := rc
    cases hr : s.reading <;> simp [step, hs, hr]

theorem step_callback {s s' : Session} {i : ℕ} {res : SchedulerResult} :
    step parse (.callback i res) s = some s' ↔
      i ∈ s.kept ∧ callback i (mapResult res).to_response { s with waiting := s.waiting.erase i } = s' := by
  by_cases hi : i ∈ s.kept <;> simp [step, hi]

theorem step_strand {s s' : Session} : step parse .strand s = some s' ↔
    ∃ p posted, s.posted = p :: posted ∧
      send_response p.origin p.http_status p.business_code p.message { s with posted := posted } = s' := by
  cases hp : s.posted <;> simp [step, hp]

theorem step_wrote {s s' : Session} : step parse .wrote s = some s' ↔
    ∃ w writing, s.writing = w :: writing ∧
      on_write w.response.keep_alive { s with writing := writing, written := s.written ++ [w] } = s' := by
  cases hw : s.writing <;> simp [step, hw]

/-- The first callback goes through. -/
theorem callback_first {s : Session} {i : ℕ} {resp : ZlmHookResponse} (h : s.responded = false) :
    s.callback i resp = { s with
      responded := true
      posted := s.posted ++ [⟨i, (map_to_http resp.code).1, (map_to_http resp.code).2, resp.message⟩] } := by
  simp [callback, h]

/-- Every later one is dropped. -/
theorem callback_later {s : Session} {i : ℕ} {resp : ZlmHookResponse} (h : s.responded = true) :
    s.callback i resp = s := by
  simp [callback, h]

/-- What a callback leaves as it is. -/
theorem callback_frame (i : ℕ) (resp : ZlmHookResponse) (s : Session) :
    (s.callback i resp).reading = s.reading ∧ (s.callback i resp).writing = s.writing ∧
      (s.callback i resp).written = s.written ∧ (s.callback i resp).delivered = s.delivered ∧
      (s.callback i resp).waiting = s.waiting ∧ s.posted.length ≤ (s.callback i resp).posted.length := by
  cases hr : s.responded with
  | true =>
    rw [callback_later hr]
    exact ⟨rfl, rfl, rfl, rfl, rfl, le_rfl⟩
  | false =>
    rw [callback_first hr]
    refine ⟨rfl, rfl, rfl, rfl, rfl, ?_⟩
    rw [List.length_append]
    exact Nat.le_add_right _ _

theorem inv_read {s : Session} {r : HttpRequest} {call : Call} {sent : List (HttpRequest × Call)}
    (h : Inv parse s) (hsent : s.sent = (r, call) :: sent) (hreading : s.reading = true) :
    Inv parse (handle_request parse s.delivered call (s.deliver r sent)) := by
  obtain ⟨hpend, hd, hleft⟩ : s.pending = [] ∧ s.delivered = s.written.length ∧
      callsLeft parse s.sent + s.responded.toNat ≤ 1 := by
    cases h.stage with
    | idle hp hd hl => exact ⟨hp, hd, hl hreading⟩
    | waiting _ _ _ hr => simp [hr] at hreading
    | posted _ _ _ _ _ hr => simp [hr] at hreading
    | writing _ _ _ _ _ _ hr => simp [hr] at hreading
  obtain ⟨hw, hp, hwr⟩ := pending_eq_nil.1 hpend
  rw [hsent, callsLeft_cons] at hleft
  cases hcall : callsBack parse (r, call) with
  | false =>
    obtain ⟨resp, hk, he⟩ := handle_request_direct (s.deliver r sent) s.delivered call hcall
    have hleft' : r.keep_alive = true → callsLeft parse sent + s.responded.toNat ≤ 1 := by
      intro hkeep
      simpa [hcall, hkeep] using hleft
    have hwriting : ((s.deliver r sent).async_write s.delivered resp).writing = [⟨s.delivered, resp⟩] := by
      simp [async_write, deliver, hwr]
    rw [he]
    exact ⟨h.order, h.called,
      .writing _ hwriting hd hk hw hp rfl (congrArg (· + 1) hd) hleft'⟩
  | true =>
    have hf : s.responded = false := by
      cases hf : s.responded with
      | false => rfl
      | true =>
        rw [hcall, hf] at hleft
        simp at hleft
    have hleft' : r.keep_alive = true → callsLeft parse sent = 0 := by
      intro hkeep
      simpa [hcall, hkeep, hf] using hleft
    rcases handle_request_hook (s.deliver r sent) s.delivered call hcall with ⟨resp, he⟩ | he
    · rw [he, callback_first (show (s.deliver r sent).responded = false from hf)]
      exact ⟨h.order, fun _ _ => .inr rfl,
        .posted _ (by simp [deliver, hp]; rfl) hd hw hwr rfl (congrArg (· + 1) hd) rfl hleft'⟩
    · rw [he]
      have hwaiting : ((s.deliver r sent).keep_callback s.delivered).waiting = [s.written.length] := by
        simp [keep_callback, deliver, hw, hd]
      refine ⟨h.order, ?_, .waiting hwaiting hp hwr rfl (congrArg (· + 1) hd) hf hleft'⟩
      intro i hi
      rcases List.mem_cons.1 hi with rfl | hi
      · exact .inl (List.mem_cons_self ..)
      · exact (h.called i hi).imp (List.mem_cons_of_mem _) id

theorem inv_callback {s : Session} {i : ℕ} {resp : ZlmHookResponse} (h : Inv parse s)
    (hi : i ∈ s.kept) : Inv parse (callback i resp { s with waiting := s.waiting.erase i }) := by
  -- unless the callback is the one that is awaited, it has been called before
  have hlater : s.waiting = [] → Inv parse (callback i resp { s with waiting := s.waiting.erase i }) := by
    intro hw
    have hf : s.responded = true := (h.called i hi).resolve_left (by simp [hw])
    have hsame : { s with waiting := s.waiting.erase i } = s := by rw [hw]; cases s; simp_all
    rw [hsame, callback_later hf]
    exact h
  cases h.stage with
  | idle hp _ _ => exact hlater (pending_eq_nil.1 hp).1
  | posted _ _ _ hw => exact hlater hw
  | writing _ _ _ _ hw => exact hlater hw
  | waiting hw hp hwr hr hd hf hleft =>
    have hin : i ∈ s.waiting := (h.called i hi).resolve_right (by simp [hf])
    obtain rfl : i = s.written.length := by simpa [hw] using hin
    have hw' : s.waiting.erase s.written.length = [] := by simp [hw]
    rw [callback_first (by exact hf)]
    exact ⟨h.order, fun _ _ => .inr rfl,
      .posted _ (by simp [hp]; rfl) rfl hw' hwr hr hd rfl hleft⟩

theorem inv_strand {s : Session} {p : Posted} {posted : List Posted} (h : Inv parse s)
    (hposted : s.posted = p :: posted) :
    Inv parse (send_response p.origin p.http_status p.business_code p.message
      { s with posted := posted }) := by
  cases h.stage with
  | idle hp _ _ => simp [(pending_eq_nil.1 hp).2.1] at hposted
  | waiting _ hp => simp [hp] at hposted
  | writing _ _ _ _ _ hp => simp [hp] at hposted
  | posted q hq ho hw hwr hr hd hf hleft =>
    obtain ⟨rfl, rfl⟩ : q = p ∧ [] = posted := by simpa [hq] using hposted
    refine ⟨h.order, h.called, .writing _ (by simp [send_response, async_write, hwr]; rfl) ho rfl hw rfl hr hd ?_⟩
    intro hkeep
    have : callsLeft parse s.sent = 0 := hleft hkeep
    simp [send_response, async_write, this, hf]

theorem inv_wrote {s : Session} {w : Write} {writing : List Write} (h : Inv parse s)
    (hwriting : s.writing = w :: writing) :
    Inv parse (on_write w.response.keep_alive
      { s with writing := writing, written := s.written ++ [w] }) := by
  cases h.stage with
  | idle hp _ _ => simp [(pending_eq_nil.1 hp).2.2] at hwriting
  | waiting _ _ hwr => simp [hwr] at hwriting
  | posted _ _ _ _ hwr => simp [hwr] at hwriting
  | writing v hv ho hk hw hp hr hd hleft =>
    obtain ⟨rfl, rfl⟩ : v = w ∧ [] = writing := by simpa [hv] using hwriting
    have horder : (s.written ++ [v]).map Write.origin = List.range (s.written ++ [v]).length := by
      simp [h.order, ho, List.range_succ]
    have hd' : s.delivered = (s.written ++ [v]).length := by simp [hd]
    cases hkeep : v.response.keep_alive with
    | false => exact ⟨horder, h.called, .idle (pending_eq_nil.2 ⟨hw, hp, rfl⟩) hd' fun hr' => by simp_all [on_write]⟩
    | true => exact ⟨horder, h.called, .idle (pending_eq_nil.2 ⟨hw, hp, rfl⟩) hd' fun _ => hleft (hk ▸ hkeep)⟩

/-- Every event keeps the invariant. -/
theorem inv_step {s s' : Session} {e : Event} (h : Inv parse s) (hs : step parse e s = some s') :
    Inv parse s' := by
  cases e with
  | read =>
    obtain ⟨r, call, sent, hsent, hreading, rfl⟩ := step_read.1 hs
    exact inv_read h hsent hreading
  | callback i res =>
    obtain ⟨hi, rfl⟩ := step_callback.1 hs
    exact inv_callback h hi
  | strand =>
    obtain ⟨p, posted, hp, rfl⟩ := step_strand.1 hs
    exact inv_strand h hp
  | wrote =>
    obtain ⟨w, writing, hw, rfl⟩ := step_wrote.1 hs
    exact inv_wrote h hw

/-! ### The second callback -/

/-- A session that has answered every request and waits for the next, with `rs` to come. -/
structure Between (s : Session) (rs : List (HttpRequest × Call)) (responded : Bool) : Prop where
  sent : s.sent = rs
  reading : s.reading = true
  responded : s.responded = responded
  pending : s.pending = []
  order : s.written.map Write.origin = List.range s.written.length
  delivered : s.delivered = s.written.length

/-- A read, and nothing else under way. -/
theorem Between.read {s : Session} {r : HttpRequest × Call} {rs : List (HttpRequest × Call)} {b : Bool}
    (h : Between s (r :: rs) b) :
    step parse .read s = some (handle_request parse s.delivered r.2 (s.deliver r.1 rs)) :=
  step_read.2 ⟨r.1, r.2, rs, h.sent, h.reading, rfl⟩

/-- The thread pool has the callback `i` and has called it. -/
def called_back (i : ℕ) (s : Session) : Session := { s with kept := i :: s.kept }

/-- A callback that is called as soon as the thread pool has it. -/
theorem step_keep_callback {s : Session} {i : ℕ} {res : SchedulerResult} :
    step parse (.callback i res) (s.keep_callback i) =
      some ((s.called_back i).callback i (mapResult res).to_response) := by
  simp [step, keep_callback, called_back]

variable (parse) in
/-- The end of the last write on a connection that is kept. -/
theorem between_of_writing {s : Session} {w : Write} (hwriting : s.writing = [w])
    (horigin : w.origin = s.written.length) (hkeep : w.response.keep_alive = true)
    (hwaiting : s.waiting = []) (hposted : s.posted = []) (hdelivered : s.delivered = s.written.length + 1)
    (horder : s.written.map Write.origin = List.range s.written.length) :
    ∃ s', step parse .wrote s = some s' ∧ Between s' s.sent s.responded := by
  refine ⟨_, step_wrote.2 ⟨w, [], hwriting, rfl⟩, ?_⟩
  rw [hkeep]
  refine ⟨rfl, rfl, rfl, pending_eq_nil.2 ⟨hwaiting, hposted, rfl⟩, ?_, ?_⟩
  · simp [on_write, do_read, horder, horigin, List.range_succ]
  · simp [on_write, do_read, hdelivered]

theorem Between.direct {s : Session} {r : HttpRequest × Call} {rs : List (HttpRequest × Call)} {b : Bool}
    (h : Between s (r :: rs) b) (hcall : callsBack parse r = false) (hkeep : r.1.keep_alive = true) :
    ∃ es s', exec parse es s = some s' ∧ Between s' rs b := by
  obtain ⟨hw, hp, hwr⟩ := pending_eq_nil.1 h.pending
  obtain ⟨resp, hk, he⟩ := handle_request_direct (s.deliver r.1 rs) s.delivered r.2 hcall
  obtain ⟨s', hs', hb⟩ := between_of_writing parse
    (s := (s.deliver r.1 rs).async_write s.delivered resp) (w := ⟨s.delivered, resp⟩)
    (by simp [async_write, deliver, hwr]) h.delivered (hk.trans hkeep) hw hp
    (congrArg (· + 1) h.delivered) h.order
  refine ⟨[.read, .wrote], s', ?_, h.responded ▸ hb⟩
  exact tries_cons_eq_some.2 ⟨_, h.read, tries_cons_eq_some.2 ⟨s', he ▸ hs', rfl⟩⟩

variable (parse) in
/-- Once the callback of the last request is called, its response is on the way. -/
theorem between_of_callback {s : Session} (resp : ZlmHookResponse) (hf : s.responded = false)
    (hpending : s.pending = []) (hkeep : s.request.keep_alive = true)
    (hdelivered : s.delivered = s.written.length + 1)
    (horder : s.written.map Write.origin = List.range s.written.length) :
    ∃ s', exec parse [.strand, .wrote] (s.callback s.written.length resp) = some s' ∧
      Between s' s.sent true := by
  obtain ⟨hw, hp, hwr⟩ := pending_eq_nil.1 hpending
  obtain ⟨s', hs', hb⟩ := between_of_writing parse
    (s := send_response s.written.length (map_to_http resp.code).1 (map_to_http resp.code).2 resp.message
      { s with responded := true, posted := [] })
    (by simp [send_response, async_write, hwr]; rfl) rfl hkeep hw rfl hdelivered horder
  refine ⟨s', ?_, hb⟩
  rw [callback_first hf, hp]
  exact tries_cons_eq_some.2 ⟨_, step_strand.2 ⟨_, [], rfl, rfl⟩,
    tries_cons_eq_some.2 ⟨s', hs', rfl⟩⟩

/-- The first request that comes to a callback is answered if its callback is called. -/
theorem Between.hook {s : Session} {r : HttpRequest × Call} {rs : List (HttpRequest × Call)}
    (h : Between s (r :: rs) false) (hcall : callsBack parse r = true) (hkeep : r.1.keep_alive = true) :
    ∃ es s', exec parse es s = some s' ∧ Between s' rs true := by
  obtain ⟨hw, hp, hwr⟩ := pending_eq_nil.1 h.pending
  have hd : (s.deliver r.1 rs).delivered = (s.deliver r.1 rs).written.length + 1 :=
    congrArg (· + 1) h.delivered
  rcases handle_request_hook (s.deliver r.1 rs) s.delivered r.2 hcall with ⟨resp, he⟩ | he
  · obtain ⟨s', hs', hb⟩ := between_of_callback parse (s := s.deliver r.1 rs) resp h.responded h.pending
      hkeep hd h.order
    refine ⟨[.read, .strand, .wrote], s', tries_cons_eq_some.2 ⟨_, h.read, ?_⟩, hb⟩
    rw [he, h.delivered]
    exact hs'
  · obtain ⟨s', hs', hb⟩ := between_of_callback parse (s := (s.deliver r.1 rs).called_back s.delivered)
      (mapResult {}).to_response h.responded h.pending hkeep hd h.order
    refine ⟨[.read, .callback s.delivered {}, .strand, .wrote], s', ?_, hb⟩
    refine tries_cons_eq_some.2 ⟨_, h.read, tries_cons_eq_some.2 ⟨_, ?_, hs'⟩⟩
    rw [he, step_keep_callback, h.delivered]
    rfl

/-- A request that has been read and handled and has no response. -/
theorem not_oneEach {s : Session} (hpending : s.pending = [])
    (hdelivered : s.delivered = s.written.length + 1)
    (horder : s.written.map Write.origin = List.range s.written.length) : ¬ OneEach s := by
  intro h
  have hin := h.answered s.written.length (by omega) (by simp [hpending])
  simp [horder] at hin

/-- The callback of a later one is dropped, whenever it is called. -/
theorem Between.dropped {s : Session} {r : HttpRequest × Call} {rs : List (HttpRequest × Call)}
    (h : Between s (r :: rs) true) (hcall : callsBack parse r = true) :
    ∃ es s', exec parse es s = some s' ∧ ¬ OneEach s' := by
  have hd : (s.deliver r.1 rs).delivered = (s.deliver r.1 rs).written.length + 1 :=
    congrArg (· + 1) h.delivered
  rcases handle_request_hook (s.deliver r.1 rs) s.delivered r.2 hcall with ⟨resp, he⟩ | he
  · refine ⟨[.read], _, tries_cons_eq_some.2 ⟨_, h.read, rfl⟩, ?_⟩
    rw [he, callback_later (by exact h.responded)]
    exact not_oneEach h.pending hd h.order
  · refine ⟨[.read, .callback s.delivered {}], _, tries_cons_eq_some.2 ⟨_, h.read,
      tries_cons_eq_some.2 ⟨_, by rw [he, step_keep_callback], rfl⟩⟩, ?_⟩
    rw [callback_later (by exact h.responded)]
    exact not_oneEach h.pending hd h.order

/-- A second callback leaves its request without a response. -/
theorem Between.breaks {s : Session} {rs : List (HttpRequest × Call)} {b : Bool} (h : Between s rs b)
    (hleft : 1 < callsLeft parse rs + b.toNat) : ∃ es s', exec parse es s = some s' ∧ ¬ OneEach s' := by
  induction rs generalizing s b with
  | nil =>
    have : b.toNat ≤ 1 := b.toNat_le
    simp [callsLeft, served] at hleft
    omega
  | cons r rs ih =>
    have hb : b.toNat ≤ 1 := b.toNat_le
    rw [callsLeft_cons] at hleft
    -- a run of the first request, then one of the rest
    have hrest : ∀ {b'}, 1 < callsLeft parse rs + b'.toNat →
        (∃ es s', exec parse es s = some s' ∧ Between s' rs b') →
        ∃ es s', exec parse es s = some s' ∧ ¬ OneEach s' := by
      rintro b' hleft' ⟨es, s', hes, hs'⟩
      obtain ⟨fs, t, hfs, ht⟩ := ih hs' hleft'
      exact ⟨es ++ fs, t, tries_append_eq_some.2 ⟨s', hes, hfs⟩, ht⟩
    cases hcall : callsBack parse r with
    | false =>
      have hkeep : r.1.keep_alive = true := by
        by_contra hk
        simp [hcall, hk] at hleft
        omega
      refine hrest ?_ (h.direct hcall hkeep)
      simpa [hcall, hkeep] using hleft
    | true =>
      cases b with
      | true => exact h.dropped hcall
      | false =>
        have hkeep : r.1.keep_alive = true := by
          by_contra hk
          simp [hcall, hk] at hleft
        refine hrest ?_ (h.hook hcall hkeep)
        simpa [hcall, hkeep] using hleft

/-- A session comes to every request that it serves, if at most one of them comes to a callback. -/
theorem Between.goes {s : Session} {rs : List (HttpRequest × Call)} {b : Bool} {n : ℕ} (h : Between s rs b)
    (hleft : callsLeft parse rs + b.toNat ≤ 1) (hn : n < (served rs).length) :
    ∃ es s' b', exec parse es s = some s' ∧ Between s' (rs.drop n) b' := by
  induction n generalizing s rs b with
  | zero => exact ⟨[], s, b, rfl, h⟩
  | succ n ih =>
    cases rs with
    | nil => cases hn
    | cons r rs =>
      cases hkeep : r.1.keep_alive with
      | false => simp [served, hkeep] at hn
      | true =>
        have hn' : n < (served rs).length := by simpa [served, hkeep] using hn
        rw [callsLeft_cons, hkeep, if_pos rfl] at hleft
        -- a run of the first request, then one of the rest
        have hrest : ∀ {b'}, callsLeft parse rs + b'.toNat ≤ 1 →
            (∃ es s', exec parse es s = some s' ∧ Between s' rs b') →
            ∃ es s' b', exec parse es s = some s' ∧ Between s' (rs.drop n) b' := by
          rintro b' hleft' ⟨es, s', hes, hs'⟩
          obtain ⟨fs, t, b'', hfs, ht⟩ := ih hs' hleft' hn'
          exact ⟨es ++ fs, t, b'', tries_append_eq_some.2 ⟨s', hes, hfs⟩, ht⟩
        cases hcall : callsBack parse r with
        | false => exact hrest (by simpa [hcall] using hleft) (h.direct hcall hkeep)
        | true =>
          cases b with
          | true => simp [hcall] at hleft
          | false => exact hrest (by simpa [hcall] using hleft) (h.hook hcall hkeep)

/-! ### Runs -/

theorem inv_of_run {rs : List (HttpRequest × Call)} {es : List Event} {s : Session}
    (h : exec parse es (start rs) = some s) (hleft : (served rs).countP (callsBack parse) ≤ 1) : Inv parse s :=
  tries_inv (fun _ _ _ => inv_step) h (inv_start hleft)

theorem between_start (rs : List (HttpRequest × Call)) : Between (start rs) rs false :=
  ⟨rfl, rfl, rfl, rfl, rfl, rfl⟩

/-- Where two requests come to a callback there is a run that leaves the second one without a response. -/
theorem exists_not_oneEach {rs : List (HttpRequest × Call)} (hleft : 1 < (served rs).countP (callsBack parse)) :
    ∃ es s, exec parse es (start rs) = some s ∧ ¬ OneEach s :=
  (between_start rs).breaks hleft

/-- A hook that a client sends when a player leaves. -/
def playDone : HttpRequest := { method := .post, target := "/index/hook/on_play_done", body := "{}" }

end Session

end StreamGate.Hook
