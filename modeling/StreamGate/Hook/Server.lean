import StreamGate.Hook.Matching

/-!
# The server

`HookServer` with its listener, its sessions and the threads that run the `io_context`.  `HookServer::stop` closes the
acceptor, gives up the work guard and joins the threads; it neither closes a session nor stops the `io_context`.  So
the threads leave when no operation is under way any more: `stop` drains the connections (`server_drained`), and waits
for every client that keeps one open (`joined_iff`).  The callback of a hook that waits for the thread pool is no
operation of the `io_context`.
-/

namespace StreamGate.Hook

open StreamGate.Lib StreamGate.Scheduler

/-! ### Connections -/

/-- A session whose client may go away: the responses whose write failed. -/
structure Connection where
  session : Session
  failed : List Write := []

/-- What happens on a connection. -/
inductive ConnEvent where
  | session (e : Event)
  /-- The read under way completes with an error, or with the end of the stream. -/
  | readEnds
  /-- The oldest write under way completes with an error. -/
  | writeFails

namespace ConnEvent

/-- The event is the work of a thread of the `io_context`. -/
def io : ConnEvent → Bool
  | session (.callback _ _) => false
  | _ => true

end ConnEvent

namespace Connection

/-- `on_read` and `on_write` with an error leave the session as it is. -/
def step (parse : String → Except ParseFault Json) : ConnEvent → Connection → Option Connection
  | .session e, c => (c.session.step parse e).map fun s => { c with session := s }
  | .readEnds, c => if c.session.reading then some { c with session := { c.session with reading := false } } else none
  | .writeFails, c =>
    match c.session.writing with
    | [] => none
    | w :: writing => some ⟨{ c.session with writing := writing }, c.failed ++ [w]⟩

/-- The operations under way: a read, handlers posted to the strand, writes. -/
def operations (c : Connection) : ℕ :=
  c.session.reading.toNat + c.session.posted.length + c.session.writing.length

/-- The requests that are answered, or about to be. -/
def answered (c : Connection) : List ℕ :=
  c.session.posted.map Posted.origin ++ (c.session.writing ++ c.session.written ++ c.failed).map Write.origin

/-- The requests whose response has been written, or whose write has failed. -/
def finished (c : Connection) : List ℕ := (c.session.written ++ c.failed).map Write.origin

end Connection

/-! ### What a connection keeps -/

namespace Connection

variable {parse : String → Except ParseFault Json} {c c' : Connection} {e : ConnEvent}

theorem mem_answered {i : ℕ} : i ∈ c.answered ↔ (∃ p ∈ c.session.posted, p.origin = i) ∨
    (∃ w ∈ c.session.writing, w.origin = i) ∨ i ∈ c.finished := by
  simp only [answered, finished, List.map_append, List.mem_append, List.mem_map, or_assoc]

/-- Without an operation under way, what is answered is finished. -/
theorem finished_of_operations (h : c.operations = 0) :
    c.session.reading = false ∧ c.session.writing = [] ∧ ∀ i ∈ c.answered, i ∈ c.finished := by
  obtain ⟨⟨hread, hposted⟩, hwriting⟩ :
      (c.session.reading = false ∧ c.session.posted = []) ∧ c.session.writing = [] := by
    simpa [operations] using h
  refine ⟨hread, hwriting, fun i hi => ?_⟩
  simpa [mem_answered, hposted, hwriting] using hi

/-- A write under way answers its request, and takes no other answer away. -/
theorem answered_async_write (i : ℕ) (response : HttpResponse) (s : Session) (failed : List Write) :
    i ∈ answered ⟨s.async_write i response, failed⟩ ∧
      ∀ k ∈ answered ⟨s, failed⟩, k ∈ answered ⟨s.async_write i response, failed⟩ := by
  constructor
  · exact mem_answered.2 (.inr (.inl ⟨_, List.mem_append_right _ List.mem_cons_self, rfl⟩))
  · intro k hk
    rcases mem_answered.1 hk with hp | ⟨w, hw, rfl⟩ | hf
    · exact mem_answered.2 (.inl hp)
    · exact mem_answered.2 (.inr (.inl ⟨w, List.mem_append_left _ hw, rfl⟩))
    · exact mem_answered.2 (.inr (.inr hf))

/-- A callback answers its request, or another callback has gone through before. -/
theorem answered_callback (i : ℕ) (resp : ZlmHookResponse) (s : Session) (failed : List Write) :
    (s.callback i resp).responded = true ∧ ∀ k ∈ answered ⟨s, failed⟩, k ∈ answered ⟨s.callback i resp, failed⟩ := by
  cases hr : s.responded with
  | true =>
    rw [Session.callback_later hr]
    exact ⟨hr, fun k hk => hk⟩
  | false =>
    rw [Session.callback_first hr]
    refine ⟨rfl, fun k hk => ?_⟩
    rcases mem_answered.1 hk with ⟨p, hp, rfl⟩ | hw | hf
    · exact mem_answered.2 (.inl ⟨p, List.mem_append_left _ hp, rfl⟩)
    · exact mem_answered.2 (.inr (.inl hw))
    · exact mem_answered.2 (.inr (.inr hf))

/-- The requests of a connection so far: each is answered, or awaits its callback, unless a callback has gone
through. -/
structure Accounted (c : Connection) : Prop where
  request : ∀ i < c.session.delivered, i ∈ c.answered ∨ i ∈ c.session.waiting ∨ c.session.responded = true
  posted : c.session.responded = false → c.session.posted = []

/-- What one event does with the answers: none is taken back, and every request is accounted for. -/
structure Follows (c c' : Connection) : Prop where
  answered : ∀ i ∈ c.answered, i ∈ c'.answered
  finished : ∀ i ∈ c.finished, i ∈ c'.finished
  accounted : c.Accounted → c'.Accounted

theorem follows_read {s : Session} {failed : List Write} {r : HttpRequest} {call : Call}
    {sent : List (HttpRequest × Call)} :
    Follows ⟨s, failed⟩ ⟨Session.handle_request parse s.delivered call (s.deliver r sent), failed⟩ := by
  rw [handle_request_eq]
  have haccounted : ∀ s' : Session, s'.delivered = s.delivered + 1 →
      (∀ k ∈ answered ⟨s, failed⟩, k ∈ answered ⟨s', failed⟩) → (∀ k ∈ s.waiting, k ∈ s'.waiting) →
      s'.responded = true ∨ (s'.responded = s.responded ∧ s'.posted = s.posted) →
      (s.delivered ∈ answered ⟨s', failed⟩ ∨ s.delivered ∈ s'.waiting ∨ s'.responded = true) →
      Accounted ⟨s, failed⟩ → Accounted ⟨s', failed⟩ := by
    intro s' hdelivered hkeep hwaiting hresponded hnew h
    refine ⟨fun i hi => ?_, fun hr => ?_⟩
    · replace hi : i < s.delivered + 1 := hdelivered ▸ hi
      rcases Nat.lt_succ_iff_lt_or_eq.1 hi with hlt | rfl
      · refine (h.request i hlt).imp (hkeep i) (Or.imp (hwaiting i) fun hr => ?_)
        exact hresponded.elim id fun hsame => hsame.1.trans hr
      · exact hnew
    · rcases hresponded with htrue | ⟨hsame, hposted⟩
      · cases hr.symm.trans htrue
      · exact hposted.trans (h.posted (hsame.symm.trans hr))
  cases reply parse (s.deliver r sent).request call with
  | report body =>
    obtain ⟨hnew, hkeep⟩ := answered_async_write s.delivered
      ⟨(s.deliver r sent).request.version, 200, (s.deliver r sent).request.keep_alive, body⟩ (s.deliver r sent) failed
    exact ⟨hkeep, fun _ h => h, haccounted _ rfl hkeep (fun _ h => h) (.inr ⟨rfl, rfl⟩) (.inl hnew)⟩
  | direct http_status business_code message =>
    obtain ⟨hnew, hkeep⟩ := answered_async_write s.delivered
      ⟨(s.deliver r sent).request.version, http_status, (s.deliver r sent).request.keep_alive,
        .result business_code message⟩ (s.deliver r sent) failed
    exact ⟨hkeep, fun _ h => h, haccounted _ rfl hkeep (fun _ h => h) (.inr ⟨rfl, rfl⟩) (.inl hnew)⟩
  | called resp =>
    obtain ⟨hnew, hkeep⟩ := answered_callback s.delivered resp (s.deliver r sent) failed
    obtain ⟨-, -, hwritten, hdelivered, hwaiting, -⟩ := Session.callback_frame s.delivered resp (s.deliver r sent)
    refine ⟨hkeep, fun i hi => ?_, haccounted _ hdelivered hkeep (fun k hk => ?_) (.inl hnew) (.inr (.inr hnew))⟩
    · show i ∈ ((Session.callback _ _ _).written ++ failed).map Write.origin
      rw [hwritten]
      exact hi
    · show k ∈ (Session.callback _ _ _).waiting
      rw [hwaiting]
      exact hk
  | kept =>
    exact ⟨fun _ h => h, fun _ h => h, haccounted _ rfl (fun _ h => h) (fun _ h => List.mem_cons_of_mem _ h)
      (.inr ⟨rfl, rfl⟩) (.inr (.inl List.mem_cons_self))⟩

theorem follows_callback {s : Session} {failed : List Write} (i : ℕ) (resp : ZlmHookResponse) :
    Follows ⟨s, failed⟩ ⟨Session.callback i resp { s with waiting := s.waiting.erase i }, failed⟩ := by
  obtain ⟨hnew, hkeep⟩ := answered_callback i resp { s with waiting := s.waiting.erase i } failed
  obtain ⟨-, -, hwritten, -⟩ := Session.callback_frame i resp { s with waiting := s.waiting.erase i }
  refine ⟨hkeep, fun k hk => ?_, fun _ => ⟨fun _ _ => .inr (.inr hnew), fun hr => by cases hr.symm.trans hnew⟩⟩
  show k ∈ ((Session.callback _ _ _).written ++ failed).map Write.origin
  rw [hwritten]
  exact hk

theorem on_write_frame (keep_alive : Bool) (s : Session) :
    (s.on_write keep_alive).posted = s.posted ∧ (s.on_write keep_alive).writing = s.writing ∧
      (s.on_write keep_alive).written = s.written ∧ (s.on_write keep_alive).delivered = s.delivered ∧
      (s.on_write keep_alive).waiting = s.waiting ∧ (s.on_write keep_alive).responded = s.responded := by
  cases keep_alive <;> exact ⟨rfl, rfl, rfl, rfl, rfl, rfl⟩

/-- **Nothing that is answered is forgotten**, and nothing that is read. -/
theorem follows_step (h : c.step parse e = some c') : Follows c c' := by
  obtain ⟨s, failed⟩ := c
  cases e with
  | session e =>
    obtain ⟨s', hs, rfl⟩ := Option.map_eq_some_iff.1 h
    cases e with
    | read =>
      obtain ⟨r, call, sent, -, -, rfl⟩ := Session.step_read.1 hs
      exact follows_read
    | callback i res =>
      obtain ⟨-, rfl⟩ := Session.step_callback.1 hs
      exact follows_callback i _
    | strand =>
      obtain ⟨p, posted, hposted, rfl⟩ := Session.step_strand.1 hs
      have hkeep : ∀ k ∈ answered ⟨s, failed⟩, k ∈ answered ⟨Session.send_response p.origin p.http_status
          p.business_code p.message { s with posted := posted }, failed⟩ := by
        obtain ⟨hnew, hold⟩ := answered_async_write p.origin ⟨s.request.version, p.http_status, s.request.keep_alive,
          .result p.business_code p.message⟩ { s with posted := posted } failed
        intro k hk
        rcases mem_answered.1 hk with ⟨q, hq, rfl⟩ | hk
        · rcases List.mem_cons.1 (hposted ▸ hq) with rfl | hq
          · exact hnew
          · exact hold _ (mem_answered.2 (.inl ⟨q, hq, rfl⟩))
        · exact hold k (mem_answered.2 (.inr hk))
      refine ⟨hkeep, fun _ hk => hk, fun ha => ⟨fun i hi => (ha.request i hi).imp_left (hkeep i), fun hr => ?_⟩⟩
      cases hposted.symm.trans (ha.posted hr)
    | wrote =>
      obtain ⟨w, writing, hwriting, rfl⟩ := Session.step_wrote.1 hs
      obtain ⟨hposted, hwriting', hwritten, hdelivered, hwaiting, hresponded⟩ :=
        on_write_frame w.response.keep_alive { s with writing := writing, written := s.written ++ [w] }
      have hkeep : ∀ k ∈ answered ⟨s, failed⟩, k ∈ answered ⟨Session.on_write w.response.keep_alive
          { s with writing := writing, written := s.written ++ [w] }, failed⟩ := by
        intro k hk
        simp only [answered, hposted, hwriting', hwritten, List.map_append, List.map_cons, List.mem_append,
          List.mem_cons] at hk ⊢
        grind
      refine ⟨hkeep, fun k hk => ?_, fun ha => ⟨fun i hi => ?_, fun hr => ?_⟩⟩
      · simp only [finished, hwritten, List.map_append, List.mem_append] at hk ⊢
        exact hk.imp_left .inl
      · simp only [hdelivered, hwaiting, hresponded] at hi ⊢
        exact (ha.request i hi).imp_left (hkeep i)
      · exact hposted.trans (ha.posted (hresponded.symm.trans hr))
  | readEnds =>
    simp only [step] at h
    split at h
    · obtain rfl := Option.some.inj h
      exact ⟨fun _ hk => hk, fun _ hk => hk, fun ha => ⟨ha.request, ha.posted⟩⟩
    · cases h
  | writeFails =>
    simp only [step] at h
    split at h
    · cases h
    · rename_i w writing hwriting
      obtain rfl := Option.some.inj h
      have hkeep : ∀ k ∈ answered ⟨s, failed⟩, k ∈ answered ⟨{ s with writing := writing }, failed ++ [w]⟩ := by
        intro k hk
        simp only [answered, hwriting, List.map_append, List.map_cons, List.mem_append, List.mem_cons] at hk ⊢
        grind
      refine ⟨hkeep, fun k hk => ?_, fun ha => ⟨fun i hi => (ha.request i hi).imp_left (hkeep i), ha.posted⟩⟩
      simp only [finished, List.map_append, List.mem_append] at hk ⊢
      exact hk.imp_right .inl

/-- The thread pool starts no read and writes nothing. -/
theorem callback_eq_some (h : c.step parse e = some c') (he : e.io = false) :
    c'.session.reading = c.session.reading ∧ c'.session.writing = c.session.writing ∧
      c'.session.written = c.session.written ∧ c'.session.delivered = c.session.delivered ∧ c'.failed = c.failed ∧
      (c'.operations = 0 → c.operations = 0) := by
  cases e with
  | session e =>
    obtain ⟨s', hs, rfl⟩ := Option.map_eq_some_iff.1 h
    cases e with
    | callback i res =>
      obtain ⟨-, rfl⟩ := Session.step_callback.1 hs
      obtain ⟨hread, hwriting, hwritten, hdelivered, -, hposted⟩ :=
        Session.callback_frame i (mapResult res).to_response { c.session with waiting := c.session.waiting.erase i }
      refine ⟨hread, hwriting, hwritten, hdelivered, rfl, fun hzero => ?_⟩
      rw [operations] at hzero ⊢
      dsimp only at hzero hposted
      rw [hread, hwriting] at hzero
      dsimp only at hzero
      omega
    | _ => cases he
  | _ => cases he

end Connection

/-! ### The server and its threads -/

/-- The `async_accept` of the listener. -/
inductive Accept (σ : Type) where
  | idle
  | waiting
  /-- Its handler is to run, with the connection of a client or with an error. -/
  | done (client : Option σ)
  deriving DecidableEq

/-- Where the call of `stop` is. -/
inductive Stopping where
  | call
  /-- After `_running.exchange`. -/
  | closing
  /-- Without the listener. -/
  | releasing
  /-- Without the work guard. -/
  | joining
  | returned
  deriving DecidableEq

/-- `σ` are the clients. -/
structure Server (σ : Type) where
  acceptor_open : Bool := true
  accept : Accept σ := .waiting
  accepted : List σ := []
  connections : σ → Connection
  work_guard : Bool := true
  /-- The `io_context` has run out of work. -/
  stopped : Bool := false
  /-- The threads in `_ioc.run`. -/
  threads : ℕ
  stop : Stopping := .call

/-- What happens next. -/
inductive ServerEvent (σ : Type) where
  /-- The `async_accept` completes. -/
  | accept (client : Option σ)
  /-- Its handler runs. -/
  | accepted
  | connection (j : σ) (e : ConnEvent)
  /-- The next step of `stop`. -/
  | stop
  /-- A thread returns from `_ioc.run`. -/
  | leave

namespace Server

variable {σ : Type}

/-- The server after `start`. -/
def started (io_threads : ℤ) (reqs : σ → List (HttpRequest × Call)) : Server σ where
  connections j := ⟨Session.start (reqs j), []⟩
  threads := io_threads.toNat

/-- Nothing is left for the `io_context` to wait for. -/
def out_of_work (g : Server σ) : Prop :=
  g.work_guard = false ∧ g.accept = .idle ∧ ∀ j ∈ g.accepted, (g.connections j).operations = 0

/-- A thread can run a handler. -/
def running (g : Server σ) : Prop := g.stopped = false ∧ 0 < g.threads

instance (g : Server σ) : Decidable g.running := inferInstanceAs (Decidable (_ ∧ _))

variable [DecidableEq σ]

instance (g : Server σ) : Decidable g.out_of_work := inferInstanceAs (Decidable (_ ∧ _))

/-- A piece of work is done: without any more, the `io_context` stops. -/
def work_finished (g : Server σ) : Server σ := if g.out_of_work then { g with stopped := true } else g

def set (g : Server σ) (j : σ) (c : Connection) : Server σ :=
  { g with connections := Function.update g.connections j c }

/-- The handler of `do_accept`: a session for the client, and the next `async_accept` while the acceptor is open. -/
def on_accept (client : Option σ) (g : Server σ) : Server σ :=
  { g with
    accepted := g.accepted ++ client.toList
    accept := if g.acceptor_open then .waiting else .idle }

/-- `HookListener::stop`: an `async_accept` under way is aborted. -/
def close (g : Server σ) : Server σ :=
  { g with
    acceptor_open := false
    accept := if g.accept = .waiting then .done none else g.accept }

/-- `HookServer::stop`, step by step. -/
def stopStep (g : Server σ) : Option (Server σ) :=
  match g.stop with
  | .call => some { g with stop := .closing }
  | .closing => some { g.close with stop := .releasing }
  | .releasing => some (work_finished { g with work_guard := false, stop := .joining })
  | .joining => if g.threads = 0 then some { g with stop := .returned } else none
  | .returned => none

/-- One step. -/
def step (parse : String → Except ParseFault Json) : ServerEvent σ → Server σ → Option (Server σ)
  | .accept client, g =>
    if g.accept = .waiting ∧ ∀ j ∈ client, j ∉ g.accepted then some { g with accept := .done client } else none
  | .accepted, g =>
    match g.accept with
    | .done client => if g.running then some (g.on_accept client).work_finished else none
    | _ => none
  | .connection j e, g =>
    if j ∈ g.accepted then
      if e.io then
        if g.running then ((g.connections j).step parse e).map fun c => (g.set j c).work_finished else none
      else ((g.connections j).step parse e).map (g.set j)
    else none
  | .stop, g => g.stopStep
  | .leave, g => if g.stopped ∧ 0 < g.threads then some { g with threads := g.threads - 1 } else none

/-! ### What a step does -/

/-- The steps, one by one. -/
inductive Step (parse : String → Except ParseFault Json) (g : Server σ) : ServerEvent σ → Server σ → Prop
  | accept {client : Option σ} (hw : g.accept = .waiting) (hnew : ∀ j ∈ client, j ∉ g.accepted) :
      Step parse g (.accept client) { g with accept := .done client }
  | accepted {client : Option σ} (hd : g.accept = .done client) (hr : g.running) :
      Step parse g .accepted (g.on_accept client).work_finished
  | handler {j : σ} {e : ConnEvent} {c : Connection} (hj : j ∈ g.accepted) (he : e.io = true) (hr : g.running)
      (hc : (g.connections j).step parse e = some c) : Step parse g (.connection j e) (g.set j c).work_finished
  | callback {j : σ} {e : ConnEvent} {c : Connection} (hj : j ∈ g.accepted) (he : e.io = false)
      (hc : (g.connections j).step parse e = some c) : Step parse g (.connection j e) (g.set j c)
  | exchange (hs : g.stop = .call) : Step parse g .stop { g with stop := .closing }
  | close (hs : g.stop = .closing) : Step parse g .stop { g.close with stop := .releasing }
  | release (hs : g.stop = .releasing) :
      Step parse g .stop (work_finished { g with work_guard := false, stop := .joining })
  | join (hs : g.stop = .joining) (ht : g.threads = 0) : Step parse g .stop { g with stop := .returned }
  | leave (hs : g.stopped = true) (ht : 0 < g.threads) : Step parse g .leave { g with threads := g.threads - 1 }

variable {parse : String → Except ParseFault Json} {g g' : Server σ} {e : ServerEvent σ}

theorem stopStep_eq_some (h : g.stopStep = some g') : Step parse g .stop g' := by
  unfold stopStep at h
  split at h
  · obtain rfl := Option.some.inj h
    exact .exchange ‹_›
  · obtain rfl := Option.some.inj h
    exact .close ‹_›
  · obtain rfl := Option.some.inj h
    exact .release ‹_›
  · split at h
    · obtain rfl := Option.some.inj h
      exact .join ‹_› ‹_›
    · cases h
  · cases h

theorem step_eq_some (h : step parse e g = some g') : Step parse g e g' := by
  cases e with
  | accept client =>
    simp only [step] at h
    split at h
    · rename_i hw
      obtain rfl := Option.some.inj h
      exact .accept hw.1 hw.2
    · cases h
  | accepted =>
    simp only [step] at h
    split at h
    · split at h
      · obtain rfl := Option.some.inj h
        exact .accepted ‹_› ‹_›
      · cases h
    · cases h
  | connection j e =>
    simp only [step] at h
    split at h
    · split at h
      · split at h
        · obtain ⟨c, hc, rfl⟩ := Option.map_eq_some_iff.1 h
          exact .handler ‹_› ‹_› ‹_› hc
        · cases h
      · obtain ⟨c, hc, rfl⟩ := Option.map_eq_some_iff.1 h
        exact .callback ‹_› (by simpa using ‹¬ e.io = true›) hc
    · cases h
  | stop => exact stopStep_eq_some h
  | leave =>
    simp only [step] at h
    split at h
    · rename_i hl
      obtain rfl := Option.some.inj h
      exact .leave hl.1 hl.2
    · cases h

/-! ### Reachable servers -/

theorem work_finished_eq (g : Server σ) :
    g.work_finished = { g with stopped := g.stopped || decide g.out_of_work } := by
  unfold work_finished
  split
  · simp [*]
  · simp [*]

/-- What holds in every state of a run, as far as it does not depend on the work that is left. -/
structure Sound (n : ℕ) (reqs : σ → List (HttpRequest × Call)) (g : Server σ) : Prop where
  fresh : ∀ j, j ∉ g.accepted → g.connections j = ⟨Session.start (reqs j), []⟩
  guard : g.work_guard = false ↔ g.stop = .joining ∨ g.stop = .returned
  quiet : g.stopped = true → g.work_guard = false ∧ g.accept = .idle ∧
    ∀ j ∈ g.accepted, (g.connections j).session.reading = false ∧ (g.connections j).session.writing = []
  left : g.threads = 0 → g.stopped = true ∨ n = 0 ∧ g.accepted = []
  returned : g.stop = .returned → g.threads = 0
  accounted : ∀ j, (g.connections j).Accounted

/-- Without work, the `io_context` has stopped. -/
structure Inv (n : ℕ) (reqs : σ → List (HttpRequest × Call)) (g : Server σ) : Prop extends Sound n reqs g where
  idle : g.out_of_work → g.stopped = true

variable {n : ℕ} {reqs : σ → List (HttpRequest × Call)}

theorem Sound.finish (h : Sound n reqs g) : Inv n reqs g.work_finished := by
  rw [work_finished_eq]
  refine ⟨⟨h.fresh, h.guard, fun hs => ?_, fun ht => ?_, h.returned, h.accounted⟩, fun hwork => ?_⟩
  · rcases Bool.or_eq_true_iff.1 hs with hs | hwork
    · exact h.quiet hs
    · obtain ⟨hguard, haccept, hidle⟩ := of_decide_eq_true hwork
      refine ⟨hguard, haccept, fun j hj => ?_⟩
      obtain ⟨hread, hwriting, -⟩ := Connection.finished_of_operations (hidle j hj)
      exact ⟨hread, hwriting⟩
  · exact (h.left ht).imp_left fun hs => by simp [hs]
  · have hidle : g.out_of_work := hwork
    simp [hidle]

omit [DecidableEq σ] in
theorem inv_started (io_threads : ℤ) (reqs : σ → List (HttpRequest × Call)) :
    Inv io_threads.toNat reqs (started io_threads reqs) := by
  refine ⟨⟨fun _ _ => rfl, ?_, nofun, fun ht => .inr ⟨ht, rfl⟩, nofun, fun j => ⟨fun i hi => ?_, fun _ => rfl⟩⟩, ?_⟩
  · simp [started]
  · exact absurd hi (Nat.not_lt_zero i)
  · exact fun hwork => absurd hwork.1 (by simp [started])

/-- The step of a connection, as far as the server sees it. -/
theorem Sound.set (h : Sound n reqs g) {j : σ} {c : Connection} (hj : j ∈ g.accepted) (hc : c.Accounted)
    (hquiet : g.stopped = true → c.session.reading = false ∧ c.session.writing = []) : Sound n reqs (g.set j c) := by
  refine ⟨fun k hk => ?_, h.guard, fun hs => ?_, h.left, h.returned, fun k => ?_⟩
  · have hkj : k ≠ j := fun hkj => hk (hkj ▸ hj)
    exact (Function.update_of_ne hkj _ _).trans (h.fresh k hk)
  · obtain ⟨hguard, haccept, hall⟩ := h.quiet hs
    refine ⟨hguard, haccept, fun k hk => ?_⟩
    by_cases hkj : k = j
    · subst hkj
      simpa [Server.set] using hquiet hs
    · simpa [Server.set, Function.update_of_ne hkj] using hall k hk
  · by_cases hkj : k = j
    · subst hkj
      simpa [Server.set] using hc
    · simpa [Server.set, Function.update_of_ne hkj] using h.accounted k

theorem Inv.step (h : Inv n reqs g) (hs : Step parse g e g') : Inv n reqs g' := by
  cases hs with
  | accept hw hnew =>
    have hrun : g.stopped ≠ true := fun hs => by simp [(h.quiet hs).2.1] at hw
    refine ⟨⟨h.fresh, h.guard, fun hs => absurd hs hrun, h.left, h.returned, h.accounted⟩, ?_⟩
    intro hwork
    cases hwork.2.1
  | @accepted client hd hr =>
    refine Sound.finish ⟨fun j hj => ?_, h.guard, fun hs => ?_, fun ht => ?_, h.returned, h.accounted⟩
    · exact h.fresh j fun hmem => hj (List.mem_append_left _ hmem)
    · cases hr.1.symm.trans hs
    · exact absurd ht hr.2.ne'
  | @handler j e c hj he hr hc =>
    have haccounted := (Connection.follows_step hc).accounted (h.accounted j)
    exact (h.toSound.set hj haccounted fun hs => by cases hr.1.symm.trans hs).finish
  | @callback j e c hj he hc =>
    obtain ⟨hread, hwriting, -, -, -, hidle⟩ := Connection.callback_eq_some hc he
    have hsound := h.toSound.set hj ((Connection.follows_step hc).accounted (h.accounted j)) fun hs => by
      rw [hread, hwriting]
      exact (h.quiet hs).2.2 j hj
    refine ⟨hsound, fun hwork => h.idle ⟨hwork.1, hwork.2.1, fun k hk => ?_⟩⟩
    have hk' := hwork.2.2 k hk
    by_cases hkj : k = j
    · subst hkj
      exact hidle (by simpa [Server.set] using hk')
    · simpa [Server.set, Function.update_of_ne hkj] using hk'
  | exchange hs =>
    have hguard : g.work_guard ≠ false := fun hg => by simpa [hs] using h.guard.1 hg
    exact ⟨⟨h.fresh, by simpa using hguard, h.quiet, h.left, nofun, h.accounted⟩, h.idle⟩
  | close hs =>
    have hguard : g.work_guard ≠ false := fun hg => by simpa [hs] using h.guard.1 hg
    refine ⟨⟨h.fresh, by simpa [Server.close] using hguard, fun hstop => ?_, h.left, nofun, h.accounted⟩, ?_⟩
    · exact absurd (h.quiet hstop).1 hguard
    · exact fun hwork => absurd hwork.1 hguard
  | release hs =>
    have hguard : g.work_guard ≠ false := fun hg => by simpa [hs] using h.guard.1 hg
    exact Sound.finish ⟨h.fresh, by simp, fun hstop => absurd (h.quiet hstop).1 hguard, h.left, nofun, h.accounted⟩
  | join hs ht =>
    exact ⟨⟨h.fresh, by simp [h.guard, hs], h.quiet, h.left, fun _ => ht, h.accounted⟩, h.idle⟩
  | leave hs ht =>
    refine ⟨⟨h.fresh, h.guard, h.quiet, fun _ => .inl hs, fun hret => ?_, h.accounted⟩, h.idle⟩
    exact absurd (h.returned hret) ht.ne'

/-! ### The end of a server -/

theorem inv_of_run {io_threads : ℤ} {es : List (ServerEvent σ)}
    (h : tries (Server.step parse) es (started io_threads reqs) = some g) : Inv io_threads.toNat reqs g :=
  tries_inv (I := Inv io_threads.toNat reqs) (fun _ _ _ hg hs => hg.step (step_eq_some hs)) h
    (inv_started io_threads reqs)

/-- The request `i` of the client `j` is answered, and has its answer when the `io_context` stops. -/
structure Answered (j : σ) (i : ℕ) (g : Server σ) : Prop where
  accepted : j ∈ g.accepted
  answered : i ∈ (g.connections j).answered
  finished : g.stopped = true → i ∈ (g.connections j).finished

theorem Answered.finish {j : σ} {i : ℕ} (h : Answered j i g) : Answered j i g.work_finished := by
  rw [work_finished_eq]
  refine ⟨h.accepted, h.answered, fun hs => ?_⟩
  rcases Bool.or_eq_true_iff.1 hs with hs | hwork
  · exact h.finished hs
  · obtain ⟨-, -, hidle⟩ := of_decide_eq_true hwork
    exact (Connection.finished_of_operations (hidle j h.accepted)).2.2 i h.answered

theorem Answered.set {j k : σ} {i : ℕ} {c : Connection} (h : Answered j i g)
    (hc : Connection.Follows (g.connections k) c) : Answered j i (g.set k c) := by
  refine ⟨h.accepted, ?_, fun hs => ?_⟩
  · by_cases hjk : j = k
    · subst hjk
      simpa [Server.set] using hc.answered i h.answered
    · simpa [Server.set, Function.update_of_ne hjk] using h.answered
  · by_cases hjk : j = k
    · subst hjk
      simpa [Server.set] using hc.finished i (h.finished hs)
    · simpa [Server.set, Function.update_of_ne hjk] using h.finished hs

theorem Answered.step {j : σ} {i : ℕ} (h : Answered j i g) (hs : Step parse g e g') : Answered j i g' := by
  cases hs with
  | @accepted client hd hr =>
    have h' : Answered j i (g.on_accept client) := ⟨List.mem_append_left _ h.accepted, h.answered, h.finished⟩
    exact h'.finish
  | handler hj he hr hc => exact (h.set (Connection.follows_step hc)).finish
  | callback hj he hc => exact h.set (Connection.follows_step hc)
  | release hs =>
    have h' : Answered j i { g with work_guard := false, stop := .joining } := ⟨h.accepted, h.answered, h.finished⟩
    exact h'.finish
  | _ => exact ⟨h.accepted, h.answered, h.finished⟩

/-- What nobody changes once the threads have left. -/
structure Ended (g g' : Server σ) : Prop where
  threads : g'.threads = 0
  accepted : g'.accepted = g.accepted
  connections : ∀ j, (g'.connections j).session.delivered = (g.connections j).session.delivered ∧
    (g'.connections j).session.written = (g.connections j).session.written

theorem Ended.step {g₀ : Server σ} (h : Ended g₀ g) (hs : Step parse g e g') : Ended g₀ g' := by
  have hrun : ¬ g.running := fun hr => absurd h.threads hr.2.ne'
  cases hs with
  | accepted hd hr => exact absurd hr hrun
  | handler hj he hr hc => exact absurd hr hrun
  | @callback k e c hj he hc =>
    obtain ⟨-, -, hwritten, hdelivered, -⟩ := Connection.callback_eq_some hc he
    refine ⟨h.threads, h.accepted, fun j => ?_⟩
    by_cases hjk : j = k
    · subst hjk
      simpa [Server.set, hwritten, hdelivered] using h.connections j
    · simpa [Server.set, Function.update_of_ne hjk] using h.connections j
  | release hs =>
    rw [work_finished_eq]
    exact ⟨h.threads, h.accepted, h.connections⟩
  | leave hs ht => exact absurd h.threads ht.ne'
  | _ => exact ⟨h.threads, h.accepted, h.connections⟩

/-- **The server drains its connections.**  When `stop` has returned, no read and no write is under way; what had been
answered before the `io_context` ran out of work has been written, or its write has failed; a request without an
answer awaits its callback, on a connection that has seen none; and nothing is read or written from then on. -/
theorem server_drained {io_threads : ℤ} {past rest : List (ServerEvent σ)} {m : Server σ}
    (hpast : tries (Server.step parse) past (started io_threads reqs) = some m)
    (hrest : tries (Server.step parse) rest m = some g) (hret : g.stop = .returned) :
    (∀ j ∈ g.accepted, (g.connections j).session.reading = false ∧ (g.connections j).session.writing = []) ∧
      (m.stopped = false → ∀ j ∈ m.accepted, ∀ i ∈ (m.connections j).answered, i ∈ (g.connections j).finished) ∧
      (∀ j ∈ g.accepted, (g.connections j).session.responded = false → ∀ i < (g.connections j).session.delivered,
        i ∈ (g.connections j).finished ∨ i ∈ (g.connections j).session.waiting) ∧
      ∀ fs g', tries (Server.step parse) fs g = some g' → g'.accepted = g.accepted ∧
        ∀ j, (g'.connections j).session.delivered = (g.connections j).session.delivered ∧
          (g'.connections j).session.written = (g.connections j).session.written := by
  have hg := inv_of_run (tries_append_eq_some.2 ⟨m, hpast, hrest⟩)
  have hthreads := hg.returned hret
  have hstopped : ∀ j ∈ g.accepted, g.stopped = true := fun j hj =>
    (hg.left hthreads).resolve_right fun hnone => by simp [hnone.2] at hj
  refine ⟨fun j hj => (hg.quiet (hstopped j hj)).2.2 j hj, fun hm j hj i hi => ?_, fun j hj hr i hi => ?_,
    fun fs g' hfs => ?_⟩
  · have hm' : Answered j i m := ⟨hj, hi, fun hs => by cases hm.symm.trans hs⟩
    have hg' : Answered j i g := tries_inv (I := Answered j i) (fun _ _ _ h hs => h.step (step_eq_some hs)) hrest hm'
    exact hg'.finished (hstopped j hg'.accepted)
  · obtain ⟨-, hwriting⟩ := (hg.quiet (hstopped j hj)).2.2 j hj
    have hposted := (hg.accounted j).posted hr
    rcases (hg.accounted j).request i hi with hans | hwait | hresp
    · refine .inl ?_
      simpa [Connection.mem_answered, hwriting, hposted] using hans
    · exact .inr hwait
    · cases hr.symm.trans hresp
  · have hend : Ended g g' := tries_inv (I := Ended g) (fun _ _ _ h hs => h.step (step_eq_some hs)) hfs
      ⟨hthreads, rfl, fun _ => ⟨rfl, rfl⟩⟩
    exact ⟨hend.accepted, hend.connections⟩

/-- One client that asks how the server is, once or keeping the connection. -/
def probe (keep_alive : Bool) : Server Unit :=
  started 1 fun _ => [({ method := .get, target := "/health", keep_alive := keep_alive }, .returns)]

/-- Its request is read, and its answer is under way. -/
def probed : List (ServerEvent Unit) := [.accept (some ()), .accepted, .connection () (.session .read)]

/-- `stop` is called, and the answer is written. -/
def probeEnds : List (ServerEvent Unit) :=
  [.stop, .stop, .accepted, .stop, .connection () (.session .wrote), .leave, .stop]

theorem server_drained_probe : ∃ m g, tries (Server.step fun _ => .error .parse_error) probed (probe false) = some m ∧
    tries (Server.step fun _ => .error .parse_error) probeEnds m = some g ∧ 0 ∈ (g.connections ()).finished := by
  have hrun : ((tries (Server.step fun _ => .error .parse_error) probed (probe false)).bind fun m =>
      (tries (Server.step fun _ => .error .parse_error) probeEnds m).map fun g =>
        (m.stopped, decide (() ∈ m.accepted), (m.connections ()).answered, g.stop)) =
      some (false, true, [0], .returned) := by decide +kernel
  obtain ⟨m, hm, hrun⟩ := Option.bind_eq_some_iff.1 hrun
  obtain ⟨g, hg, hend⟩ := Option.map_eq_some_iff.1 hrun
  simp only [Prod.mk.injEq, decide_eq_true_eq] at hend
  obtain ⟨hstopped, haccepted, hanswered, hret⟩ := hend
  refine ⟨m, g, hm, hg, (server_drained hm hg hret).2.1 hstopped () haccepted 0 ?_⟩
  rw [hanswered]
  exact List.mem_singleton.2 rfl

/-! ### When `stop` returns -/

theorem stopped_step (hs : Step parse g e g') (h : g.stopped = true) : g'.stopped = true := by
  cases hs with
  | accepted hd hr => cases hr.1.symm.trans h
  | handler hj he hr hc => cases hr.1.symm.trans h
  | release hs =>
    rw [work_finished_eq]
    simp [h]
  | _ => exact h

/-- The `io_context` stops when it is out of work. -/
theorem stopped_of_step (hs : Step parse g e g') (h : g'.stopped = true) : g.stopped = true ∨ g'.out_of_work := by
  have hfinish : ∀ m : Server σ, m.stopped = g.stopped → m.work_finished.stopped = true →
      g.stopped = true ∨ m.work_finished.out_of_work := by
    intro m hm hstop
    rw [work_finished_eq] at hstop ⊢
    exact (Bool.or_eq_true_iff.1 hstop).imp (fun h => hm ▸ h) of_decide_eq_true
  cases hs with
  | accepted hd hr => exact hfinish _ rfl h
  | handler hj he hr hc => exact hfinish _ rfl h
  | release hs => exact hfinish _ rfl h
  | _ => exact .inl h

/-- The `io_context` was out of work at some moment of a run. -/
def RanOut (parse : String → Except ParseFault Json) (g₀ : Server σ) (es : List (ServerEvent σ)) : Prop :=
  ∃ past rest m, es = past ++ rest ∧ tries (Server.step parse) past g₀ = some m ∧ m.out_of_work

theorem ranOut_of_stopped {g₀ : Server σ} (h₀ : g₀.stopped = false) {es : List (ServerEvent σ)}
    (h : tries (Server.step parse) es g₀ = some g) (hs : g.stopped = true) : RanOut parse g₀ es := by
  have hinv : tries (Server.step parse) es g₀ = some g ∧ (g.stopped = true → RanOut parse g₀ es) := by
    refine tries_history (I := fun os s => tries (Server.step parse) os g₀ = some s ∧
      (s.stopped = true → RanOut parse g₀ os)) ?_ h ⟨rfl, fun hs => by cases h₀.symm.trans hs⟩
    rintro os s o s' ⟨hos, hI⟩ hstep
    have hrun : tries (Server.step parse) (os ++ [o]) g₀ = some s' :=
      tries_append_eq_some.2 ⟨s, hos, tries_cons_eq_some.2 ⟨s', hstep, rfl⟩⟩
    refine ⟨hrun, fun hs' => ?_⟩
    rcases stopped_of_step (step_eq_some hstep) hs' with hs | hwork
    · obtain ⟨past, rest, m, rfl, hm, hwork⟩ := hI hs
      exact ⟨past, rest ++ [o], m, List.append_assoc .., hm, hwork⟩
    · exact ⟨os ++ [o], [], s', (List.append_nil _).symm, hrun, hwork⟩
  exact hinv.2 hs

/-- The threads leave one after the other. -/
theorem leaves (hs : g.stopped = true) :
    tries (Server.step parse) (List.replicate g.threads .leave) g = some { g with threads := 0 } := by
  obtain ⟨k, hk⟩ : ∃ k, g.threads = k := ⟨_, rfl⟩
  induction k generalizing g with
  | zero =>
    obtain ⟨acceptor_open, accept, accepted, connections, work_guard, stopped, threads, stop⟩ := g
    obtain rfl : threads = 0 := hk
    rfl
  | succ k ih =>
    rw [hk, List.replicate_succ]
    refine tries_cons_eq_some.2 ⟨{ g with threads := k }, ?_, ih (g := { g with threads := k }) hs rfl⟩
    simp [Server.step, hs, hk]

/-- Only its own events end a read. -/
theorem reading_step {j : σ} (he : ∀ c, e ≠ .connection j c)
    (h : j ∈ g.accepted ∧ (g.connections j).session.reading = true) (hs : Step parse g e g') :
    j ∈ g'.accepted ∧ (g'.connections j).session.reading = true := by
  have hset : ∀ {k : σ} {d : ConnEvent}, e = .connection k d → ∀ c, j ∈ (g.set k c).accepted ∧
      ((g.set k c).connections j).session.reading = true := by
    intro k d hk c
    have hjk : j ≠ k := fun hjk => he d (hjk ▸ hk)
    exact ⟨h.1, by simpa [Server.set, Function.update_of_ne hjk] using h.2⟩
  cases hs with
  | accepted hd hr =>
    rw [work_finished_eq]
    exact ⟨List.mem_append_left _ h.1, h.2⟩
  | @handler k d c hk hd hr hc =>
    rw [work_finished_eq]
    exact hset rfl c
  | @callback k d c hk hd hc => exact hset rfl c
  | release hs =>
    rw [work_finished_eq]
    exact h
  | _ => exact h

/-- **What `stop` waits for.**  Once it joins the threads it returns, without anything else happening, exactly if the
`io_context` was out of work at some moment; and it does not return as long as a connection waits for the next request
of its client. -/
theorem joined_iff {io_threads : ℤ} (hn : 0 < io_threads) {es : List (ServerEvent σ)}
    (h : tries (Server.step parse) es (started io_threads reqs) = some g) (hjoin : g.stop = .joining) :
    ((∃ fs g', (∀ e ∈ fs, e = .leave ∨ e = .stop) ∧ tries (Server.step parse) fs g = some g' ∧ g'.stop = .returned) ↔
        RanOut parse (started io_threads reqs) es) ∧
      ∀ j ∈ g.accepted, (g.connections j).session.reading = true → ∀ fs g', (∀ e ∈ fs, ∀ c, e ≠ .connection j c) →
        tries (Server.step parse) fs g = some g' → g'.stop ≠ .returned := by
  have hpos : io_threads.toNat ≠ 0 := by omega
  have hstopped : ∀ {os s}, tries (Server.step parse) os (started io_threads reqs) = some s → s.stop = .returned →
      s.stopped = true := fun hos hs =>
    ((inv_of_run hos).left ((inv_of_run hos).returned hs)).resolve_right fun hz => hpos hz.1
  refine ⟨⟨?_, ?_⟩, ?_⟩
  · rintro ⟨fs, g', hfs, hrun, hret⟩
    refine ranOut_of_stopped rfl h ?_
    -- neither the threads that leave nor `stop` itself stop the `io_context` any more
    have hsame : (g'.stop = .joining ∨ g'.stop = .returned) ∧ g'.stopped = g.stopped := by
      refine tries_inv_of_forall (I := fun s : Server σ => (s.stop = .joining ∨ s.stop = .returned) ∧
        s.stopped = g.stopped) (D := fun e => e = .leave ∨ e = .stop) ?_ hfs hrun ⟨.inl hjoin, rfl⟩
      rintro s e s' he ⟨hstop, hsame⟩ hs
      cases step_eq_some hs with
      | leave => exact ⟨hstop, hsame⟩
      | join => exact ⟨.inr rfl, hsame⟩
      | exchange hcall => simp [hcall] at hstop
      | close hclosing => simp [hclosing] at hstop
      | release hreleasing => simp [hreleasing] at hstop
      | _ => simp at he
    rw [← hsame.2]
    exact hstopped (tries_append_eq_some.2 ⟨g, h, hrun⟩) hret
  · rintro ⟨past, rest, m, rfl, hm, hwork⟩
    obtain ⟨m', hm', hrest⟩ := tries_append_eq_some.1 h
    obtain rfl := Option.some.inj (hm.symm.trans hm')
    have hs : g.stopped = true := tries_inv (I := fun s : Server σ => s.stopped = true)
      (fun _ _ _ h hs => stopped_step (step_eq_some hs) h) hrest ((inv_of_run hm).idle hwork)
    refine ⟨List.replicate g.threads .leave ++ [.stop], { g with threads := 0, stop := .returned }, ?_, ?_, rfl⟩
    · intro e he
      exact (List.mem_append.1 he).imp List.eq_of_mem_replicate List.mem_singleton.1
    · refine tries_append_eq_some.2 ⟨_, leaves hs, ?_⟩
      simp [tries, Server.step, stopStep, hjoin]
  · intro j hj hread fs g' hfs hrun hret
    have hwaits : j ∈ g'.accepted ∧ (g'.connections j).session.reading = true :=
      tries_inv_of_forall (I := fun s : Server σ => j ∈ s.accepted ∧ (s.connections j).session.reading = true)
        (D := fun e => ∀ c, e ≠ .connection j c) (fun _ _ _ he hI hs => reading_step he hI (step_eq_some hs)) hfs hrun
        ⟨hj, hread⟩
    have hrun' := tries_append_eq_some.2 ⟨g, h, hrun⟩
    have hquiet := ((inv_of_run hrun').quiet (hstopped hrun' hret)).2.2 j hwaits.1
    cases hwaits.2.symm.trans hquiet.1

/-- The client keeps its connection. -/
theorem joined_iff_probe : ∃ g, tries (Server.step fun _ => .error .parse_error)
      (probed ++ [.connection () (.session .wrote), .stop, .stop, .accepted, .stop]) (probe true) = some g ∧
    g.stop = .joining ∧ ∀ fs g', (∀ e ∈ fs, ∀ c, e ≠ .connection () c) →
      tries (Server.step fun _ => .error .parse_error) fs g = some g' → g'.stop ≠ .returned := by
  have hrun : ((tries (Server.step fun _ => .error .parse_error)
      (probed ++ [.connection () (.session .wrote), .stop, .stop, .accepted, .stop]) (probe true)).map fun g =>
        (g.stop, decide (() ∈ g.accepted), (g.connections ()).session.reading)) = some (.joining, true, true) := by
    decide +kernel
  obtain ⟨g, hg, hend⟩ := Option.map_eq_some_iff.1 hrun
  simp only [Prod.mk.injEq, decide_eq_true_eq] at hend
  obtain ⟨hjoin, haccepted, hread⟩ := hend
  exact ⟨g, hg, hjoin, (joined_iff Int.one_pos hg hjoin).2 () haccepted hread⟩

end Server

end StreamGate.Hook
