import StreamGate.Hook.Matching

/-!
# What is read ahead

A read takes from the socket what has come, which is more than one request where the client does not wait for the
response.  What stands behind the request is kept in `_buffer`, and `on_write` empties the buffer before the next read:
the requests in it are lost, and of one that was only begun the rest is read as something else.

A connection answers every request exactly as long as nothing is read ahead and at most one of the requests comes to
a callback (`oneEach_iff`).
-/

namespace StreamGate.Hook

open StreamGate.Lib StreamGate.Scheduler

/-- A request on its way, and what the read that completes it takes along of what follows. -/
structure Arrival where
  request : HttpRequest
  call : Call
  /-- So many whole requests. -/
  whole : ℕ := 0
  /-- And the beginning of one more. -/
  part : Bool := false
  deriving DecidableEq

/-- What the session sees of it. -/
def Arrival.sent (a : Arrival) : HttpRequest × Call := (a.request, a.call)

/-- The read brings the request alone. -/
def Arrival.Alone (a : Arrival) : Prop := a.whole = 0 ∧ a.part = false

/-- A session, its socket and its buffer. -/
structure Line where
  /-- Between two events it has nothing in `sent`: a read is given there what it brings. -/
  session : Session
  /-- What the socket has yet to give. -/
  wire : List Arrival
  /-- The whole requests in `_buffer`. -/
  buffer : List Arrival := []
  /-- There is the beginning of another one behind them. -/
  part : Bool := false
  /-- How many requests have been thrown away, the whole of them or their beginning. -/
  lost : ℕ := 0
  /-- The requests that reads have brought, in order. -/
  brought : List Arrival := []
  deriving DecidableEq

namespace Line

def start (as : List Arrival) : Line := { session := Session.start [], wire := as }

/-- What a read brings, and what is in the buffer then: a whole request that is there already, or else the next one
with what comes along. -/
def take (l : Line) : Option (Arrival × Line) :=
  match l.buffer, l.wire with
  | a :: buffer, _ => some (a, { l with buffer := buffer })
  | [], a :: wire =>
    some (a, { l with
      buffer := wire.take a.whole
      wire := wire.drop a.whole
      part := a.part && !(wire.drop a.whole).isEmpty })
  | [], [] => none

/-- `_buffer.consume(_buffer.size())`.  Where the beginning of a request is thrown away, `torn` says how the rest of
the wire reads. -/
def consume (torn : List Arrival → List Arrival) (l : Line) : Line :=
  { l with
    wire := if l.part then torn l.wire else l.wire
    buffer := []
    part := false
    lost := l.lost + l.buffer.length + l.part.toNat }

/-- A read. -/
def read (parse : String → Except ParseFault Json) (l : Line) : Option Line :=
  l.take.bind fun (a, l) =>
    (Session.step parse .read { l.session with sent := [a.sent] }).map fun s =>
      { l with session := s, brought := l.brought ++ [a] }

/-- The end of a write. -/
def wrote (parse : String → Except ParseFault Json) (torn : List Arrival → List Arrival) (l : Line) : Option Line :=
  match l.session.writing with
  | [] => none
  | w :: _ =>
    (Session.step parse .wrote l.session).map fun s =>
      { (if w.response.keep_alive then l.consume torn else l) with session := s }

/-- One event, if it can happen. -/
def step (parse : String → Except ParseFault Json) (torn : List Arrival → List Arrival) (e : Event) (l : Line) :
    Option Line :=
  match e with
  | .read => l.read parse
  | .wrote => l.wrote parse torn
  | e => (Session.step parse e l.session).map fun s => { l with session := s }

/-- A list of events, one after the other. -/
def exec (parse : String → Except ParseFault Json) (torn : List Arrival → List Arrival) (es : List Event) (l : Line) :
    Option Line :=
  tries (step parse torn) es l

/-- **One response for each request**, none of which has been thrown away. -/
structure OneEach (l : Line) : Prop where
  session : l.session.OneEach
  lost : l.lost = 0

end Line

/-! ### Sessions and what is to come -/

section Before

variable {parse : String → Except ParseFault Json} {s s' : Session} {xs ys : List (HttpRequest × Call)}

/-- The session with other requests to come. -/
def Session.before (xs : List (HttpRequest × Call)) (s : Session) : Session := { s with sent := xs }

theorem Session.handle_request_before (i : ℕ) (call : Call) (s : Session) :
    (s.before xs).handle_request parse i call = (s.handle_request parse i call).before xs := by
  rw [handle_request_eq, handle_request_eq, show (s.before xs).request = s.request from rfl]
  cases reply parse s.request call with
  | called resp =>
    cases h : s.responded with
    | false =>
      rw [Reply.perform, Reply.perform, callback_first h, callback_first (show (s.before xs).responded = false from h)]
      rfl
    | true =>
      rw [Reply.perform, Reply.perform, callback_later h, callback_later (show (s.before xs).responded = true from h)]
  | _ => rfl

/-- A read takes the first request to come, and does not look at the others. -/
theorem Session.read_before (r : HttpRequest × Call) :
    Session.step parse .read (s.before (r :: xs)) = (Session.step parse .read (s.before [r])).map (before xs) := by
  cases h : s.reading with
  | false => simp [Session.step, before, h]
  | true =>
    have hread : ∀ ys, Session.step parse .read (s.before (r :: ys)) =
        some ((s.deliver r.1 ys).handle_request parse s.delivered r.2) := fun ys =>
      step_read.2 ⟨r.1, r.2, ys, rfl, h, rfl⟩
    rw [hread, hread, Option.map_some, ← handle_request_before]
    rfl

/-- No other event looks at them. -/
theorem Session.step_before {e : Event} (he : e ≠ .read) :
    Session.step parse e (s.before xs) = (Session.step parse e s).map (before xs) := by
  cases e with
  | read => exact absurd rfl he
  | callback i res =>
    by_cases hi : i ∈ s.kept
    · cases h : s.responded <;> simp [Session.step, before, hi, callback, h]
    · simp [Session.step, before, hi]
  | strand => cases h : s.posted <;> simp [Session.step, before, h, send_response, async_write]
  | wrote =>
    cases h : s.writing with
    | nil => simp [Session.step, before, h]
    | cons w writing => cases hk : w.response.keep_alive <;> simp [Session.step, before, h, on_write, hk, do_read]

end Before

/-! ### A line and its session -/

namespace Line

variable {parse : String → Except ParseFault Json} {torn : List Arrival → List Arrival} {as : List Arrival}
  {es : List Event} {e : Event} {l l' : Line}

/-- The session, as if everything that has been sent would come to it. -/
def full (l : Line) : Session := l.session.before ((l.buffer ++ l.wire).map Arrival.sent)

theorem take_eq_some {a : Arrival} (h : l.take = some (a, l')) :
    l.buffer ++ l.wire = a :: (l'.buffer ++ l'.wire) ∧ l'.session = l.session ∧ l'.lost = l.lost ∧
      l'.brought = l.brought := by
  unfold take at h
  split at h
  · rename_i buffer hbuffer
    obtain ⟨rfl, rfl⟩ := Prod.mk.inj (Option.some.inj h)
    exact ⟨by rw [hbuffer]; rfl, rfl, rfl, rfl⟩
  · rename_i wire hbuffer hwire
    obtain ⟨rfl, rfl⟩ := Prod.mk.inj (Option.some.inj h)
    refine ⟨?_, rfl, rfl, rfl⟩
    rw [hbuffer, hwire, List.nil_append, List.take_append_drop]
  · cases h

theorem take_eq_none (h : l.take = none) : l.buffer ++ l.wire = [] := by
  unfold take at h
  split at h
  · cases h
  · cases h
  · rename_i hbuffer hwire
    rw [hbuffer, hwire]
    rfl

theorem step_read (h : step parse torn .read l = some l') :
    ∃ a m s, l.take = some (a, m) ∧ Session.step parse .read (l.session.before [a.sent]) = some s ∧
      l' = { m with session := s, brought := m.brought ++ [a] } := by
  obtain ⟨⟨a, m⟩, htake, h⟩ := Option.bind_eq_some_iff.1 h
  obtain ⟨s, hs, rfl⟩ := Option.map_eq_some_iff.1 h
  rw [(take_eq_some htake).2.1] at hs
  exact ⟨a, m, s, htake, hs, rfl⟩

theorem step_wrote : step parse torn .wrote l = some l' ↔
    ∃ w writing, l.session.writing = w :: writing ∧ l' = { (if w.response.keep_alive then l.consume torn else l) with
      session := Session.on_write w.response.keep_alive
        { l.session with writing := writing, written := l.session.written ++ [w] } } := by
  cases hw : l.session.writing with
  | nil => simp [step, wrote, hw]
  | cons w writing =>
    simp only [step, wrote, hw, Session.step, Option.map_some, Option.some.injEq, List.cons.injEq]
    constructor
    · rintro rfl
      exact ⟨w, writing, ⟨rfl, rfl⟩, rfl⟩
    · rintro ⟨_, _, ⟨rfl, rfl⟩, rfl⟩
      rfl

/-- A read is one of the session. -/
theorem read_full : (step parse torn .read l).map full = Session.step parse .read l.full := by
  cases htake : l.take with
  | none =>
    have hnone : Session.step parse .read l.full = none := by
      rw [full, take_eq_none htake]
      rfl
    rw [hnone, step, read, htake]
    rfl
  | some am =>
    obtain ⟨a, m⟩ := am
    obtain ⟨hsent, hsession, -⟩ := take_eq_some htake
    rw [full, hsent, List.map_cons, Session.read_before, ← hsession, step, read, htake, Option.bind_some]
    show Option.map full (Option.map _ (Session.step parse .read (m.session.before [a.sent]))) = _
    rw [Option.map_map]
    rfl

/-- So is every other event, as long as nothing is thrown away. -/
theorem step_full (h : step parse torn e l = some l') :
    (Session.step parse e l.full = some l'.full ∧ l'.lost = l.lost) ∨
      (e = .wrote ∧ l.lost < l'.lost ∧ ∃ w writing, l.session.writing = w :: writing ∧ w.response.keep_alive = true ∧
        ¬ (l.buffer = [] ∧ l.part = false)) := by
  have hother : ∀ {e' : Event}, e' ≠ .read → (Session.step parse e' l.session).map (fun s => { l with session := s }) =
      some l' → Session.step parse e' l.full = some l'.full ∧ l'.lost = l.lost := by
    intro e' he' h
    obtain ⟨s, hs, rfl⟩ := Option.map_eq_some_iff.1 h
    rw [full, Session.step_before he', hs]
    exact ⟨rfl, rfl⟩
  cases e with
  | read =>
    obtain ⟨a, m, s, htake, -, rfl⟩ := step_read h
    exact .inl ⟨read_full.symm.trans (congrArg (Option.map full) h), (take_eq_some htake).2.2.1⟩
  | callback i res => exact .inl (hother (by rintro ⟨⟩) h)
  | strand => exact .inl (hother (by rintro ⟨⟩) h)
  | wrote =>
    obtain ⟨w, writing, hw, rfl⟩ := step_wrote.1 h
    cases hk : w.response.keep_alive with
    | false =>
      refine .inl ⟨(Session.step_before (e := .wrote) (by rintro ⟨⟩)).trans ?_, rfl⟩
      rw [Session.step_wrote.2 ⟨w, writing, hw, rfl⟩, hk]
      rfl
    | true =>
      by_cases hbuffer : l.buffer = [] ∧ l.part = false
      · refine .inl ⟨(Session.step_before (e := .wrote) (by rintro ⟨⟩)).trans ?_, ?_⟩
        · rw [Session.step_wrote.2 ⟨w, writing, hw, rfl⟩, hk, full, consume, hbuffer.1, hbuffer.2]
          rfl
        · rw [if_pos rfl, consume, hbuffer.1, hbuffer.2]
          rfl
      · refine .inr ⟨rfl, ?_, w, writing, hw, hk, hbuffer⟩
        show l.lost < l.lost + l.buffer.length + l.part.toNat
        rcases not_and_or.1 hbuffer with hbuffer | hpart
        · have := List.length_pos_iff.2 hbuffer
          omega
        · rw [Bool.not_eq_false] at hpart
          rw [hpart, Bool.toNat_true]
          omega

/-- Whatever the session can do, the line can. -/
theorem step_of_full {s : Session} (h : Session.step parse e l.full = some s) :
    ∃ l', step parse torn e l = some l' := by
  have hother : ∀ {e' : Event}, e' ≠ .read → Session.step parse e' l.full = some s →
      ∃ t, Session.step parse e' l.session = some t := by
    intro e' he' h
    rw [full, Session.step_before he'] at h
    obtain ⟨t, ht, -⟩ := Option.map_eq_some_iff.1 h
    exact ⟨t, ht⟩
  cases e with
  | read =>
    rw [← show (step parse torn .read l).map full = Session.step parse .read l.full from read_full] at h
    obtain ⟨l', hl', -⟩ := Option.map_eq_some_iff.1 h
    exact ⟨l', hl'⟩
  | callback i res =>
    obtain ⟨t, ht⟩ := hother (by rintro ⟨⟩) h
    exact ⟨_, congrArg (Option.map _) ht⟩
  | strand =>
    obtain ⟨t, ht⟩ := hother (by rintro ⟨⟩) h
    exact ⟨_, congrArg (Option.map _) ht⟩
  | wrote =>
    obtain ⟨t, ht⟩ := hother (by rintro ⟨⟩) h
    obtain ⟨w, writing, hw, rfl⟩ := Session.step_wrote.1 ht
    exact ⟨_, step_wrote.2 ⟨w, writing, hw, rfl⟩⟩

theorem lost_le (h : step parse torn e l = some l') : l.lost ≤ l'.lost := by
  have hother : ∀ {o : Option Session}, o.map (fun s => { l with session := s }) = some l' → l.lost ≤ l'.lost := by
    intro o h
    obtain ⟨s, -, rfl⟩ := Option.map_eq_some_iff.1 h
    exact le_rfl
  cases e with
  | read =>
    obtain ⟨a, m, s, htake, -, rfl⟩ := step_read h
    exact (take_eq_some htake).2.2.1.ge
  | callback i res => exact hother h
  | strand => exact hother h
  | wrote =>
    obtain ⟨w, writing, -, rfl⟩ := step_wrote.1 h
    dsimp only
    split
    · exact Nat.le_trans (Nat.le_add_right _ _) (Nat.le_add_right _ _)
    · exact le_rfl

/-- **A run of the session is one of the line**, to its end, or until something is thrown away. -/
theorem exec_of_full {s : Session} (h : Session.exec parse es l.full = some s) :
    ∃ fs l', exec parse torn fs l = some l' ∧ (l'.full = s ∨ l.lost < l'.lost) := by
  induction es generalizing l with
  | nil => exact ⟨[], l, rfl, .inl (Option.some.inj h)⟩
  | cons e es ih =>
    obtain ⟨m, hm, h⟩ := tries_cons_eq_some.1 h
    obtain ⟨l₁, hl₁⟩ : ∃ l₁, step parse torn e l = some l₁ := step_of_full hm
    rcases step_full hl₁ with ⟨hfull, -⟩ | ⟨-, hlost, -⟩
    · obtain rfl := Option.some.inj (hm.symm.trans hfull)
      obtain ⟨fs, l', hl', hend⟩ := ih h
      refine ⟨e :: fs, l', tries_cons_eq_some.2 ⟨l₁, hl₁, hl'⟩, hend.imp_right fun hlost => ?_⟩
      exact Nat.lt_of_le_of_lt (lost_le hl₁) hlost
    · exact ⟨[e], l₁, tries_cons_eq_some.2 ⟨l₁, hl₁, rfl⟩, .inr hlost⟩

end Line

/-! ### Requests that keep the connection -/

namespace Session

variable {parse : String → Except ParseFault Json} {rs : List (HttpRequest × Call)} {es : List Event} {e : Event}
  {s s' : Session}

theorem handle_request_frame (i : ℕ) (call : Call) (s : Session) :
    (s.handle_request parse i call).delivered = s.delivered ∧ (s.handle_request parse i call).reading = s.reading := by
  rw [handle_request_eq]
  cases reply parse s.request call with
  | called resp => exact ⟨(callback_frame i resp s).2.2.2.1, (callback_frame i resp s).1⟩
  | _ => exact ⟨rfl, rfl⟩

/-- Callbacks and the strand do not read. -/
theorem step_frame (h : Session.step parse e s = some s') (hread : e ≠ .read) (hwrote : e ≠ .wrote) :
    s'.delivered = s.delivered ∧ s'.reading = s.reading := by
  cases e with
  | read => exact absurd rfl hread
  | callback i res =>
    obtain ⟨-, rfl⟩ := step_callback.1 h
    exact ⟨(callback_frame ..).2.2.2.1, (callback_frame ..).1⟩
  | strand =>
    obtain ⟨p, posted, -, rfl⟩ := step_strand.1 h
    exact ⟨rfl, rfl⟩
  | wrote => exact absurd rfl hwrote

/-- A request that is past: another read has been started after it. -/
def Past (s : Session) (i : ℕ) : Prop := i + 1 < s.delivered ∨ i + 1 = s.delivered ∧ s.reading = true

theorem Past.of_frame {i : ℕ} (h : s'.Past i) (hd : s'.delivered = s.delivered) (hr : s'.reading = s.reading) :
    s.Past i := by
  rw [Past, hd, hr] at h
  exact h

/-- What a read makes past was so before. -/
theorem Past.of_read {i : ℕ} (h : s'.Past i) (hd : s'.delivered = s.delivered + 1) (hr : s'.reading = false)
    (hreading : s.reading = true) : s.Past i := by
  rcases h with h | ⟨-, h⟩
  · rcases Nat.lt_or_ge (i + 1) s.delivered with hlt | hge
    · exact .inl hlt
    · exact .inr ⟨by omega, hreading⟩
  · cases hr.symm.trans h

/-- The requests that are past keep the connection. -/
def Keeps (rs : List (HttpRequest × Call)) (s : Session) : Prop :=
  ∀ i r, rs[i]? = some r → s.Past i → r.1.keep_alive = true

/-- The request that a write ends. -/
theorem Inv.current (h : Inv parse s) (hm : Matching parse rs es s) {w : Write} {writing : List Write}
    (hwriting : s.writing = w :: writing) :
    s.reading = false ∧ ∃ i call, s.delivered = i + 1 ∧ rs[i]? = some (s.request, call) ∧
      w.response.keep_alive = s.request.keep_alive := by
  cases h.stage with
  | idle hp => cases hwriting.symm.trans (pending_eq_nil.1 hp).2.2
  | waiting _ _ hwr => cases hwriting.symm.trans hwr
  | posted _ _ _ _ hwr => cases hwriting.symm.trans hwr
  | writing v hv _ hkeep _ _ hreading =>
    obtain ⟨rfl, -⟩ := List.cons.inj (hwriting.symm.trans hv)
    obtain ⟨i, call, hi, hr⟩ := hm.request hreading
    exact ⟨hreading, i, call, hi, hr, hkeep⟩

theorem Keeps.step (h : Keeps rs s) (hi : Inv parse s) (hm : Matching parse rs es s)
    (hs : Session.step parse e s = some s') : Keeps rs s' := by
  intro i r hr hpast
  cases e with
  | read =>
    obtain ⟨r', call, sent, -, hreading, rfl⟩ := step_read.1 hs
    obtain ⟨hd, hread⟩ := @handle_request_frame parse s.delivered call (s.deliver r' sent)
    exact h i r hr (hpast.of_read hd hread hreading)
  | callback k res =>
    obtain ⟨hd, hread⟩ := step_frame hs (by rintro ⟨⟩) (by rintro ⟨⟩)
    exact h i r hr (hpast.of_frame hd hread)
  | strand =>
    obtain ⟨hd, hread⟩ := step_frame hs (by rintro ⟨⟩) (by rintro ⟨⟩)
    exact h i r hr (hpast.of_frame hd hread)
  | wrote =>
    obtain ⟨w, writing, hwriting, rfl⟩ := step_wrote.1 hs
    obtain ⟨-, j, call, hj, hreq, hkeep⟩ := hi.current hm hwriting
    cases hk : w.response.keep_alive with
    | false =>
      rw [hk] at hpast
      exact h i r hr hpast
    | true =>
      rw [hk] at hpast
      rcases hpast with hlt | ⟨heq, -⟩
      · exact h i r hr (.inl hlt)
      · obtain rfl : i = j := Nat.succ.inj (heq.trans hj)
        obtain rfl := Option.some.inj (hr.symm.trans hreq)
        exact hkeep.symm.trans hk

theorem keeps_of_run (h : Session.exec parse es (start rs) = some s)
    (hleft : (served rs).countP (callsBack parse) ≤ 1) :
    Keeps rs s := by
  have hrun := tries_history (I := fun es s => Inv parse s ∧ Matching parse rs es s ∧ Keeps rs s)
    (fun _ _ _ _ hI hs => ⟨inv_step hI.1 hs, hI.2.1.step hs, hI.2.2.step hI.1 hI.2.1 hs⟩) h
  refine (hrun ⟨inv_start hleft, matching_start parse rs, fun i r _ hpast => ?_⟩).2.2
  rcases hpast with hlt | ⟨heq, -⟩
  · exact absurd hlt (Nat.not_lt_zero _)
  · cases heq

end Session

/-- A request is served if all before it keep the connection. -/
theorem lt_length_served {rs : List (HttpRequest × Call)} {i : ℕ} (hi : i + 1 < rs.length)
    (h : ∀ k ≤ i, ∀ r, rs[k]? = some r → r.1.keep_alive = true) : i + 1 < (served rs).length := by
  induction rs generalizing i with
  | nil => cases hi
  | cons r rs ih =>
    rw [served, h 0 (Nat.zero_le i) r rfl, if_pos rfl]
    cases i with
    | zero =>
      cases rs with
      | nil => simp at hi
      | cons r' rs =>
        rw [served]
        split <;> simp
    | succ i =>
      exact Nat.succ_lt_succ (ih (Nat.lt_of_succ_lt_succ hi) fun k hk r hr => h (k + 1) (Nat.succ_le_succ hk) r hr)

theorem length_served_le (rs : List (HttpRequest × Call)) : (served rs).length ≤ rs.length := by
  induction rs with
  | nil => exact le_rfl
  | cons r rs ih =>
    rw [served]
    split
    · exact Nat.succ_le_succ ih
    · exact Nat.succ_le_succ (Nat.zero_le _)

/-! ### Lines on which nothing is thrown away -/

namespace Line

variable {parse : String → Except ParseFault Json} {torn : List Arrival → List Arrival} {as : List Arrival}
  {es : List Event} {e : Event} {l l' : Line}

/-- Nothing has been thrown away so far. -/
structure Whole (as : List Arrival) (l : Line) : Prop where
  split : l.brought ++ (l.buffer ++ l.wire) = as
  delivered : l.brought.length = l.session.delivered
  /-- A read starts with an empty buffer. -/
  reading : l.session.reading = true → l.buffer = [] ∧ l.part = false
  /-- What is in the buffer has come with the last request. -/
  held : ∀ i a, as[i]? = some a → i + 1 = l.session.delivered → l.session.reading = false →
    ((l.buffer = [] ∧ l.part = false) ↔ (i + 1 < as.length → a.Alone))
  /-- The requests that are past came alone. -/
  alone : ∀ i a, as[i]? = some a → i + 1 < as.length → l.session.Past i → a.Alone

theorem whole_start (as : List Arrival) : Whole as (start as) := by
  refine ⟨rfl, rfl, fun _ => ⟨rfl, rfl⟩, fun i a _ hi _ => (nomatch hi), fun i a _ _ hpast => ?_⟩
  rcases hpast with hlt | ⟨heq, -⟩
  · exact absurd hlt (Nat.not_lt_zero _)
  · cases heq

/-- What a read leaves in the buffer is nothing exactly if the request comes alone, or is the last. -/
theorem take_alone {a : Arrival} (h : l.take = some (a, l')) (hbuffer : l.buffer = []) :
    (l'.buffer = [] ∧ l'.part = false) ↔ (l'.buffer ++ l'.wire ≠ [] → a.Alone) := by
  unfold take at h
  rw [hbuffer] at h
  cases hwire : l.wire with
  | nil =>
    rw [hwire] at h
    cases h
  | cons b wire =>
    rw [hwire] at h
    obtain ⟨rfl, rfl⟩ := Prod.mk.inj (Option.some.inj h)
    dsimp only
    rw [List.take_append_drop, Arrival.Alone]
    cases hrest : wire with
    | nil => simp
    | cons c rest =>
      rw [List.take_eq_nil_iff]
      constructor
      · rintro ⟨hwhole, hpart⟩ -
        obtain hwhole := hwhole.resolve_right (List.cons_ne_nil c rest)
        exact ⟨hwhole, by simpa [hwhole] using hpart⟩
      · intro halone
        obtain ⟨hwhole, hpart⟩ := halone (List.cons_ne_nil c rest)
        exact ⟨.inl hwhole, by rw [hpart, Bool.false_and]⟩

theorem Whole.read (h : Whole as l) (hs : step parse torn .read l = some l') : Whole as l' := by
  obtain ⟨a, m, s, htake, hread, rfl⟩ := step_read hs
  obtain ⟨hsplit, hsession, -, hbrought⟩ := take_eq_some htake
  obtain ⟨r, call, sent, -, hreading, rfl⟩ := Session.step_read.1 hread
  obtain ⟨hd, hr⟩ := @Session.handle_request_frame parse l.session.delivered call
    ((l.session.before [a.sent]).deliver r sent)
  have hbuffer := (h.reading hreading).1
  have hlast : as[l.session.delivered]? = some a := by
    rw [← h.split, hsplit, ← h.delivered, List.getElem?_append_right le_rfl, Nat.sub_self]
    rfl
  have hlength : l.session.delivered + 1 < as.length ↔ m.buffer ++ m.wire ≠ [] := by
    rw [← h.split, hsplit, ← h.delivered, List.length_append, List.length_cons, ← List.length_pos_iff]
    omega
  refine ⟨?_, ?_, fun hf => ?_, fun i b hb hi _ => ?_, fun i b hb hlt hpast => ?_⟩
  · dsimp only
    rw [hbrought, List.append_assoc, List.singleton_append, ← hsplit, h.split]
  · refine Eq.trans ?_ hd.symm
    rw [List.length_append, hbrought, h.delivered]
    rfl
  · exact absurd (hr.symm.trans hf) Bool.false_ne_true
  · obtain rfl : i = l.session.delivered := Nat.succ.inj (hi.trans hd)
    obtain rfl := Option.some.inj (hlast.symm.trans hb)
    have halone := take_alone htake hbuffer
    rw [hlength]
    exact halone
  · exact h.alone i b hb hlt (hpast.of_read hd hr hreading)

theorem Whole.wrote (h : Whole as l) (hs : step parse torn .wrote l = some l') (hlost : l'.lost = l.lost) :
    Whole as l' := by
  obtain ⟨w, writing, hwriting, rfl⟩ := step_wrote.1 hs
  cases hk : w.response.keep_alive with
  | false => exact ⟨h.split, h.delivered, h.reading, h.held, h.alone⟩
  | true =>
    rw [hk] at hlost
    have hnone : l.buffer.length = 0 ∧ l.part.toNat = 0 := by
      have : l.lost + l.buffer.length + l.part.toNat = l.lost := hlost
      omega
    have hbuffer : l.buffer = [] := List.eq_nil_of_length_eq_zero hnone.1
    have hpart : l.part = false := by simpa using hnone.2
    refine ⟨?_, h.delivered, fun _ => ⟨rfl, rfl⟩, fun i a _ _ hf => (nomatch hf), fun i a ha hlt hpast => ?_⟩
    · rw [if_pos rfl, consume, hpart]
      exact (congrArg (fun buffer => l.brought ++ (buffer ++ l.wire)) hbuffer).symm.trans h.split
    · rcases hpast with hpast | ⟨heq, -⟩
      · exact h.alone i a ha hlt (.inl hpast)
      · cases hr : l.session.reading with
        | true => exact h.alone i a ha hlt (.inr ⟨heq, hr⟩)
        | false => exact (h.held i a ha heq hr).1 ⟨hbuffer, hpart⟩ hlt

theorem Whole.step (h : Whole as l) (hs : step parse torn e l = some l') (hlost : l'.lost = l.lost) : Whole as l' := by
  have hother : ∀ e' : Event, e' ≠ .read → e' ≠ .wrote →
      (Session.step parse e' l.session).map (fun s => { l with session := s }) = some l' → Whole as l' := by
    intro e' hread hwrote hs
    obtain ⟨s, hstep, rfl⟩ := Option.map_eq_some_iff.1 hs
    obtain ⟨hd, hr⟩ := Session.step_frame hstep hread hwrote
    refine ⟨h.split, h.delivered.trans hd.symm, fun hf => h.reading (hr.symm.trans hf), fun i a ha hi hf => ?_,
      fun i a ha hlt hpast => h.alone i a ha hlt (hpast.of_frame hd hr)⟩
    exact h.held i a ha (hi.trans hd) (hr.symm.trans hf)
  cases e with
  | read => exact h.read hs
  | callback i res => exact hother (.callback i res) (by rintro ⟨⟩) (by rintro ⟨⟩) hs
  | strand => exact hother .strand (by rintro ⟨⟩) (by rintro ⟨⟩) hs
  | wrote => exact h.wrote hs hlost

end Line

/-! ### Runs -/

namespace Session

variable {parse : String → Except ParseFault Json} {es : List Event} {e : Event} {s s' : Session}

theorem handle_request_sent (i : ℕ) (call : Call) (s : Session) : (s.handle_request parse i call).sent = s.sent := by
  have hsame : s.handle_request parse i call = (s.handle_request parse i call).before s.sent := handle_request_before ..
  have hsent := congrArg Session.sent hsame
  exact hsent

/-- Only a read takes a request. -/
theorem step_sent (h : Session.step parse e s = some s') (he : e ≠ .read) : s'.sent = s.sent := by
  have hsame : some s' = some (s'.before s.sent) := by
    rw [← Option.map_some, ← h]
    exact step_before he
  have hsent := congrArg Session.sent (Option.some.inj hsame)
  exact hsent

theorem step_append (h : Session.step parse e s = some s') (ys : List (HttpRequest × Call)) :
    Session.step parse e (s.before (s.sent ++ ys)) = some (s'.before (s'.sent ++ ys)) := by
  by_cases he : e = .read
  · subst he
    obtain ⟨r, call, sent, hsent, hreading, rfl⟩ := step_read.1 h
    rw [hsent, handle_request_sent, ← handle_request_before]
    exact step_read.2 ⟨r, call, sent ++ ys, rfl, hreading, rfl⟩
  · rw [step_before he, h, step_sent h he]
    rfl

theorem exec_append (h : Session.exec parse es s = some s') (ys : List (HttpRequest × Call)) :
    Session.exec parse es (s.before (s.sent ++ ys)) = some (s'.before (s'.sent ++ ys)) := by
  induction es generalizing s with
  | nil =>
    obtain rfl := Option.some.inj h
    rfl
  | cons e es ih =>
    obtain ⟨m, hm, h⟩ := tries_cons_eq_some.1 h
    exact tries_cons_eq_some.2 ⟨_, step_append hm ys, ih h⟩

end Session

namespace Line

variable {parse : String → Except ParseFault Json} {torn : List Arrival → List Arrival} {as : List Arrival}
  {es : List Event} {l : Line}

/-- **The session of a line has run on the requests that reads have brought.** -/
theorem session_of_run (h : exec parse torn es (start as) = some l) :
    l.session.sent = [] ∧ Session.exec parse es (Session.start (l.brought.map Arrival.sent)) = some l.session := by
  refine tries_history (I := fun es l => l.session.sent = [] ∧
    Session.exec parse es (Session.start (l.brought.map Arrival.sent)) = some l.session) ?_ h ⟨rfl, rfl⟩
  rintro es l e l' ⟨hsent, hrun⟩ hs
  have hother : ∀ {e' : Event}, e' ≠ .read → Session.step parse e' l.session = some l'.session →
      l'.brought = l.brought → l'.session.sent = [] ∧
        Session.exec parse (es ++ [e']) (Session.start (l'.brought.map Arrival.sent)) = some l'.session := by
    intro e' he' hstep hbrought
    rw [hbrought, Session.step_sent hstep he']
    exact ⟨hsent, tries_append_eq_some.2 ⟨_, hrun, tries_cons_eq_some.2 ⟨_, hstep, rfl⟩⟩⟩
  cases e with
  | read =>
    obtain ⟨a, m, s, htake, hread, rfl⟩ := step_read hs
    have happend := Session.exec_append hrun [a.sent]
    rw [hsent, List.nil_append] at happend
    refine ⟨?_, tries_append_eq_some.2 ⟨_, ?_, tries_cons_eq_some.2 ⟨_, hread, rfl⟩⟩⟩
    · obtain ⟨r, call, sent, hone, -, rfl⟩ := Session.step_read.1 hread
      exact (Session.handle_request_sent ..).trans (List.cons.inj hone).2.symm
    · dsimp only
      rw [(take_eq_some htake).2.2.2, List.map_append]
      exact happend
  | callback i res =>
    obtain ⟨s, hstep, rfl⟩ := Option.map_eq_some_iff.1 hs
    exact hother (by rintro ⟨⟩) hstep rfl
  | strand =>
    obtain ⟨s, hstep, rfl⟩ := Option.map_eq_some_iff.1 hs
    exact hother (by rintro ⟨⟩) hstep rfl
  | wrote =>
    obtain ⟨w, writing, hwriting, rfl⟩ := step_wrote.1 hs
    refine hother (by rintro ⟨⟩) (Session.step_wrote.2 ⟨w, writing, hwriting, rfl⟩) ?_
    dsimp only
    split <;> rfl

/-- As long as nothing is thrown away, on all that is sent. -/
theorem whole_of_run (h : exec parse torn es (start as) = some l) (hlost : l.lost = 0) :
    Whole as l ∧ Session.exec parse es (Session.start (as.map Arrival.sent)) = some l.full := by
  refine tries_history (I := fun es l => l.lost = 0 →
    Whole as l ∧ Session.exec parse es (Session.start (as.map Arrival.sent)) = some l.full) ?_ h
    (fun _ => ⟨whole_start as, rfl⟩) hlost
  intro es l e l' hI hs hlost
  have hzero : l.lost = 0 := Nat.eq_zero_of_le_zero (hlost ▸ lost_le hs)
  obtain ⟨hw, hrun⟩ := hI hzero
  rcases step_full hs with ⟨hfull, hsame⟩ | ⟨-, hlt, -⟩
  · exact ⟨hw.step hs hsame, tries_append_eq_some.2 ⟨_, hrun, tries_cons_eq_some.2 ⟨_, hfull, rfl⟩⟩⟩
  · omega

/-- If the requests that are served come alone, nothing is thrown away: only a request that keeps the connection is
followed by another read, so it is served and not the last. -/
theorem lost_eq_zero (hleft : (served (as.map Arrival.sent)).countP (callsBack parse) ≤ 1)
    (halone : ∀ i a, as[i]? = some a → i + 1 < (served (as.map Arrival.sent)).length → a.Alone)
    (h : exec parse torn es (start as) = some l) : l.lost = 0 := by
  refine (tries_history (I := fun es l => exec parse torn es (start as) = some l ∧ l.lost = 0) ?_ h ⟨rfl, rfl⟩).2
  rintro es l e l' ⟨h, hlost⟩ hs
  refine ⟨tries_append_eq_some.2 ⟨l, h, tries_cons_eq_some.2 ⟨l', hs, rfl⟩⟩, ?_⟩
  obtain ⟨hw, hrun⟩ := whole_of_run h hlost
  rcases step_full hs with ⟨-, hsame⟩ | ⟨-, -, w, writing, hwriting, hkeep, hnot⟩
  · exact hsame.trans hlost
  -- a request that is served and followed by another one, and did not come alone
  refine absurd ?_ hnot
  obtain ⟨hreading, i, call, hi, hr, hkeep'⟩ := (Session.inv_of_run hrun hleft).current
    (Session.matching_of_run hrun) (show l.full.writing = w :: writing from hwriting)
  rw [List.getElem?_map] at hr
  obtain ⟨a, ha, -⟩ := Option.map_eq_some_iff.1 hr
  refine (hw.held i a ha hi.symm hreading).2 fun hlt => halone i a ha ?_
  refine lt_length_served (by rwa [List.length_map]) fun k hk r hr' => ?_
  rcases Nat.lt_or_eq_of_le hk with hk | rfl
  · exact Session.keeps_of_run hrun hleft k r hr' (.inl (by omega))
  · rw [List.getElem?_map] at hr'
    obtain rfl := Option.some.inj (hr'.symm.trans hr)
    exact hkeep'.symm.trans hkeep

theorem OneEach.of_full (h : l.full.OneEach) : l.session.OneEach := ⟨h.order, h.answered⟩

theorem OneEach.full (h : l.OneEach) : l.full.OneEach := ⟨h.session.order, h.session.answered⟩

/-- **One response for each request**, in every run of a connection, exactly as long as at most one of the requests
that it serves comes to a callback and each of them but the last comes alone. -/
theorem oneEach_iff (parse : String → Except ParseFault Json) (torn : List Arrival → List Arrival) (as : List Arrival) :
    (∀ es l, exec parse torn es (start as) = some l → l.OneEach) ↔
      (served (as.map Arrival.sent)).countP (callsBack parse) ≤ 1 ∧
        ∀ i a, as[i]? = some a → i + 1 < (served (as.map Arrival.sent)).length → a.Alone := by
  constructor
  · intro h
    -- a run of the session is one of the line, since nothing is thrown away
    have hlift : ∀ es s, Session.exec parse es (start as).full = some s → s.OneEach ∧ ∃ l, Whole as l ∧ l.full = s := by
      intro es s hes
      obtain ⟨fs, l, hfs, hend⟩ :
          ∃ fs l, exec parse torn fs (start as) = some l ∧ (l.full = s ∨ (start as).lost < l.lost) := exec_of_full hes
      have hone := h fs l hfs
      obtain rfl := hend.resolve_right (by rw [hone.lost]; exact Nat.not_lt_zero _)
      exact ⟨hone.full, l, (whole_of_run hfs hone.lost).1, rfl⟩
    have hleft : (served (as.map Arrival.sent)).countP (callsBack parse) ≤ 1 := by
      by_contra hleft
      obtain ⟨es, s, hes, hs⟩ := Session.exists_not_oneEach (not_le.1 hleft)
      exact hs (hlift es s hes).1
    refine ⟨hleft, fun i a ha hi => ?_⟩
    obtain ⟨es, s, b, hes, hb⟩ := (Session.between_start (as.map Arrival.sent)).goes hleft hi
    obtain ⟨-, l, hw, rfl⟩ := hlift es s hes
    have hlt : i + 1 < as.length := by
      have := length_served_le (as.map Arrival.sent)
      rw [List.length_map] at this
      omega
    -- the session has `i + 1` requests behind it
    have hrest : (as.drop l.session.delivered).length = (as.drop (i + 1)).length := by
      have hsent := congrArg List.length hb.sent
      rw [← List.map_drop, List.length_map] at hsent
      rw [← hsent, ← hw.delivered]
      nth_rewrite 1 [← hw.split]
      rw [List.drop_left]
      exact (List.length_map _).symm
    rw [List.length_drop, List.length_drop] at hrest
    exact hw.alone i a ha hlt (.inr ⟨by omega, hb.reading⟩)
  · rintro ⟨hleft, halone⟩ es l h
    have hlost := lost_eq_zero hleft halone h
    exact ⟨OneEach.of_full (Session.inv_of_run (whole_of_run h hlost).2 hleft).oneEach, hlost⟩

/-- Two hooks on one connection, the second of which is sent when the first is answered. -/
def twoHooks : Line := start [⟨Session.playDone, .returns, 0, false⟩, ⟨Session.playDone, .returns, 0, false⟩]

/-- Both are read, and the first is answered. -/
def hooksRun : List Event := [.read, .strand, .wrote, .read]

/-- A parser that knows one text. -/
def parseEmpty (text : String) : Except ParseFault Json :=
  if text = "{}" then .ok (.object []) else .error .parse_error

/-- The second one is handled, has no response, and nothing more can happen on the connection. -/
theorem second_hook_unanswered :
    ∃ l, exec parseEmpty id hooksRun twoHooks = some l ∧
      l.session.delivered = 2 ∧ l.session.written.length = 1 ∧ l.lost = 0 ∧ ¬ l.OneEach ∧
      ∀ e, step parseEmpty id e l = none := by
  refine ⟨{
    session := {
      sent := []
      request := Session.playDone
      responded := true
      delivered := 2
      written := [⟨0, ⟨11, 200, true, .result 0 "success"⟩⟩] }
    wire := []
    brought := [⟨Session.playDone, .returns, 0, false⟩, ⟨Session.playDone, .returns, 0, false⟩] },
    by decide +kernel, rfl, rfl, rfl, ?_, ?_⟩
  · exact fun h => Session.not_oneEach rfl rfl rfl h.session
  · intro e
    cases e <;> rfl

/-- **Every response is that of its request.**  Whatever is sent on a connection, whatever of it is read ahead and
thrown away, and whenever and however often callbacks are called: a response has the version and the connection flag of
the request it belongs to, and its status and body are those the request comes to by itself, or those of a result that
the callback of this request was called with.  As long as nothing is thrown away the requests are those sent. -/
theorem written_match (parse : String → Except ParseFault Json) (torn : List Arrival → List Arrival) (as : List Arrival)
    (h : exec parse torn es (start as) = some l) :
    (∀ w ∈ l.session.written, ∃ a, l.brought[w.origin]? = some a ∧
      Answers parse (fun res => .callback w.origin res ∈ es) a.sent w.response) ∧
    (l.lost = 0 → l.brought <+: as) := by
  refine ⟨fun w hw => ?_, fun hlost => ⟨_, (whole_of_run h hlost).1.split⟩⟩
  obtain ⟨r, hr, hans⟩ := (Session.matching_of_run (session_of_run h).2).written w hw
  rw [List.getElem?_map] at hr
  obtain ⟨a, ha, rfl⟩ := Option.map_eq_some_iff.1 hr
  exact ⟨a, ha, hans⟩

/-- The first of the two hooks, and its response. -/
theorem playDone_match : ∃ l, exec parseEmpty id hooksRun twoHooks = some l ∧
    (∃ w ∈ l.session.written, ∃ a, l.brought[w.origin]? = some a ∧
      Answers parseEmpty (fun res => .callback w.origin res ∈ hooksRun) a.sent w.response) ∧
    l.brought <+: [⟨Session.playDone, .returns, 0, false⟩, ⟨Session.playDone, .returns, 0, false⟩] := by
  have hrun : ∃ l, exec parseEmpty id hooksRun twoHooks = some l ∧ (l.session.written.length, l.lost) = (1, 0) :=
    Option.map_eq_some_iff.1 (by decide +kernel)
  obtain ⟨l, hrun, hend⟩ := hrun
  obtain ⟨hlength, hlost⟩ := Prod.mk.inj hend
  obtain ⟨hmatch, hprefix⟩ := written_match _ _ _ hrun
  obtain ⟨w, hw⟩ := List.exists_mem_of_length_eq_add_one hlength
  exact ⟨l, hrun, ⟨w, hw, hmatch w hw⟩, hprefix hlost⟩

end Line

end StreamGate.Hook
