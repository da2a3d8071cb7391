import StreamGate.Lib.Counters
import StreamGate.Lib.Runs

/-!
# The connection pool of the database

`DBManager` as a system of calls of `acquireConnection`, `releaseConnection` and `shutdown` beside one
another, after the constructor.  A step is one atomic operation, or what happens under `_mutex` between two of
them.  The counters are `int`s that wrap around, as `std::atomic<int>` does.

Not in the model: what a connection is, and time.  A connection is opened or not, valid or not, and a call that
sleeps in `wait_until` may wake up, or give up, at any time.
-/

namespace StreamGate.DB

/-- A connection, by the order in which they were opened. -/
abbrev Conn := ℕ

/-- `DBManager::Config`, as far as the pool reads it. -/
structure Config where
  minSize : Int32 := 5
  maxSize : Int32 := 20

/-- Where a call of `acquireConnection` is. -/
inductive Acquire where
  /-- Before it looks at `_shutdown` for the first time. -/
  | entry
  /-- Before it takes the mutex. -/
  | lock
  /-- At the top of its loop, with the mutex. -/
  | top
  /-- `_shutdown` was not set; with the mutex. -/
  | examine
  /-- It has taken a connection out of the pool and released the mutex. -/
  | validate (c : Conn)
  /-- The connection is not valid, but still counted. -/
  | invalid
  /-- The pool was empty; with the mutex. -/
  | read
  /-- Before `compare_exchange_weak`; with the mutex. -/
  | grow (current : Int32)
  /-- A place is reserved, the mutex released. -/
  | create
  /-- The connection was not opened, the place is still reserved. -/
  | refused
  /-- Before it takes the mutex again. -/
  | relock
  /-- Before `wait_until`, with the mutex. -/
  | wait
  /-- In `wait_until`, without the mutex. -/
  | asleep
  /-- Back from `wait_until`, with the mutex. -/
  | woken
  /-- At `markConnectionAcquired`. -/
  | mark (c : Conn)
  | marked (c : Conn)
  | compare (c : Conn) (active : Int32)
  /-- With a connection. -/
  | acquired (c : Conn)
  /-- With a null pointer. -/
  | null
  deriving DecidableEq

/-- Where a connection is on the way out: before `_total_conns` is decremented, and in
`markConnectionDestroyed`. -/
inductive Discard where
  | sub
  | mark
  | marked
  | compare (total : Int32)
  deriving DecidableEq

/-- Where a call of `releaseConnection` is. -/
inductive Release where
  /-- At `markConnectionReleased`. -/
  | mark (c : Conn)
  | marked (c : Conn)
  /-- Before it looks at `_shutdown`. -/
  | test (c : Conn)
  | discard (c : Conn) (d : Discard)
  /-- `_shutdown` was not set; before it takes the mutex. -/
  | push (c : Conn)
  | done
  deriving DecidableEq

/-- Where a call of `shutdown` is. -/
inductive Shutdown where
  | lock
  /-- With the mutex. -/
  | exchange
  /-- In the loop over the idle connections, with the mutex. -/
  | drain
  | discard (d : Discard)
  | done
  deriving DecidableEq

/-- A call of one of the three. -/
inductive Call where
  | acquire (a : Acquire)
  | release (r : Release)
  | shutdown (s : Shutdown)
  deriving DecidableEq

/-- The call has returned. -/
def Call.returned : Call → Bool
  | acquire (.acquired _) | acquire .null | release .done | shutdown .done => true
  | _ => false

/-- The manager, with the calls there have been. -/
structure DBManager where
  shutdown : Bool
  pool : List Conn
  /-- The call that has the mutex. -/
  mutex : Option ℕ
  total_conns : Int32
  active_conns : Int32
  wait_threads : Int32
  /-- How often the loop of the constructor has still to go around. -/
  remaining : ℕ
  /-- How many connections were opened. -/
  opened : ℕ
  /-- The connections that callers have. -/
  lent : List Conn
  /-- An assertion has failed. -/
  failed : Bool
  calls : List Call

/-- The constructor, up to its loop. -/
def construct (config : Config) : Option DBManager :=
  if config.minSize < 0 ∨ config.maxSize < config.minSize then none
  else some
    { shutdown := false
      pool := []
      mutex := none
      total_conns := 0
      active_conns := 0
      wait_threads := 0
      remaining := config.minSize.toInt.toNat
      opened := 0
      lent := []
      failed := false
      calls := [] }

/-- What happens next. -/
inductive Event where
  /-- The loop of the constructor goes around; `ok` if the connection is opened. -/
  | prefill (ok : Bool)
  | acquire
  | release (conn : Option Conn)
  | shutdown
  /-- The next step of a call.  `ok` if the connection is valid, if it is opened, if
  `compare_exchange_weak` does not fail spuriously, if there is still time to wait. -/
  | next (k : ℕ) (ok : Bool)
  deriving DecidableEq

namespace DBManager

/-- `assert`. -/
def assert (p : Prop) [Decidable p] (m : DBManager) : DBManager := { m with failed := m.failed || !decide p }

/-- Around the loop of the constructor: a connection in the pool is counted here and once more in
`markConnectionCreated`. -/
def prefill (ok : Bool) (m : DBManager) : Option DBManager :=
  match m.remaining with
  | 0 => none
  | i + 1 =>
    if ok then
      some { m with
        remaining := i
        opened := m.opened + 1
        pool := m.pool ++ [m.opened]
        total_conns := m.total_conns + 1 + 1 }
    else some { m with remaining := i }

/-- The predicate of `wait_until`. -/
def awaited (m : DBManager) : Prop := m.pool ≠ [] ∨ m.shutdown = true

instance (m : DBManager) : Decidable m.awaited := inferInstanceAs (Decidable (_ ∨ _))

/-- `acquireConnection`, by the call `k`. -/
def acquireConnection (config : Config) (k : ℕ) (ok : Bool) (m : DBManager) :
    Acquire → Option (Acquire × DBManager)
  | .entry => some (if m.shutdown then .null else .lock, m)
  | .lock => if m.mutex = none then some (.top, { m with mutex := some k }) else none
  | .top => if m.shutdown then some (.null, { m with mutex := none }) else some (.examine, m)
  | .examine =>
    let m := m.assert (Int32.ofNat m.pool.length ≤ m.total_conns)
    match m.pool with
    | c :: pool => some (.validate c, { m with pool := pool, mutex := none })
    | [] => some (.read, m)
  | .validate c => some (if ok then .mark c else .invalid, m)
  | .invalid => some (.lock, { m with total_conns := m.total_conns - 1 })
  | .read => some (if m.total_conns < config.maxSize then .grow m.total_conns else .wait, m)
  | .grow current =>
    if m.total_conns = current ∧ ok = true then
      some (.create, { m with total_conns := current + 1, mutex := none })
    else some (.wait, m)
  | .create => if ok then some (.mark m.opened, { m with opened := m.opened + 1 }) else some (.refused, m)
  | .refused => some (.relock, { m with total_conns := m.total_conns - 1 })
  | .relock => if m.mutex = none then some (.wait, { m with mutex := some k }) else none
  | .wait =>
    if m.awaited then some (.woken, m)
    else some (.asleep, { m with wait_threads := m.wait_threads + 1, mutex := none })
  | .asleep =>
    if m.mutex = none then
      if m.awaited then some (.woken, { m with wait_threads := m.wait_threads - 1, mutex := some k })
      else if ok then some (.asleep, m)
      else some (.null, { m with wait_threads := m.wait_threads - 1 })
    else none
  | .woken => if m.shutdown then some (.null, { m with mutex := none }) else some (.top, m)
  | .mark c => some (.marked c, { m with active_conns := m.active_conns + 1 })
  | .marked c => some (.compare c m.active_conns, m)
  | .compare c active =>
    some (.acquired c, { m.assert (active ≤ m.total_conns) with lent := m.lent ++ [c] })
  | .acquired _ | .null => none

/-- A connection is destroyed: `_total_conns.fetch_sub` and `markConnectionDestroyed`, which decrements it once
more. -/
def discard (m : DBManager) : Discard → Option Discard × DBManager
  | .sub => (some .mark, { m with total_conns := m.total_conns - 1 })
  | .mark => (some .marked, { m with total_conns := m.total_conns - 1 })
  | .marked => (some (.compare m.total_conns), m)
  | .compare total => (none, m.assert (m.active_conns ≤ total))

/-- `releaseConnection` of a connection.  `notify_one` has nothing to do here. -/
def releaseConnection (m : DBManager) : Release → Option (Release × DBManager)
  | .mark c => some (.marked c, { m with active_conns := m.active_conns - 1 })
  | .marked c => some (.test c, m.assert (0 ≤ m.active_conns))
  | .test c => some (if m.shutdown then .discard c .sub else .push c, m)
  | .discard c d =>
    match m.discard d with
    | (some d, m) => some (.discard c d, m)
    | (none, m) => some (.done, m)
  | .push c => if m.mutex = none then some (.done, { m with pool := m.pool ++ [c] }) else none
  | .done => none

/-- `shutdown`, by the call `k`. -/
def close (k : ℕ) (m : DBManager) : Shutdown → Option (Shutdown × DBManager)
  | .lock => if m.mutex = none then some (.exchange, { m with mutex := some k }) else none
  | .exchange =>
    if m.shutdown then some (.done, { m with mutex := none }) else some (.drain, { m with shutdown := true })
  | .drain =>
    match m.pool with
    | _ :: pool => some (.discard .sub, { m with pool := pool })
    | [] => some (.done, { m with mutex := none })
  | .discard d =>
    match m.discard d with
    | (some d, m) => some (.discard d, m)
    | (none, m) => some (.drain, m)
  | .done => none

/-- The next step of the call `k`. -/
def advance (config : Config) (k : ℕ) (ok : Bool) (m : DBManager) : Call → Option (Call × DBManager)
  | .acquire a => (m.acquireConnection config k ok a).map fun q => (.acquire q.1, q.2)
  | .release r => (m.releaseConnection r).map fun q => (.release q.1, q.2)
  | .shutdown s => (m.close k s).map fun q => (.shutdown q.1, q.2)

/-- A call begins. -/
def begin (call : Call) (m : DBManager) : DBManager := { m with calls := m.calls ++ [call] }

/-- The call `k` has come to `call`. -/
def become (k : ℕ) (call : Call) (m : DBManager) : DBManager := { m with calls := m.calls.set k call }

/-- One step.  Where assertions are compiled in (`ndebug = false`), nothing happens after one has failed. -/
def step (config : Config) (ndebug : Bool) (e : Event) (m : DBManager) : Option DBManager :=
  if ndebug = false ∧ m.failed = true then none
  else match e with
  | .prefill ok => m.prefill ok
  | .acquire => if m.remaining = 0 then some (m.begin (.acquire .entry)) else none
  | .release none => if m.remaining = 0 then some (m.begin (.release .done)) else none
  | .release (some c) =>
    if m.remaining = 0 ∧ c ∈ m.lent then
      some ({ m with lent := m.lent.erase c }.begin (.release (.mark c)))
    else none
  | .shutdown => if m.remaining = 0 then some (m.begin (.shutdown .lock)) else none
  | .next k ok =>
    match m.calls[k]? with
    | none => none
    | some call => (m.advance config k ok call).map fun q => q.2.become k q.1

/-! ### What a step does -/

/-- The moves of a call, one by one: of the call `k`, with the manager `m` before. -/
inductive Move (config : Config) (k : ℕ) (m : DBManager) : Call → Call → DBManager → Prop
  | entryNull (hs : m.shutdown = true) : Move config k m (.acquire .entry) (.acquire .null) m
  | entry (hs : m.shutdown = false) : Move config k m (.acquire .entry) (.acquire .lock) m
  | lock (hm : m.mutex = none) : Move config k m (.acquire .lock) (.acquire .top) { m with mutex := some k }
  | topNull (hs : m.shutdown = true) :
      Move config k m (.acquire .top) (.acquire .null) { m with mutex := none }
  | top (hs : m.shutdown = false) : Move config k m (.acquire .top) (.acquire .examine) m
  | pop {c : Conn} {pool : List Conn} (hp : m.pool = c :: pool) :
      Move config k m (.acquire .examine) (.acquire (.validate c))
        { m.assert (Int32.ofNat m.pool.length ≤ m.total_conns) with pool := pool, mutex := none }
  | empty (hp : m.pool = []) :
      Move config k m (.acquire .examine) (.acquire .read) (m.assert (Int32.ofNat m.pool.length ≤ m.total_conns))
  | valid (c : Conn) : Move config k m (.acquire (.validate c)) (.acquire (.mark c)) m
  | invalid (c : Conn) : Move config k m (.acquire (.validate c)) (.acquire .invalid) m
  | forget :
      Move config k m (.acquire .invalid) (.acquire .lock) { m with total_conns := m.total_conns - 1 }
  | room (ht : m.total_conns < config.maxSize) :
      Move config k m (.acquire .read) (.acquire (.grow m.total_conns)) m
  | full (ht : ¬ m.total_conns < config.maxSize) : Move config k m (.acquire .read) (.acquire .wait) m
  | reserve {current : Int32} (ht : m.total_conns = current) :
      Move config k m (.acquire (.grow current)) (.acquire .create)
        { m with total_conns := current + 1, mutex := none }
  | lose (current : Int32) : Move config k m (.acquire (.grow current)) (.acquire .wait) m
  | open : Move config k m (.acquire .create) (.acquire (.mark m.opened)) { m with opened := m.opened + 1 }
  | refuse : Move config k m (.acquire .create) (.acquire .refused) m
  | unreserve :
      Move config k m (.acquire .refused) (.acquire .relock) { m with total_conns := m.total_conns - 1 }
  | relock (hm : m.mutex = none) :
      Move config k m (.acquire .relock) (.acquire .wait) { m with mutex := some k }
  | ready (ha : m.awaited) : Move config k m (.acquire .wait) (.acquire .woken) m
  | sleep (ha : ¬ m.awaited) :
      Move config k m (.acquire .wait) (.acquire .asleep)
        { m with wait_threads := m.wait_threads + 1, mutex := none }
  | wake (hm : m.mutex = none) (ha : m.awaited) :
      Move config k m (.acquire .asleep) (.acquire .woken)
        { m with wait_threads := m.wait_threads - 1, mutex := some k }
  | again (hm : m.mutex = none) : Move config k m (.acquire .asleep) (.acquire .asleep) m
  | giveUp (hm : m.mutex = none) (ha : ¬ m.awaited) :
      Move config k m (.acquire .asleep) (.acquire .null) { m with wait_threads := m.wait_threads - 1 }
  | wokenNull (hs : m.shutdown = true) :
      Move config k m (.acquire .woken) (.acquire .null) { m with mutex := none }
  | woken (hs : m.shutdown = false) : Move config k m (.acquire .woken) (.acquire .top) m
  | mark (c : Conn) :
      Move config k m (.acquire (.mark c)) (.acquire (.marked c)) { m with active_conns := m.active_conns + 1 }
  | marked (c : Conn) : Move config k m (.acquire (.marked c)) (.acquire (.compare c m.active_conns)) m
  | compare (c : Conn) (active : Int32) :
      Move config k m (.acquire (.compare c active)) (.acquire (.acquired c))
        { m.assert (active ≤ m.total_conns) with lent := m.lent ++ [c] }
  | release (c : Conn) :
      Move config k m (.release (.mark c)) (.release (.marked c)) { m with active_conns := m.active_conns - 1 }
  | released (c : Conn) :
      Move config k m (.release (.marked c)) (.release (.test c)) (m.assert (0 ≤ m.active_conns))
  | late (c : Conn) (hs : m.shutdown = true) :
      Move config k m (.release (.test c)) (.release (.discard c .sub)) m
  | keep (c : Conn) (hs : m.shutdown = false) :
      Move config k m (.release (.test c)) (.release (.push c)) m
  | discard (c : Conn) {d d' : Discard} {m' : DBManager} (hd : m.discard d = (some d', m')) :
      Move config k m (.release (.discard c d)) (.release (.discard c d')) m'
  | discarded (c : Conn) {d : Discard} {m' : DBManager} (hd : m.discard d = (none, m')) :
      Move config k m (.release (.discard c d)) (.release .done) m'
  | push (c : Conn) (hm : m.mutex = none) :
      Move config k m (.release (.push c)) (.release .done) { m with pool := m.pool ++ [c] }
  | closing (hm : m.mutex = none) :
      Move config k m (.shutdown .lock) (.shutdown .exchange) { m with mutex := some k }
  | second (hs : m.shutdown = true) :
      Move config k m (.shutdown .exchange) (.shutdown .done) { m with mutex := none }
  | exchange (hs : m.shutdown = false) :
      Move config k m (.shutdown .exchange) (.shutdown .drain) { m with shutdown := true }
  | drop {c : Conn} {pool : List Conn} (hp : m.pool = c :: pool) :
      Move config k m (.shutdown .drain) (.shutdown (.discard .sub)) { m with pool := pool }
  | drained (hp : m.pool = []) :
      Move config k m (.shutdown .drain) (.shutdown .done) { m with mutex := none }
  | dropping {d d' : Discard} {m' : DBManager} (hd : m.discard d = (some d', m')) :
      Move config k m (.shutdown (.discard d)) (.shutdown (.discard d')) m'
  | dropped {d : Discard} {m' : DBManager} (hd : m.discard d = (none, m')) :
      Move config k m (.shutdown (.discard d)) (.shutdown .drain) m'

variable {config : Config} {ndebug : Bool} {m m' : DBManager} {k : ℕ} {ok : Bool} {call call' : Call}

theorem acquireConnection_eq_some {a a' : Acquire} (h : m.acquireConnection config k ok a = some (a', m')) :
    Move config k m (.acquire a) (.acquire a') m' := by
  cases a <;> simp only [acquireConnection] at h
  case entry =>
    cases hs : m.shutdown <;>
      simp only [hs, if_true, if_false, Bool.false_eq_true, Option.some.injEq, Prod.mk.injEq] at h <;>
      obtain ⟨rfl, rfl⟩ := h
    · exact .entry hs
    · exact .entryNull hs
  case lock =>
    split at h
    · simp only [Option.some.injEq, Prod.mk.injEq] at h
      obtain ⟨rfl, rfl⟩ := h
      exact .lock ‹_›
    · cases h
  case top =>
    split at h <;> simp only [Option.some.injEq, Prod.mk.injEq] at h <;> obtain ⟨rfl, rfl⟩ := h
    · exact .topNull ‹_›
    · exact .top (Bool.eq_false_iff.2 ‹_›)
  case examine =>
    split at h
    · rename_i c pool hp
      simp only [Option.some.injEq, Prod.mk.injEq] at h
      obtain ⟨rfl, rfl⟩ := h
      exact .pop hp
    · rename_i hp
      simp only [Option.some.injEq, Prod.mk.injEq] at h
      obtain ⟨rfl, rfl⟩ := h
      exact .empty hp
  case validate c =>
    cases ok <;>
      simp only [if_true, if_false, Bool.false_eq_true, Option.some.injEq, Prod.mk.injEq] at h <;>
      obtain ⟨rfl, rfl⟩ := h
    · exact .invalid c
    · exact .valid c
  case invalid =>
    simp only [Option.some.injEq, Prod.mk.injEq] at h
    obtain ⟨rfl, rfl⟩ := h
    exact .forget
  case read =>
    by_cases ht : m.total_conns < config.maxSize <;>
      simp only [ht, if_true, if_false, Option.some.injEq, Prod.mk.injEq] at h <;>
      obtain ⟨rfl, rfl⟩ := h
    · exact .room ht
    · exact .full ht
  case grow current =>
    split at h
    · rename_i ht
      simp only [Option.some.injEq, Prod.mk.injEq] at h
      obtain ⟨rfl, rfl⟩ := h
      exact .reserve ht.1
    · simp only [Option.some.injEq, Prod.mk.injEq] at h
      obtain ⟨rfl, rfl⟩ := h
      exact .lose current
  case create =>
    cases ok <;>
      simp only [if_true, if_false, Bool.false_eq_true, Option.some.injEq, Prod.mk.injEq] at h <;>
      obtain ⟨rfl, rfl⟩ := h
    · exact .refuse
    · exact .open
  case refused =>
    simp only [Option.some.injEq, Prod.mk.injEq] at h
    obtain ⟨rfl, rfl⟩ := h
    exact .unreserve
  case relock =>
    split at h
    · simp only [Option.some.injEq, Prod.mk.injEq] at h
      obtain ⟨rfl, rfl⟩ := h
      exact .relock ‹_›
    · cases h
  case wait =>
    split at h <;> simp only [Option.some.injEq, Prod.mk.injEq] at h <;> obtain ⟨rfl, rfl⟩ := h
    · exact .ready ‹_›
    · exact .sleep ‹_›
  case asleep =>
    split at h
    · rename_i hm
      split at h
      · simp only [Option.some.injEq, Prod.mk.injEq] at h
        obtain ⟨rfl, rfl⟩ := h
        exact .wake hm ‹_›
      · cases ok <;>
          simp only [if_true, if_false, Bool.false_eq_true, Option.some.injEq, Prod.mk.injEq] at h <;>
          obtain ⟨rfl, rfl⟩ := h
        · exact .giveUp hm ‹_›
        · exact .again hm
    · cases h
  case woken =>
    split at h <;> simp only [Option.some.injEq, Prod.mk.injEq] at h <;> obtain ⟨rfl, rfl⟩ := h
    · exact .wokenNull ‹_›
    · exact .woken (Bool.eq_false_iff.2 ‹_›)
  case mark c =>
    simp only [Option.some.injEq, Prod.mk.injEq] at h
    obtain ⟨rfl, rfl⟩ := h
    exact .mark c
  case marked c =>
    simp only [Option.some.injEq, Prod.mk.injEq] at h
    obtain ⟨rfl, rfl⟩ := h
    exact .marked c
  case compare c active =>
    simp only [Option.some.injEq, Prod.mk.injEq] at h
    obtain ⟨rfl, rfl⟩ := h
    exact .compare c active
  case acquired => cases h
  case null => cases h

theorem releaseConnection_eq_some {r r' : Release} (h : m.releaseConnection r = some (r', m')) :
    Move config k m (.release r) (.release r') m' := by
  cases r <;> simp only [releaseConnection] at h
  case mark c =>
    simp only [Option.some.injEq, Prod.mk.injEq] at h
    obtain ⟨rfl, rfl⟩ := h
    exact .release c
  case marked c =>
    simp only [Option.some.injEq, Prod.mk.injEq] at h
    obtain ⟨rfl, rfl⟩ := h
    exact .released c
  case test c =>
    cases hs : m.shutdown <;>
      simp only [hs, if_true, if_false, Bool.false_eq_true, Option.some.injEq, Prod.mk.injEq] at h <;>
      obtain ⟨rfl, rfl⟩ := h
    · exact .keep c hs
    · exact .late c hs
  case discard c d =>
    split at h <;> simp only [Option.some.injEq, Prod.mk.injEq] at h <;> obtain ⟨rfl, rfl⟩ := h
    · exact .discard c ‹_›
    · exact .discarded c ‹_›
  case push c =>
    split at h
    · simp only [Option.some.injEq, Prod.mk.injEq] at h
      obtain ⟨rfl, rfl⟩ := h
      exact .push c ‹_›
    · cases h
  case done => cases h

theorem close_eq_some {s s' : Shutdown} (h : m.close k s = some (s', m')) :
    Move config k m (.shutdown s) (.shutdown s') m' := by
  cases s <;> simp only [close] at h
  case lock =>
    split at h
    · simp only [Option.some.injEq, Prod.mk.injEq] at h
      obtain ⟨rfl, rfl⟩ := h
      exact .closing ‹_›
    · cases h
  case exchange =>
    split at h <;> simp only [Option.some.injEq, Prod.mk.injEq] at h <;> obtain ⟨rfl, rfl⟩ := h
    · exact .second ‹_›
    · exact .exchange (Bool.eq_false_iff.2 ‹_›)
  case drain =>
    split at h <;> simp only [Option.some.injEq, Prod.mk.injEq] at h <;> obtain ⟨rfl, rfl⟩ := h
    · exact .drop ‹_›
    · exact .drained ‹_›
  case discard d =>
    split at h <;> simp only [Option.some.injEq, Prod.mk.injEq] at h <;> obtain ⟨rfl, rfl⟩ := h
    · exact .dropping ‹_›
    · exact .dropped ‹_›
  case done => cases h

theorem advance_eq_some (h : m.advance config k ok call = some (call', m')) : Move config k m call call' m' := by
  cases call with
  | acquire a =>
    obtain ⟨⟨a', m''⟩, ha, hq⟩ := Option.map_eq_some_iff.1 h
    obtain ⟨rfl, rfl⟩ := Prod.mk.inj hq
    exact acquireConnection_eq_some ha
  | release r =>
    obtain ⟨⟨r', m''⟩, hr, hq⟩ := Option.map_eq_some_iff.1 h
    obtain ⟨rfl, rfl⟩ := Prod.mk.inj hq
    exact releaseConnection_eq_some hr
  | shutdown s =>
    obtain ⟨⟨s', m''⟩, hs, hq⟩ := Option.map_eq_some_iff.1 h
    obtain ⟨rfl, rfl⟩ := Prod.mk.inj hq
    exact close_eq_some hs

/-- The steps. -/
inductive Step (config : Config) (m : DBManager) : Event → DBManager → Prop
  | fill {i : ℕ} (hi : m.remaining = i + 1) :
      Step config m (.prefill true)
        { m with
          remaining := i
          opened := m.opened + 1
          pool := m.pool ++ [m.opened]
          total_conns := m.total_conns + 1 + 1 }
  | skip {i : ℕ} (hi : m.remaining = i + 1) : Step config m (.prefill false) { m with remaining := i }
  | acquire (hi : m.remaining = 0) : Step config m .acquire (m.begin (.acquire .entry))
  | releaseNull (hi : m.remaining = 0) : Step config m (.release none) (m.begin (.release .done))
  | release {c : Conn} (hi : m.remaining = 0) (hc : c ∈ m.lent) :
      Step config m (.release (some c)) ({ m with lent := m.lent.erase c }.begin (.release (.mark c)))
  | shutdown (hi : m.remaining = 0) : Step config m .shutdown (m.begin (.shutdown .lock))
  | next {k : ℕ} (ok : Bool) {call call' : Call} {m' : DBManager} (hk : m.calls[k]? = some call)
      (hm : Move config k m call call' m') :
      Step config m (.next k ok) (m'.become k call')

/-- **These are the steps.** -/
theorem step_eq_some {e : Event} (h : step config ndebug e m = some m') :
    Step config m e m' ∧ ¬ (ndebug = false ∧ m.failed = true) := by
  unfold step at h
  split at h
  · cases h
  · rename_i hf
    refine ⟨?_, hf⟩
    cases e with
    | prefill ok =>
      simp only [prefill] at h
      split at h
      · cases h
      · rename_i i hi
        cases ok <;> simp only [if_true, if_false, Bool.false_eq_true, Option.some.injEq] at h <;> subst h
        · exact .skip hi
        · exact .fill hi
    | acquire =>
      simp only [Option.ite_none_right_eq_some, Option.some.injEq] at h
      obtain ⟨hi, rfl⟩ := h
      exact .acquire hi
    | release conn =>
      cases conn with
      | none =>
        simp only [Option.ite_none_right_eq_some, Option.some.injEq] at h
        obtain ⟨hi, rfl⟩ := h
        exact .releaseNull hi
      | some c =>
        simp only [Option.ite_none_right_eq_some, Option.some.injEq] at h
        obtain ⟨⟨hi, hc⟩, rfl⟩ := h
        exact .release hi hc
    | shutdown =>
      simp only [Option.ite_none_right_eq_some, Option.some.injEq] at h
      obtain ⟨hi, rfl⟩ := h
      exact .shutdown hi
    | next k ok =>
      simp only at h
      split at h
      · cases h
      · rename_i call hk
        obtain ⟨⟨call', m''⟩, ha, rfl⟩ := Option.map_eq_some_iff.1 h
        exact .next ok hk (advance_eq_some ha)

end DBManager

end StreamGate.DB
