import StreamGate.DB.Accounting

/-!
# A call alone

While one call runs and the others stand still, the run is that of the call and of the variables of the pool.
What it does there is computed, and holds of the whole system.
-/

namespace StreamGate.DB

open Lib

namespace DBManager

variable {config : Config} {ndebug : Bool} {m m' n : DBManager} {k : ℕ} {ok : Bool} {call call' : Call}

/-- The next step of the call `k`, seen without the list of the calls. -/
def alone (config : Config) (ndebug : Bool) (k : ℕ) (ok : Bool) (q : Call × DBManager) : Option (Call × DBManager) :=
  if ndebug = false ∧ q.2.failed = true then none else q.2.advance config k ok q.1

/-- The calls are not looked at. -/
theorem advance_begin (m : DBManager) (last : Call) :
    (m.begin last).advance config k ok call = (m.advance config k ok call).map fun q => (q.1, q.2.begin last) := by
  cases call with
  | acquire a =>
    cases a
    case examine =>
      obtain ⟨_, _ | ⟨c, pool⟩, _⟩ := m
      · rfl
      · rfl
    case lock | relock | wait | asleep | top | woken | grow | create =>
      simp only [advance, acquireConnection, DBManager.begin, awaited]
      grind
    all_goals rfl
  | release r =>
    cases r
    case discard c d => cases d <;> rfl
    case push =>
      simp only [advance, releaseConnection, DBManager.begin]
      grind
    all_goals rfl
  | shutdown s =>
    cases s
    case drain =>
      obtain ⟨_, _ | ⟨c, pool⟩, _⟩ := m
      · rfl
      · rfl
    case discard d => cases d <;> rfl
    case lock | exchange =>
      simp only [advance, close, DBManager.begin]
      grind
    all_goals rfl

theorem getElem?_begin (m : DBManager) (call : Call) : (m.begin call).calls[m.calls.length]? = some call := by
  simp [DBManager.begin]

theorem begin_become (m : DBManager) (call call' : Call) :
    (m.begin call).become m.calls.length call' = m.begin call' := by
  simp [DBManager.begin, become]

/-- **The call that has begun last, alone.** -/
theorem step_begin (m : DBManager) (call : Call) :
    step config ndebug (.next m.calls.length ok) (m.begin call) =
      (alone config ndebug m.calls.length ok (call, m)).map fun q => q.2.begin q.1 := by
  simp only [step, alone, getElem?_begin, advance_begin]
  show (if ndebug = false ∧ m.failed = true then none else _) = _
  split
  · rfl
  · cases h : m.advance config m.calls.length ok call with
    | none => rfl
    | some q =>
      have hcalls := (advance_eq_some h).calls
      have := begin_become q.2 call q.1
      rw [hcalls] at this
      exact congrArg some this

theorem tries_begin {oks : List Bool} (m : DBManager) (call : Call) :
    tries (step config ndebug) (oks.map (.next m.calls.length)) (m.begin call) =
      (tries (alone config ndebug m.calls.length) oks (call, m)).map fun q => q.2.begin q.1 := by
  induction oks generalizing m call with
  | nil => rfl
  | cons ok oks ih =>
    rw [List.map_cons, tries, List.foldlM_cons, step_begin, tries, List.foldlM_cons]
    cases h : alone config ndebug m.calls.length ok (call, m) with
    | none => rfl
    | some q =>
      have hcalls : q.2.calls = m.calls := by
        unfold alone at h
        split at h
        · cases h
        · exact (advance_eq_some h).calls
      have := ih q.2 q.1
      rw [hcalls] at this
      exact this

/-! ### Connections are lent -/

/-- A manager that is open and whose mutex is free. -/
structure Ready (m : DBManager) : Prop where
  remaining : m.remaining = 0
  shutdown : m.shutdown = false
  mutex : m.mutex = none

/-- From the pool. -/
theorem alone_pool (config : Config) (k : ℕ) (hm : m.Ready) {c : Conn} {pool : List Conn} (hp : m.pool = c :: pool) :
    ∃ active failed, tries (alone config true k) (List.replicate 8 true) (.acquire .entry, m) =
      some (.acquire (.acquired c),
        { m with pool := pool, active_conns := active, lent := m.lent ++ [c], failed := failed }) := by
  obtain ⟨shutdown, _, mutex, _⟩ := m
  obtain ⟨hr, hs, hmutex⟩ := hm
  simp only at hr hs hmutex hp
  subst hr hs hmutex hp
  exact ⟨_, _, rfl⟩

/-- A new one. -/
theorem alone_grow (config : Config) (k : ℕ) (hm : m.Ready) (hp : m.pool = []) (ht : m.total_conns < config.maxSize) :
    ∃ active failed, tries (alone config true k) (List.replicate 10 true) (.acquire .entry, m) =
      some (.acquire (.acquired m.opened),
        { m with
          total_conns := m.total_conns + 1
          active_conns := active
          opened := m.opened + 1
          lent := m.lent ++ [m.opened]
          failed := failed }) := by
  obtain ⟨shutdown, _, mutex, total, _⟩ := m
  obtain ⟨hr, hs, hmutex⟩ := hm
  simp only at hr hs hmutex hp ht
  subst hr hs hmutex hp
  -- The steps up to the comparison of the counter with the limit, and those after it.
  have hread : ∀ m : DBManager, m.total_conns < config.maxSize →
      alone config true k true (.acquire .read, m) = some (.acquire (.grow m.total_conns), m) := by
    intro m h
    simp [alone, advance, acquireConnection, h]
  have hgrow : ∀ m : DBManager, alone config true k true (.acquire (.grow m.total_conns), m) =
      some (.acquire .create, { m with total_conns := m.total_conns + 1, mutex := none }) := by
    intro m
    simp [alone, advance, acquireConnection]
  rw [show List.replicate 10 true = List.replicate 4 true ++ true :: true :: List.replicate 4 true from rfl]
  exact ⟨_, _, tries_append_eq_some.2
    ⟨_, rfl, tries_cons_eq_some.2 ⟨_, hread _ ht, tries_cons_eq_some.2 ⟨_, hgrow _, rfl⟩⟩⟩⟩

end DBManager

end StreamGate.DB
