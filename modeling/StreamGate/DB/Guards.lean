import StreamGate.DB.Closing

/-!
# Connection guards

`ConnectionGuard` over the pool: a sequence of guards constructed, moved from one to another, assigned and
destroyed, each call of `acquireConnection` and `releaseConnection` from its beginning to its end.

The destructor gives the connection back.  The move assignment does not: the connection that its target has
is closed and never given back, and counts as active from then on.
-/

namespace StreamGate.DB

open Lib

structure ConnectionGuard where
  /-- Whether `_manager` is not null. -/
  manager : Bool
  conn : Option Conn
  deriving DecidableEq

namespace ConnectionGuard

/-- `ConnectionGuard(DBManager&)`, with what `acquireConnection` returns. -/
def construct (conn : Option Conn) : ConnectionGuard := ⟨true, conn⟩

/-- `ConnectionGuard(ConnectionGuard&&)`. -/
def moveConstruct (other : ConnectionGuard) : ConnectionGuard := ⟨other.manager, other.conn⟩

/-- `operator=(ConnectionGuard&&)` of another guard: the guard afterwards. -/
def moveAssign (other : ConnectionGuard) : ConnectionGuard := ⟨other.manager, other.conn⟩

/-- The guard that was moved from. -/
def moved : ConnectionGuard := ⟨false, none⟩

/-- What the destructor passes to `releaseConnection`. -/
def returns (g : ConnectionGuard) : Option Conn := if g.manager then g.conn else none

theorem conn_of_returns {g : ConnectionGuard} {c : Conn} (h : g.returns = some c) : g.conn = some c := by
  unfold returns at h
  split at h
  · exact h
  · cases h

end ConnectionGuard

/-- The connection that a call has for its caller. -/
def Acquire.given : Acquire → List Conn
  | acquired c => [c]
  | _ => []

namespace DBManager

variable {config : Config} {ndebug : Bool} {m m' : DBManager} {k : ℕ} {call call' : Call}

/-! ### Calls from their beginning to their end -/

/-- A call of `acquireConnection`, with the outcomes of its steps, and what it returns. -/
def acquireCall (config : Config) (ndebug : Bool) (oks : List Bool) (m : DBManager) :
    Option (Option Conn × DBManager) :=
  (tries (step config ndebug) (.acquire :: oks.map (.next m.calls.length)) m).bind fun m' =>
    match m'.calls[m.calls.length]? with
    | some (.acquire (.acquired c)) => some (some c, m')
    | some (.acquire .null) => some (none, m')
    | _ => none

/-- A call of `releaseConnection`. -/
def releaseCall (config : Config) (ndebug : Bool) (c : Conn) (m : DBManager) : Option DBManager :=
  tries (step config ndebug)
    (.release (some c) :: (List.replicate (if m.shutdown then 7 else 4) true).map (.next m.calls.length)) m


/-- The next move of a call of `acquireConnection`, and the connections of the callers. -/
theorem Move.given {a : Acquire} (h : Move config k m (.acquire a) call' m') :
    a.given = [] ∧ ∃ a', call' = .acquire a' ∧ m'.lent = m.lent ++ a'.given := by
  cases h <;> simp [Acquire.given]

/-- What one call leaves alone, and what it has for its caller. -/
structure Alone (m : DBManager) (q : Call × DBManager) : Prop where
  calls : q.2.calls = m.calls
  remaining : q.2.remaining = m.remaining
  lent : ∃ a, q.1 = .acquire a ∧ q.2.lent = m.lent ++ a.given

theorem Alone.step {ok : Bool} {q q' : Call × DBManager} (hq : m.Alone q) (h : alone config ndebug k ok q = some q') :
    m.Alone q' := by
  obtain ⟨call, m₁⟩ := q
  obtain ⟨call', m₂⟩ := q'
  unfold alone at h
  split at h
  · cases h
  · have hmove := advance_eq_some h
    obtain ⟨a, rfl, hlent⟩ := hq.lent
    obtain ⟨hnone, a', rfl, hgiven⟩ := hmove.given
    rw [hnone, List.append_nil] at hlent
    exact ⟨hmove.calls.trans hq.calls, hmove.remaining.trans hq.remaining, a', rfl, by rw [hgiven, hlent]⟩

theorem quiet_begin (hq : m.Quiet) (hcalls : m'.calls = m.calls) (hr : m'.remaining = m.remaining)
    (hc : call.returned = true) : (m'.begin call).Quiet := by
  have : m'.Quiet := ⟨hr.trans hq.1, hcalls ▸ hq.2⟩
  exact this.begin hc

/-- **`acquireConnection`.**  The caller has what it returns, and no call is in progress again. -/
theorem acquireCall_spec {oks : List Bool} {o : Option Conn} (hq : m.Quiet)
    (h : acquireCall config ndebug oks m = some (o, m')) :
    m'.Quiet ∧ m'.lent = m.lent ++ o.toList ∧ ∃ es, tries (step config ndebug) es m = some m' := by
  obtain ⟨m₁, hrun, hreturn⟩ := Option.bind_eq_some_iff.1 h
  obtain ⟨m₂, hbegin, hcall⟩ := tries_cons_eq_some.1 hrun
  cases (step_eq_some hbegin).1 with
  | acquire hi =>
    rw [tries_begin] at hcall
    obtain ⟨q, hcall', rfl⟩ := Option.map_eq_some_iff.1 hcall
    have halone : m.Alone q := tries_inv (fun _ _ _ hq h => hq.step h) hcall'
      ⟨rfl, rfl, .entry, rfl, (List.append_nil m.lent).symm⟩
    obtain ⟨a, ha, hlent⟩ := halone.lent
    have hlast : (q.2.begin q.1).calls[m.calls.length]? = some (.acquire a) := by
      rw [← halone.calls, getElem?_begin, ha]
    rw [hlast] at hreturn
    cases a
    case acquired c =>
      obtain ⟨rfl, rfl⟩ := Prod.mk.inj (Option.some.inj hreturn)
      exact ⟨quiet_begin hq halone.calls halone.remaining (by rw [ha]; rfl), hlent, _, hrun⟩
    case null =>
      obtain ⟨rfl, rfl⟩ := Prod.mk.inj (Option.some.inj hreturn)
      exact ⟨quiet_begin hq halone.calls halone.remaining (by rw [ha]; rfl), hlent, _, hrun⟩
    all_goals cases hreturn

/-- **`releaseConnection`.**  The caller does not have the connection any more. -/
theorem releaseCall_spec {c : Conn} (hq : m.Quiet) (h : releaseCall config ndebug c m = some m') :
    m'.Quiet ∧ c ∈ m.lent ∧ m'.lent = m.lent.erase c ∧ ∃ es, tries (step config ndebug) es m = some m' := by
  have hrun := h
  obtain ⟨m₁, hbegin, hcall⟩ := tries_cons_eq_some.1 h
  cases (step_eq_some hbegin).1 with
  | release hi hc =>
    have hmap := (@tries_begin config ndebug _ { m with lent := m.lent.erase c } (.release (.mark c))).symm.trans hcall
    obtain ⟨q, hq', rfl⟩ := Option.map_eq_some_iff.1 hmap
    have hq' := tries_mono alone_ndebug hq'
    have hdone : q.1 = .release .done ∧ q.2.calls = m.calls ∧ q.2.remaining = m.remaining ∧
        q.2.lent = m.lent.erase c := by
      obtain ⟨shutdown, pool, mutex, _⟩ := m
      cases shutdown with
      | true =>
        obtain rfl := Option.some.inj hq'
        exact ⟨rfl, rfl, rfl, rfl⟩
      | false =>
        cases mutex with
        | none =>
          obtain rfl := Option.some.inj hq'
          exact ⟨rfl, rfl, rfl, rfl⟩
        | some k => cases hq'
    obtain ⟨hdone, hcalls, hr, hlent⟩ := hdone
    exact ⟨quiet_begin hq hcalls hr (by rw [hdone]; rfl), hc, hlent, _, hrun⟩

end DBManager

/-! ### Sequences of guards -/

/-- The guards in the order of their construction, `none` for one that is destroyed, and the manager they are for. -/
structure Scope where
  manager : DBManager
  guards : List (Option ConnectionGuard) := []
  /-- What `acquireConnection` has returned to a guard. -/
  acquired : List Conn := []
  /-- What guards have passed to `releaseConnection`. -/
  released : List Conn := []
  /-- The connections that `_conn` has closed, as a `unique_ptr` does with what it owns. -/
  closed : List Conn := []

/-- What is done with guards. -/
inductive GuardOp where
  /-- `ConnectionGuard(manager)`, with the outcomes of the steps of `acquireConnection`. -/
  | construct (oks : List Bool)
  | moveConstruct (other : ℕ)
  | moveAssign (self other : ℕ)
  | destroy (self : ℕ)

namespace Scope

def guard (s : Scope) (i : ℕ) : Option ConnectionGuard := s.guards[i]?.join

def step (config : Config) (ndebug : Bool) (op : GuardOp) (s : Scope) : Option Scope :=
  match op with
  | .construct oks =>
    (s.manager.acquireCall config ndebug oks).map fun q =>
      { s with
        manager := q.2
        guards := s.guards ++ [some (.construct q.1)]
        acquired := s.acquired ++ q.1.toList }
  | .moveConstruct other =>
    (s.guard other).map fun o =>
      { s with guards := s.guards.set other (some .moved) ++ [some (.moveConstruct o)] }
  | .moveAssign self other =>
    (s.guard self).bind fun g => (s.guard other).map fun o =>
      if self = other then s
      else { s with
        guards := (s.guards.set self (some (.moveAssign o))).set other (some .moved)
        closed := s.closed ++ g.conn.toList }
  | .destroy self =>
    (s.guard self).bind fun g =>
      match g.returns with
      | some c =>
        (s.manager.releaseCall config ndebug c).map fun m =>
          { s with
            manager := m
            guards := s.guards.set self none
            released := s.released ++ [c] }
      | none => some { s with guards := s.guards.set self none, closed := s.closed ++ g.conn.toList }

def start (m : DBManager) : Scope := { manager := m }

variable {config : Config} {ndebug : Bool} {m₀ : DBManager} {s s' : Scope} {op : GuardOp} {ops : List GuardOp}

theorem guard_eq_some {i : ℕ} {g : ConnectionGuard} : s.guard i = some g ↔ s.guards[i]? = some (some g) :=
  Option.join_eq_some_iff

/-! ### Who has the connections -/

/-- Whether a guard has the connection. -/
def holding (c : Conn) (g : Option ConnectionGuard) : Bool := decide (g.bind ConnectionGuard.conn = some c)

/-- How many guards have the connection. -/
def held (guards : List (Option ConnectionGuard)) (c : Conn) : ℕ := guards.countP (holding c)

theorem holding_toNat (c : Conn) (g : Option ConnectionGuard) :
    (holding c g).toNat = (g.bind ConnectionGuard.conn).toList.count c := by
  cases hg : g.bind ConnectionGuard.conn with
  | none => simp [holding, hg]
  | some c' =>
    by_cases hc : c' = c
    · simp [holding, hg, hc]
    · simp [holding, hg, hc]

section Held

variable {guards : List (Option ConnectionGuard)}

/-- One more guard. -/
theorem held_append (g : ConnectionGuard) (c : Conn) :
    held (guards ++ [some g]) c = held guards c + g.conn.toList.count c := by
  have h := holding_toNat c (some g)
  rw [Option.bind_some] at h
  rw [held, held, List.countP_append, List.countP_singleton, ← h]
  cases holding c (some g) <;> rfl

/-- Another guard, or none, in the place of one. -/
theorem held_set {i : ℕ} {g : ConnectionGuard} (hg : guards[i]? = some (some g)) (g' : Option ConnectionGuard)
    (c : Conn) :
    held (guards.set i g') c + g.conn.toList.count c =
      held guards c + (g'.bind ConnectionGuard.conn).toList.count c := by
  have h := countP_set_add (b := g') (holding c) hg
  rwa [holding_toNat, holding_toNat, Option.bind_some] at h

/-- What one guard has is lost, or goes elsewhere. -/
theorem held_set_empty {i : ℕ} {g : ConnectionGuard} (hg : guards[i]? = some (some g)) (g' : Option ConnectionGuard)
    (hg' : g'.bind ConnectionGuard.conn = none) (c : Conn) :
    held (guards.set i g') c + g.conn.toList.count c = held guards c := by
  have h := held_set hg g' c
  rw [hg'] at h
  simpa using h

end Held

/-- **Who has the connections.**  What guards have got was given back, or is with a guard, or was closed; and the
manager counts as lent, besides what was lent before, what guards have and what was closed. -/
structure Owned (config : Config) (m₀ : DBManager) (s : Scope) : Prop where
  quiet : s.manager.Quiet
  kept : ∃ es, s.manager.Kept config es
  bound : ∀ g, some g ∈ s.guards → g.conn ≠ none → g.manager = true
  acquired : ∀ c, s.acquired.count c = s.released.count c + held s.guards c + s.closed.count c
  lent : ∀ c, s.manager.lent.count c = m₀.lent.count c + held s.guards c + s.closed.count c

theorem kept_of_tries {m m' : DBManager} {es : List Event} (hm : ∃ es, m.Kept config es)
    (h : tries (DBManager.step config ndebug) es m = some m') : ∃ es, m'.Kept config es :=
  tries_inv (I := fun m => ∃ es, DBManager.Kept config es m)
    (fun _ e _ hm he => hm.elim fun es hm => ⟨es ++ [e], hm.step (DBManager.step_eq_some he).1⟩) h hm

theorem Owned.construct {o : Option Conn} {m : DBManager} {oks : List Bool} (hs : s.Owned config m₀)
    (h : s.manager.acquireCall config ndebug oks = some (o, m)) :
    Owned config m₀ { s with
      manager := m
      guards := s.guards ++ [some (.construct o)]
      acquired := s.acquired ++ o.toList } := by
  obtain ⟨hquiet, hlent, es, hrun⟩ := DBManager.acquireCall_spec hs.quiet h
  have hheld : ∀ c, held (s.guards ++ [some (.construct o)]) c = held s.guards c + o.toList.count c :=
    held_append (.construct o)
  constructor
  · exact hquiet
  · exact kept_of_tries hs.kept hrun
  · intro g hg hconn
    rcases List.mem_append.1 hg with hg | hg
    · exact hs.bound g hg hconn
    · obtain rfl : g = .construct o := by simpa using hg
      rfl
  · intro c
    have := hs.acquired c
    simp only [List.count_append, hheld]
    omega
  · intro c
    have := hs.lent c
    simp only [hlent, List.count_append, hheld]
    omega

/-- The guards change, and the manager does not. -/
theorem Owned.of_guards (hs : s.Owned config m₀) (guards : List (Option ConnectionGuard)) (closed : List Conn)
    (hbound : ∀ g, some g ∈ guards → g.conn ≠ none → g.manager = true)
    (hheld : ∀ c, held guards c + closed.count c = held s.guards c) :
    Owned config m₀ { s with guards := guards, closed := s.closed ++ closed } := by
  constructor
  · exact hs.quiet
  · exact hs.kept
  · exact hbound
  · intro c
    have := hs.acquired c
    have := hheld c
    simp only [List.count_append]
    omega
  · intro c
    have := hs.lent c
    have := hheld c
    simp only [List.count_append]
    omega

/-- A guard that is moved from has nothing left. -/
theorem bound_moved {guards : List (Option ConnectionGuard)} {i : ℕ}
    (hb : ∀ g, some g ∈ guards → g.conn ≠ none → g.manager = true) (g : ConnectionGuard)
    (hg : some g ∈ guards.set i (some .moved)) (hconn : g.conn ≠ none) : g.manager = true := by
  rcases List.mem_or_eq_of_mem_set hg with hg | hg
  · exact hb g hg hconn
  · obtain rfl := Option.some.inj hg
    exact absurd rfl hconn

theorem Owned.moveConstruct {i : ℕ} {o : ConnectionGuard} (hs : s.Owned config m₀) (ho : s.guard i = some o) :
    Owned config m₀ { s with guards := s.guards.set i (some .moved) ++ [some (.moveConstruct o)] } := by
  have ho := guard_eq_some.1 ho
  have h := hs.of_guards (s.guards.set i (some .moved) ++ [some (.moveConstruct o)]) [] ?_ ?_
  · rwa [List.append_nil] at h
  · intro g hg hconn
    rcases List.mem_append.1 hg with hg | hg
    · exact bound_moved hs.bound g hg hconn
    · obtain rfl : g = .moveConstruct o := by simpa using hg
      exact hs.bound o (List.mem_of_getElem? ho) hconn
  · intro c
    rw [held_append, List.count_nil, Nat.add_zero]
    exact held_set_empty ho _ rfl c

theorem Owned.moveAssign {i j : ℕ} {g o : ConnectionGuard} (hs : s.Owned config m₀) (hg : s.guard i = some g)
    (ho : s.guard j = some o) (hij : i ≠ j) :
    Owned config m₀ { s with
      guards := (s.guards.set i (some (.moveAssign o))).set j (some .moved)
      closed := s.closed ++ g.conn.toList } := by
  have hg := guard_eq_some.1 hg
  have ho := guard_eq_some.1 ho
  refine hs.of_guards _ _ (bound_moved fun g' hg' hconn => ?_) fun c => ?_
  · rcases List.mem_or_eq_of_mem_set hg' with hg' | hg'
    · exact hs.bound g' hg' hconn
    · obtain rfl := Option.some.inj hg'
      exact hs.bound o (List.mem_of_getElem? ho) hconn
  · -- what the target had is closed, and what the source had is the target's
    have hsource : (s.guards.set i (some (.moveAssign o)))[j]? = some (some o) := by
      rw [List.getElem?_set_ne hij, ho]
    have hmoved := held_set_empty hsource (some .moved) rfl c
    have htarget : held (s.guards.set i (some (.moveAssign o))) c + g.conn.toList.count c =
        held s.guards c + o.conn.toList.count c := held_set hg (some (.moveAssign o)) c
    omega

theorem Owned.release {i : ℕ} {g : ConnectionGuard} {c : Conn} {m : DBManager} (hs : s.Owned config m₀)
    (hg : s.guard i = some g) (hc : g.conn = some c) (h : s.manager.releaseCall config ndebug c = some m) :
    Owned config m₀ { s with
      manager := m
      guards := s.guards.set i none
      released := s.released ++ [c] } := by
  obtain ⟨hquiet, hmem, hlent, es, hrun⟩ := DBManager.releaseCall_spec hs.quiet h
  have hheld := held_set_empty (guard_eq_some.1 hg) none rfl
  rw [hc] at hheld
  constructor
  · exact hquiet
  · exact kept_of_tries hs.kept hrun
  · intro g' hg' hconn
    rcases List.mem_or_eq_of_mem_set hg' with hg' | hg'
    · exact hs.bound g' hg' hconn
    · cases hg'
  · intro c'
    have := hs.acquired c'
    have := hheld c'
    simp only [List.count_append, Option.toList_some] at *
    omega
  · intro c'
    have := hs.lent c'
    have := hheld c'
    have hgone := (List.perm_cons_erase hmem).count_eq c'
    simp only [hlent, Option.toList_some, List.count_cons, List.count_nil] at *
    omega

/-- The destructor of a guard without a connection. -/
theorem Owned.drop {i : ℕ} {g : ConnectionGuard} (hs : s.Owned config m₀) (hg : s.guard i = some g)
    (hnone : g.returns = none) : g.conn = none ∧ Owned config m₀ { s with guards := s.guards.set i none } := by
  have hg := guard_eq_some.1 hg
  have hconn : g.conn = none := by
    by_contra hconn
    have hb := hs.bound g (List.mem_of_getElem? hg) hconn
    rw [ConnectionGuard.returns, if_pos hb] at hnone
    exact hconn hnone
  have h := hs.of_guards (s.guards.set i none) [] ?_ ?_
  · rw [List.append_nil] at h
    exact ⟨hconn, h⟩
  · intro g' hg' hconn
    rcases List.mem_or_eq_of_mem_set hg' with hg' | hg'
    · exact hs.bound g' hg' hconn
    · cases hg'
  · intro c
    have := held_set_empty hg none rfl c
    rwa [hconn] at this

/-- The connection of the target of a move assignment. -/
def overwritten (s : Scope) : GuardOp → Option Conn
  | .moveAssign self other => if self = other then none else (s.guard self).bind ConnectionGuard.conn
  | _ => none

/-- **One step.**  What is closed is the connection of the target of a move assignment. -/
theorem Owned.step (hs : s.Owned config m₀) (h : s.step config ndebug op = some s') :
    s'.Owned config m₀ ∧ s'.closed = s.closed ++ (s.overwritten op).toList := by
  cases op with
  | construct oks =>
    obtain ⟨⟨o, m⟩, ho, rfl⟩ := Option.map_eq_some_iff.1 h
    exact ⟨hs.construct ho, (List.append_nil _).symm⟩
  | moveConstruct other =>
    obtain ⟨o, ho, rfl⟩ := Option.map_eq_some_iff.1 h
    exact ⟨hs.moveConstruct ho, (List.append_nil _).symm⟩
  | moveAssign self other =>
    obtain ⟨g, hg, h⟩ := Option.bind_eq_some_iff.1 h
    obtain ⟨o, ho, h⟩ := Option.map_eq_some_iff.1 h
    by_cases hself : self = other
    · rw [if_pos hself] at h
      subst h
      exact ⟨hs, by simp [overwritten, hself]⟩
    · rw [if_neg hself] at h
      subst h
      exact ⟨hs.moveAssign hg ho hself, by simp [overwritten, hself, hg]⟩
  | destroy self =>
    obtain ⟨g, hg, h⟩ := Option.bind_eq_some_iff.1 h
    cases hr : g.returns with
    | some c =>
      rw [hr] at h
      obtain ⟨m, hm, rfl⟩ := Option.map_eq_some_iff.1 h
      exact ⟨hs.release hg (ConnectionGuard.conn_of_returns hr) hm, (List.append_nil _).symm⟩
    | none =>
      rw [hr] at h
      obtain rfl := Option.some.inj h
      obtain ⟨hconn, hdrop⟩ := hs.drop hg hr
      simp only [hconn, Option.toList_none, List.append_nil]
      exact ⟨hdrop, (List.append_nil _).symm⟩

/-- **Sequences.**  Nothing is closed if no step overwrites a connection. -/
theorem Owned.run (hs : s.Owned config m₀) (h : tries (Scope.step config ndebug) ops s = some s') :
    s'.Owned config m₀ ∧ (s'.closed = [] ↔ s.closed = [] ∧ ∀ pre op post s₁, ops = pre ++ op :: post →
      tries (Scope.step config ndebug) pre s = some s₁ → s₁.overwritten op = none) := by
  induction ops generalizing s with
  | nil =>
    obtain rfl := Option.some.inj h
    exact ⟨hs, fun hnil => ⟨hnil, fun pre op post _ hops => by simp at hops⟩, fun hnil => hnil.1⟩
  | cons op ops ih =>
    obtain ⟨m, hm, h⟩ := tries_cons_eq_some.1 h
    obtain ⟨hm', hclosed⟩ := hs.step hm
    obtain ⟨howned, hiff⟩ := ih hm' h
    refine ⟨howned, fun hnil => ?_, ?_⟩
    · obtain ⟨hmnil, hlater⟩ := hiff.1 hnil
      rw [hclosed, List.append_eq_nil_iff] at hmnil
      refine ⟨hmnil.1, fun pre op' post s₁ hops hpre => ?_⟩
      cases pre with
      | nil =>
        obtain ⟨rfl, rfl⟩ := List.cons.inj hops
        obtain rfl := Option.some.inj hpre
        exact Option.toList_eq_nil_iff.1 hmnil.2
      | cons op₁ pre =>
        obtain ⟨rfl, rfl⟩ := List.cons.inj hops
        obtain ⟨m₁, hm₁, hpre⟩ := tries_cons_eq_some.1 hpre
        obtain rfl := Option.some.inj (hm.symm.trans hm₁)
        exact hlater pre op' post s₁ rfl hpre
    · rintro ⟨hnil, hall⟩
      refine hiff.2 ⟨?_, fun pre op' post s₁ hops hpre => ?_⟩
      · rw [hclosed, hnil, hall [] op ops s rfl rfl]
        rfl
      · exact hall (op :: pre) op' post s₁ (congrArg (List.cons op) hops) (tries_cons_eq_some.2 ⟨m, hm, hpre⟩)

theorem owned_start {es : List Event} (hkept : m₀.Kept config es) (hq : m₀.Quiet) : (start m₀).Owned config m₀ := by
  constructor
  · exact hq
  · exact ⟨es, hkept⟩
  · exact fun g hg => by cases hg
  · exact fun c => rfl
  · exact fun c => rfl

/-- **Every connection comes back.**  On a manager with no call in progress, after any sequence of constructions,
moves, assignments and destructions at whose end all guards are destroyed: every connection was passed to
`releaseConnection` as often as guards have got it, and `_active_conns` is what it was, exactly if no guard that had
a connection was the target of a move assignment. -/
theorem returned_iff {m₁ : DBManager} {es : List Event} (h₀ : construct config = some m₁)
    (hm : tries (DBManager.step config ndebug) es m₁ = some m₀) (hq : m₀.Quiet)
    (h : tries (Scope.step config ndebug) ops (start m₀) = some s) (hend : ∀ g ∈ s.guards, g = none) :
    ((∀ c, s.released.count c = s.acquired.count c) ∧ s.manager.active_conns = m₀.active_conns) ↔
      ∀ pre op post s₁, ops = pre ++ op :: post → tries (Scope.step config ndebug) pre (start m₀) = some s₁ →
        s₁.overwritten op = none := by
  have hkept := DBManager.kept_of_run h₀ hm
  obtain ⟨howned, hiff⟩ := (owned_start hkept hq).run h
  have hheld : ∀ c, held s.guards c = 0 := fun c => List.countP_eq_zero.2 fun g hg => by simp [hend g hg, holding]
  have hclosed : s.closed = [] ↔ ∀ pre op post s₁, ops = pre ++ op :: post →
      tries (Scope.step config ndebug) pre (start m₀) = some s₁ → s₁.overwritten op = none :=
    hiff.trans (and_iff_right rfl)
  rw [← hclosed]
  constructor
  · rintro ⟨hreturned, -⟩
    refine List.eq_nil_iff_forall_not_mem.2 fun c hc => ?_
    have := howned.acquired c
    have := hreturned c
    have := hheld c
    have := List.count_pos_iff.2 hc
    omega
  · intro hnil
    constructor
    · intro c
      have := howned.acquired c
      rw [hheld, hnil, List.count_nil] at this
      omega
    · -- the same connections are lent as at the start
      have hperm : s.manager.lent.Perm m₀.lent := List.perm_iff_count.2 fun c => by
        rw [howned.lent, hheld, hnil, List.count_nil]
        rfl
      obtain ⟨es', hkept'⟩ := howned.kept
      rw [hkept'.books.active_of_quiet howned.quiet, hkept.books.active_of_quiet hq, hperm.length_eq]

/-- A pool of two connections, opened when they are needed. -/
def pair : Config := { minSize := 0, maxSize := 2 }

/-- Two guards, each with a new connection. -/
def twoGuards : List GuardOp := [.construct (List.replicate 10 true), .construct (List.replicate 10 true)]

/-- The connections change hands: the first is moved to a new guard and the second to the guard that is free then. -/
def handedOver : List GuardOp :=
  twoGuards ++ [.moveConstruct 0, .moveAssign 0 1, .destroy 0, .destroy 1, .destroy 2]

theorem pair_returned :
    ∃ m₀ s, construct pair = some m₀ ∧ tries (Scope.step pair false) handedOver (start m₀) = some s ∧
      s.acquired = [0, 1] ∧ (∀ c, s.released.count c = s.acquired.count c) ∧
      s.manager.active_conns = m₀.active_conns := by
  let m₀ := (construct pair).get rfl
  have hend : (tries (Scope.step pair false) handedOver (start m₀)).map
      (fun s => (s.guards, s.acquired, s.closed)) = some ([none, none, none], [0, 1], []) := by decide +kernel
  obtain ⟨s, hrun, hs⟩ := Option.map_eq_some_iff.1 hend
  obtain ⟨hguards, hs⟩ := Prod.mk.inj hs
  obtain ⟨hacquired, hclosed⟩ := Prod.mk.inj hs
  have h₀ : construct pair = some m₀ := rfl
  have hq : m₀.Quiet := by decide
  have hm : tries (DBManager.step pair false) [] m₀ = some m₀ := rfl
  obtain ⟨-, hiff⟩ := (owned_start (DBManager.kept_construct h₀) hq).run hrun
  exact ⟨m₀, s, h₀, hrun, hacquired, (returned_iff h₀ hm hq hrun (by simp [hguards])).2 (hiff.1 hclosed).2⟩

/-- The second guard is assigned to the first: the connection of the first is not given back. -/
theorem pair_not_returned :
    ∃ m₀ s, construct pair = some m₀ ∧
      tries (Scope.step pair false) (twoGuards ++ [.moveAssign 0 1, .destroy 0, .destroy 1]) (start m₀) = some s ∧
      s.guards = [none, none] ∧ s.acquired = [0, 1] ∧ s.released = [1] ∧ s.manager.active_conns = 1 ∧
      m₀.active_conns = 0 ∧
      ¬ ((∀ c, s.released.count c = s.acquired.count c) ∧ s.manager.active_conns = m₀.active_conns) := by
  let m₀ := (construct pair).get rfl
  have hend : (tries (Scope.step pair false) (twoGuards ++ [.moveAssign 0 1, .destroy 0, .destroy 1]) (start m₀)).map
      (fun s => (s.guards, s.acquired, s.released, s.manager.active_conns)) =
      some ([none, none], [0, 1], [1], 1) := by decide +kernel
  obtain ⟨s, hrun, hs⟩ := Option.map_eq_some_iff.1 hend
  simp only [Prod.mk.injEq] at hs
  obtain ⟨hguards, hacquired, hreleased, hactive⟩ := hs
  refine ⟨m₀, s, rfl, hrun, hguards, hacquired, hreleased, hactive, rfl, fun h => ?_⟩
  have := h.1 0
  rw [hreleased, hacquired] at this
  cases this

end Scope

end StreamGate.DB
