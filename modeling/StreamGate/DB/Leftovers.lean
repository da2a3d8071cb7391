import StreamGate.DB.Accounting

/-!
# What is left in the pool after the shutdown

`shutdown` sets the flag and empties the pool in one critical section.  `releaseConnection` looks at the flag
before it takes the mutex, so a call that has looked already puts its connection into the pool of a manager that
is shut down, where it stays.
-/

namespace StreamGate.DB

open Lib

namespace Call

/-- A call that has seen the flag not set and will put its connection into the pool. -/
def pushes : Call → Bool
  | release (.push _) => true
  | _ => false

/-- The call empties the pool. -/
def sweeps : Call → Bool
  | shutdown .drain | shutdown (.discard _) => true
  | _ => false

/-- A call that has no connection to return. -/
def barren : Call → Bool
  | acquire .entry | acquire .null | release _ | shutdown _ => true
  | _ => false

theorem locked_of_sweeps {call : Call} (h : call.sweeps = true) : call.locked = true := by
  cases call with
  | shutdown s => cases s <;> simp_all [sweeps, locked]
  | acquire a => simp [sweeps] at h
  | release r => simp [sweeps] at h

end Call

namespace DBManager

variable {config : Config} {ndebug : Bool} {m m' m₀ : DBManager} {k : ℕ} {call call' : Call} {es : List Event}

namespace Move

theorem sweep (h : Move config k m call call' m') (hc : call.sweeps = true) :
    call'.pushes = false ∧ call.pushes = false ∧
      (call'.sweeps = true ∨ call' = .shutdown .done ∧ m'.pool = []) := by
  cases h
  case discard hd | discarded hd | dropping hd | dropped hd =>
    obtain ⟨_, _, rfl⟩ := discard_frame hd
    simp_all [Call.sweeps, Call.pushes]
  all_goals simp_all [Call.sweeps, Call.pushes]

/-- After the shutdown, what is in the pool was brought there by a call that had looked before. -/
theorem aside (h : Move config k m call call' m') (hc : call.sweeps = false) (he : call.early = false)
    (hs : m.shutdown = true) :
    call'.sweeps = false ∧
      m'.pool.length + call'.pushes.toNat = m.pool.length + call.pushes.toNat := by
  cases h
  case discard hd | discarded hd | dropping hd | dropped hd =>
    obtain ⟨_, _, rfl⟩ := discard_frame hd
    simp_all [Call.sweeps, Call.pushes]
  all_goals simp_all [Call.sweeps, Call.pushes, Call.early]

/-- While another call has the mutex, nothing is brought there and no call of `shutdown` returns. -/
theorem blocked (h : Move config k m call call' m') (hl : call.locked = false) (hm : m.mutex ≠ none)
    (hs : m.shutdown = true) :
    call'.pushes = call.pushes ∧ call' ≠ .shutdown .done ∧ call'.sweeps = false := by
  cases h
  case discard hd | discarded hd | dropping hd | dropped hd => simp_all [Call.sweeps, Call.pushes, Call.locked]
  all_goals simp_all [Call.sweeps, Call.pushes, Call.locked]

theorem barren (h : Move config k m call call' m') (hc : call.barren = true) (hs : m.shutdown = true) :
    call'.barren = true := by
  cases h <;> simp_all [Call.barren]

end Move

/-- The connections that are about to come into the pool without a look at the flag. -/
def pushing (m : DBManager) : ℕ := m.calls.countP Call.pushes

theorem pushing_set (call' : Call) (hk : m.calls[k]? = some call) (hcalls : m'.calls = m.calls) :
    (m'.become k call').pushing + call.pushes.toNat = m.pushing + call'.pushes.toNat := by
  rw [pushing, become, hcalls]
  exact countP_set_add Call.pushes hk

theorem pushing_begin (m : DBManager) (hc : call.pushes = false) : (m.begin call).pushing = m.pushing := by
  simp [pushing, DBManager.begin, hc]

theorem Step.shutdown_mono {e : Event} (h : Step config m e m') (hs : m.shutdown = true) : m'.shutdown = true := by
  cases h with
  | next ok hk h =>
    rcases h.shutdown_eq with he | ⟨-, -, he⟩
    · exact he.trans hs
    · exact he
  | _ => exact hs

/-- The flag is set, and the constructor has ended. -/
structure Closed (m : DBManager) : Prop where
  remaining : m.remaining = 0
  shutdown : m.shutdown = true

theorem Closed.step {e : Event} (hm : m.Closed) (h : Step config m e m') : m'.Closed := by
  have := h.remaining
  have := hm.remaining
  exact ⟨by omega, h.shutdown_mono hm.shutdown⟩

/-- A call in a state where the flag is set has not seen that it was not, with the mutex. -/
theorem Sound.not_early (hk : Sound config m k call) (hs : m.shutdown = true) : call.early = false := by
  cases he : call.early with
  | false => rfl
  | true =>
    have := hk.early he
    rw [hs] at this
    cases this

/-- The pool is being emptied, and `n` connections are about to come. -/
structure Sweeping (n : ℕ) (m : DBManager) : Prop where
  closed : m.Closed
  sweeper : ∃ (k : ℕ) (call : Call), m.calls[k]? = some call ∧ call.sweeps = true
  pushing : m.pushing = n
  undone : ∀ (k : ℕ) (call : Call), m.calls[k]? = some call → call ≠ .shutdown .done

/-- The pool has been emptied.  Of `n` connections that were about to come, some may have. -/
structure Swept (n : ℕ) (m : DBManager) : Prop where
  closed : m.Closed
  swept : ∀ (k : ℕ) (call : Call), m.calls[k]? = some call → call.sweeps = false
  left : m.pool.length + m.pushing = n

section Sweep

variable {n : ℕ} {e : Event}

theorem Swept.begin (hm : m.Swept n) (hc : call.sweeps = false) (hp : call.pushes = false) :
    (m.begin call).Swept n := by
  constructor
  · exact ⟨hm.closed.remaining, hm.closed.shutdown⟩
  · intro j a hj
    exact forall_append (Q := fun _ a => a.sweeps = false) hm.swept hc hj
  · rw [pushing_begin m hp]
    exact hm.left

theorem Swept.move (hm : m.Swept n) (hheld : m.Held config) (hk : m.calls[k]? = some call)
    (h : Move config k m call call' m') : (m'.become k call').Swept n := by
  have hearly := (hheld.sound k call hk).not_early hm.closed.shutdown
  obtain ⟨hsweeps, hpool⟩ := h.aside (hm.swept k call hk) hearly hm.closed.shutdown
  constructor
  · exact hm.closed.step (.next true hk h)
  · intro j a hj
    rw [become, h.calls] at hj
    exact forall_set (Q := fun _ a => a.sweeps = false) (fun j a _ ha => hm.swept j a ha) hsweeps hj
  · have hset := pushing_set call' hk h.calls
    have := hm.left
    show m'.pool.length + _ = n
    omega

/-- **Once the pool has been emptied**, nothing is taken out of it. -/
theorem Swept.step (hm : m.Swept n) (hheld : m.Held config) (h : Step config m e m') : m'.Swept n := by
  have hr := hm.closed.remaining
  cases h with
  | fill hi | skip hi => omega
  | acquire hi => exact hm.begin rfl rfl
  | releaseNull hi => exact hm.begin rfl rfl
  | release hi hc => exact Swept.begin ⟨⟨hr, hm.closed.shutdown⟩, hm.swept, hm.left⟩ rfl rfl
  | shutdown hi => exact hm.begin rfl rfl
  | next ok hk h => exact hm.move hheld hk h

theorem Sweeping.begin (hm : m.Sweeping n) (hp : call.pushes = false) (hd : call ≠ .shutdown .done) :
    (m.begin call).Sweeping n := by
  obtain ⟨k, a, hk, ha⟩ := hm.sweeper
  constructor
  · exact ⟨hm.closed.remaining, hm.closed.shutdown⟩
  · refine ⟨k, a, ?_, ha⟩
    rw [← hk]
    exact List.getElem?_append_left (List.getElem?_eq_some_iff.1 hk).1
  · rw [pushing_begin m hp]
    exact hm.pushing
  · intro j a hj
    exact forall_append (Q := fun _ a => a ≠ .shutdown .done) hm.undone hd hj

/-- The call that empties the pool goes on, or has done so. -/
theorem Sweeping.move_sweeper (hm : m.Sweeping n) (hheld : m.Held config) (hk : m.calls[k]? = some call)
    (hc : call.sweeps = true) (h : Move config k m call call' m') :
    (m'.become k call').Sweeping n ∨ (m'.become k call').Swept n := by
  have hlt : k < m.calls.length := (List.getElem?_eq_some_iff.1 hk).1
  have hclosed := hm.closed.step (.next true hk h)
  have hset := pushing_set call' hk h.calls
  obtain ⟨hp', hp, hsweep⟩ := h.sweep hc
  rw [hp, hp', hm.pushing] at hset
  rcases hsweep with hs | ⟨rfl, hpool⟩
  · left
    refine ⟨hclosed, ⟨k, call', ?_, hs⟩, hset, fun j a hj => ?_⟩
    · rw [become, h.calls]
      exact List.getElem?_set_self hlt
    · rw [become, h.calls] at hj
      refine forall_set (Q := fun _ a => a ≠ .shutdown .done) (fun j a _ ha => hm.undone j a ha) ?_ hj
      rintro rfl
      simp [Call.sweeps] at hs
  · right
    refine ⟨hclosed, fun j a hj => ?_, ?_⟩
    · rw [become, h.calls] at hj
      -- Nobody else has the mutex.
      refine forall_set (Q := fun _ a => a.sweeps = false) (fun j a hjk ha => ?_) rfl hj
      cases hs : a.sweeps with
      | false => rfl
      | true =>
        have h1 := (hheld.sound j a ha).mutex (Call.locked_of_sweeps hs)
        have h2 := (hheld.sound k call hk).mutex (Call.locked_of_sweeps hc)
        exact absurd (Option.some.inj (h1.symm.trans h2)) hjk
    · show m'.pool.length + _ = n
      rw [hpool, List.length_nil, Nat.zero_add]
      exact hset

/-- Meanwhile the others wait. -/
theorem Sweeping.move_other (hm : m.Sweeping n) (hheld : m.Held config) (hk : m.calls[k]? = some call)
    (hc : call.sweeps = false) (h : Move config k m call call' m') : (m'.become k call').Sweeping n := by
  obtain ⟨j, a, hj, ha⟩ := hm.sweeper
  have hjk : j ≠ k := by
    rintro rfl
    rw [hj] at hk
    obtain rfl := Option.some.inj hk
    rw [ha] at hc
    cases hc
  have hmutex := (hheld.sound j a hj).mutex (Call.locked_of_sweeps ha)
  have hlocked : call.locked = false := by
    cases hl : call.locked with
    | false => rfl
    | true =>
      have := (hheld.sound k call hk).mutex hl
      exact absurd (Option.some.inj (hmutex.symm.trans this)) hjk
  obtain ⟨hp, hd, -⟩ := h.blocked hlocked (by simp [hmutex]) hm.closed.shutdown
  have hset := pushing_set call' hk h.calls
  rw [hp, hm.pushing] at hset
  refine ⟨hm.closed.step (.next true hk h), ⟨j, a, ?_, ha⟩, Nat.add_right_cancel hset, fun j a hj => ?_⟩
  · rw [become, h.calls, List.getElem?_set_ne (Ne.symm hjk)]
    exact hj
  · rw [become, h.calls] at hj
    exact forall_set (Q := fun _ a => a ≠ .shutdown .done) (fun j a _ ha => hm.undone j a ha) hd hj

theorem Sweeping.step (hm : m.Sweeping n) (hheld : m.Held config) (h : Step config m e m') :
    m'.Sweeping n ∨ m'.Swept n := by
  have hr := hm.closed.remaining
  cases h with
  | fill hi | skip hi => omega
  | acquire hi => exact .inl (hm.begin rfl (by simp))
  | releaseNull hi => exact .inl (hm.begin rfl (by simp))
  | release hi hc =>
    exact .inl (Sweeping.begin ⟨⟨hr, hm.closed.shutdown⟩, hm.sweeper, hm.pushing, hm.undone⟩ rfl (by simp))
  | shutdown hi => exact .inl (hm.begin rfl (by simp))
  | @next k ok call call' m' hk h =>
    cases hc : call.sweeps with
    | false => exact .inl (hm.move_other hheld hk hc h)
    | true => exact hm.move_sweeper hheld hk hc h

end Sweep

/-! ### The moment of the shutdown -/

/-- The state that the step found which set the flag. -/
def beforeClosing (config : Config) (ndebug : Bool) : List Event → DBManager → Option DBManager
  | [], _ => none
  | e :: es, m =>
    match step config ndebug e m with
    | none => none
    | some m' => if m'.shutdown then some m else beforeClosing config ndebug es m'

/-- Where the flag is set at the end, there was such a state. -/
theorem exists_beforeClosing (hs : m.shutdown = false) (h : tries (step config ndebug) es m = some m')
    (hs' : m'.shutdown = true) :
    ∃ pre e post m₁ m₂, beforeClosing config ndebug es m = some m₁ ∧ es = pre ++ e :: post ∧
      tries (step config ndebug) pre m = some m₁ ∧ m₁.shutdown = false ∧ step config ndebug e m₁ = some m₂ ∧
      m₂.shutdown = true ∧ tries (step config ndebug) post m₂ = some m' := by
  induction es generalizing m with
  | nil =>
    obtain rfl := Option.some.inj h
    rw [hs] at hs'
    cases hs'
  | cons e es ih =>
    obtain ⟨m₂, he, h⟩ := tries_cons_eq_some.1 h
    cases hs₂ : m₂.shutdown with
    | true => exact ⟨[], e, es, m, m₂, by simp [beforeClosing, he, hs₂], rfl, rfl, hs, he, hs₂, h⟩
    | false =>
      obtain ⟨pre, f, post, m₁, m₃, hb, rfl, hpre, hs₁, hf, hs₃, hpost⟩ := ih hs₂ h
      refine ⟨e :: pre, f, post, m₁, m₃, ?_, rfl, tries_cons_eq_some.2 ⟨m₂, he, hpre⟩, hs₁, hf, hs₃, hpost⟩
      simp [beforeClosing, he, hs₂, hb]

theorem Move.closes (h : Move config k m call call' m') (hs : m.shutdown = false) (hs' : m'.shutdown = true) :
    call = .shutdown .exchange ∧ call' = .shutdown .drain := by
  cases h
  case discard hd | discarded hd | dropping hd | dropped hd =>
    obtain ⟨_, _, rfl⟩ := discard_frame hd
    rw [hs] at hs'
    cases hs'
  all_goals simp_all

/-- A call of `shutdown` sets the flag, and goes on to empty the pool. -/
theorem Kept.sweeping {e : Event} (hm : m.Kept config es) (h : Step config m e m') (hs : m.shutdown = false)
    (hs' : m'.shutdown = true) : m'.Sweeping m.pushing := by
  cases h with
  | @next k ok call call' m' hk h =>
    have hlt : k < m.calls.length := (List.getElem?_eq_some_iff.1 hk).1
    have hremaining : m'.remaining = 0 := by
      rw [h.remaining]
      refine Nat.eq_zero_of_not_pos fun hr => ?_
      rw [(hm.books.fresh hr).1] at hlt
      simp at hlt
    have hundone : ∀ j a, j ≠ k → m.calls[j]? = some a → a ≠ .shutdown .done := by
      rintro j a - ha rfl
      have := (hm.held.sound j _ ha).late rfl
      rw [hs] at this
      cases this
    have hset := pushing_set call' hk h.calls
    obtain ⟨rfl, rfl⟩ := h.closes hs hs'
    refine ⟨⟨hremaining, hs'⟩, ⟨k, .shutdown .drain, ?_, rfl⟩, hset, fun j a hj => ?_⟩
    · rw [become, h.calls]
      exact List.getElem?_set_self hlt
    · rw [become, h.calls] at hj
      exact forall_set (Q := fun _ a => a ≠ .shutdown .done) hundone (by simp) hj
  | _ => exact absurd (hs.symm.trans hs') Bool.false_ne_true

/-! ### Callers that come later -/

/-- The calls from the `n`-th on have no connection to return. -/
theorem barren_step {n : ℕ} {e : Event} (hclosed : m.Closed)
    (hm : ∀ (j : ℕ) (a : Call), m.calls[j]? = some a → n ≤ j → a.barren = true) (h : Step config m e m') :
    ∀ (j : ℕ) (a : Call), m'.calls[j]? = some a → n ≤ j → a.barren = true := by
  intro j a hj
  cases h with
  | fill hi | skip hi => exact hm j a hj
  | acquire hi => exact forall_append (Q := fun j a => n ≤ j → a.barren = true) hm (fun _ => rfl) hj
  | releaseNull hi => exact forall_append (Q := fun j a => n ≤ j → a.barren = true) hm (fun _ => rfl) hj
  | release hi hc => exact forall_append (Q := fun j a => n ≤ j → a.barren = true) hm (fun _ => rfl) hj
  | shutdown hi => exact forall_append (Q := fun j a => n ≤ j → a.barren = true) hm (fun _ => rfl) hj
  | @next k ok call call' m' hk h =>
    rw [become, h.calls] at hj
    exact forall_set (Q := fun j a => n ≤ j → a.barren = true) (fun j a _ ha => hm j a ha)
      (fun hn => h.barren (hm k call hk hn) hclosed.shutdown) hj

/-! ### What is left -/

/-- Along a run after the moment of the shutdown, the pool is being emptied or has been. -/
theorem swept_of_run {n : ℕ} (hm : m.Held config) (hsweep : m.Sweeping n ∨ m.Swept n)
    (h : tries (step config ndebug) es m = some m') : m'.Held config ∧ (m'.Sweeping n ∨ m'.Swept n) := by
  refine tries_inv (I := fun m => m.Held config ∧ (m.Sweeping n ∨ m.Swept n)) ?_ h ⟨hm, hsweep⟩
  rintro m e m' ⟨hm, hsweep⟩ he
  obtain ⟨he, -⟩ := step_eq_some he
  refine ⟨hm.step he, ?_⟩
  rcases hsweep with hsweep | hswept
  · exact hsweep.step hm he
  · exact .inr (hswept.step hm he)

/-- A run from a state in which the pool has been emptied: it is not emptied again, and callers that come get
nothing. -/
theorem run_of_swept {n : ℕ} (hm : m.Swept n) (hheld : m.Held config) (h : tries (step config ndebug) es m = some m') :
    m'.Swept n ∧ ∀ (j : ℕ) (a : Call), m'.calls[j]? = some a → m.calls.length ≤ j → a.barren = true := by
  have hinv : m'.Held config ∧ m'.Swept n ∧
      ∀ (j : ℕ) (a : Call), m'.calls[j]? = some a → m.calls.length ≤ j → a.barren = true := by
    refine tries_inv (I := fun m' => m'.Held config ∧ m'.Swept n ∧
      ∀ (j : ℕ) (a : Call), m'.calls[j]? = some a → m.calls.length ≤ j → a.barren = true) ?_ h ⟨hheld, hm, ?_⟩
    · rintro m₁ e m₂ ⟨hheld, hm, hbarren⟩ he
      obtain ⟨he, -⟩ := step_eq_some he
      exact ⟨hheld.step he, hm.step hheld he, barren_step hm.closed hbarren he⟩
    · intro j a hj hle
      have := (List.getElem?_eq_some_iff.1 hj).1
      omega
  exact hinv.2

/-- Where no call of `releaseConnection` is in progress, none is about to push. -/
theorem pushing_eq_zero : m.pushing = 0 ↔ ∀ c, Call.release (.push c) ∉ m.calls := by
  rw [pushing, List.countP_eq_zero]
  constructor
  · intro h c hc
    exact h _ hc rfl
  · intro h a ha hp
    cases a with
    | release r =>
      cases r with
      | push c => exact h c ha
      | _ => simp [Call.pushes] at hp
    | _ => simp [Call.pushes] at hp

/-- **What is left after the shutdown.**  In a run from the constructor to a state `m` in which a call of
`shutdown` has returned, and on to a state `m'` in which no call of `releaseConnection` is in progress, the pool is
empty, and callers that came after the shutdown have no connection, exactly if no call of `releaseConnection` was
between its look at the flag and the mutex at the moment when the flag was set. -/
theorem leftovers_iff {es' : List Event} (h₀ : construct config = some m₀)
    (h : tries (step config ndebug) es m₀ = some m) (hdone : Call.shutdown .done ∈ m.calls)
    (h' : tries (step config ndebug) es' m = some m') (hquiet : ∀ r, Call.release r ∈ m'.calls → r = .done) :
    (m'.pool = [] ∧ ∀ (j : ℕ) c, m.calls.length ≤ j → m'.calls[j]? ≠ some (.acquire (.acquired c))) ↔
      ∀ m₁, beforeClosing config ndebug es m₀ = some m₁ → ∀ c, Call.release (.push c) ∉ m₁.calls := by
  obtain ⟨-, hs₀, -⟩ := construct_spec h₀
  obtain ⟨k, hk⟩ := List.getElem?_of_mem hdone
  have hs : m.shutdown = true := ((kept_of_run h₀ h).held.sound k _ hk).late rfl
  obtain ⟨pre, e, post, m₁, m₂, hbefore, rfl, hpre, hs₁, he, hs₂, hpost⟩ := exists_beforeClosing hs₀ h hs
  have hkept := kept_of_run h₀ hpre
  have hstep := (step_eq_some he).1
  obtain ⟨hheld, hsweep⟩ := swept_of_run (hkept.held.step hstep) (.inl (hkept.sweeping hstep hs₁ hs₂)) hpost
  -- A call of `shutdown` has returned, so the pool has been emptied.
  have hswept : m.Swept m₁.pushing := by
    rcases hsweep with hsweep | hswept
    · exact absurd rfl (hsweep.undone k _ hk)
    · exact hswept
  obtain ⟨hend, hbarren⟩ := run_of_swept hswept hheld h'
  have hnone : m'.pushing = 0 := pushing_eq_zero.2 fun c hc => by simpa using hquiet _ hc
  have hleft : m'.pool.length = m₁.pushing := by
    have := hend.left
    omega
  have hlater : ∀ (j : ℕ) c, m.calls.length ≤ j → m'.calls[j]? ≠ some (.acquire (.acquired c)) := by
    intro j c hle hj
    have := hbarren j _ hj hle
    simp [Call.barren] at this
  constructor
  · rintro ⟨hpool, -⟩ m₂ hm₂
    obtain rfl := Option.some.inj (hbefore.symm.trans hm₂)
    rw [← pushing_eq_zero, ← hleft, hpool, List.length_nil]
  · intro hpush
    refine ⟨?_, hlater⟩
    rw [← List.length_eq_zero_iff, hleft, pushing_eq_zero]
    exact hpush m₁ hbefore

/-- The events up to the moment when the only connection is about to be put back and the manager to be shut down. -/
def givingBack : List Event :=
  .prefill false :: growing 0 ++ .release (some 0) :: List.replicate 3 (.next 1 true) ++ [.shutdown, .next 2 true]

/-- The call of `shutdown` returns, and then the connection comes into the pool. -/
theorem single_leftover :
    ∃ m₀ m m', construct single = some m₀ ∧
      tries (step single false) (givingBack ++ List.replicate 2 (.next 2 true)) m₀ = some m ∧
      Call.shutdown .done ∈ m.calls ∧ tries (step single false) [.next 1 true] m = some m' ∧
      (∀ r, Call.release r ∈ m'.calls → r = .done) ∧ m'.failed = false ∧ ¬ m'.pool = [] := by
  refine ⟨_, _, _, rfl, rfl, by decide, rfl, ?_, by decide, by decide⟩
  intro r hr
  have hr : Call.release r ∈ [Call.acquire (.acquired 0), .release .done, .shutdown .done] := hr
  simpa using hr

/-- A manager that is shut down before anybody has come, and one caller after that. -/
theorem single_nothing_left :
    ∃ m₀ m m', construct single = some m₀ ∧
      tries (step single false) (.prefill false :: .shutdown :: List.replicate 3 (.next 0 true)) m₀ = some m ∧
      tries (step single false) [.acquire, .next 1 true] m = some m' ∧ m'.pool = [] ∧
      ∀ (j : ℕ) c, m.calls.length ≤ j → m'.calls[j]? ≠ some (.acquire (.acquired c)) := by
  let m₀ := (construct single).get rfl
  let m := (tries (step single false) (.prefill false :: .shutdown :: List.replicate 3 (.next 0 true)) m₀).get rfl
  let m' := (tries (step single false) [.acquire, .next 1 true] m).get rfl
  have hrun : tries (step single false) (.prefill false :: .shutdown :: List.replicate 3 (.next 0 true)) m₀ =
      some m := rfl
  have hrun' : tries (step single false) [.acquire, .next 1 true] m = some m' := rfl
  refine ⟨m₀, m, m', rfl, hrun, hrun', (leftovers_iff rfl hrun (by decide) hrun' ?_).2 ?_⟩
  · intro r hr
    have hr : Call.release r ∈ [Call.shutdown .done, .acquire .null] := hr
    simp at hr
  · intro m₁ hm₁ c hc
    have hm₁ : some [Call.shutdown .exchange] = some m₁.calls := congrArg (Option.map calls) hm₁
    rw [← Option.some.inj hm₁] at hc
    simp at hc

end DBManager

end StreamGate.DB
