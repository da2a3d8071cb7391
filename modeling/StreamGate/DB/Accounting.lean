import StreamGate.DB.Manager

/-!
# What the counters of the pool count

`_total_conns` counts the connections in use and the places reserved, and every connection of the constructor
twice.  So it is too large by the number of these connections as long as the manager is not shut down, and the
limit of the pool holds unless it wraps around.
-/

namespace StreamGate.DB

open Lib

/-- Between `_mutex.lock()` and `_mutex.unlock()`. -/
@[simp] def Acquire.locked : Acquire → Bool
  | top | examine | read | grow _ | wait | woken => true
  | entry | lock | validate _ | invalid | create | refused | relock | asleep => false
  | mark _ | marked _ | compare _ _ | acquired _ | null => false

@[simp] def Shutdown.locked : Shutdown → Bool
  | exchange | drain | discard _ => true
  | _ => false

namespace Call

/-- The call has the mutex. -/
def locked : Call → Bool
  | acquire a => a.locked
  | release _ => false
  | shutdown s => s.locked

/-- The call has seen that `_shutdown` is not set, and has had the mutex since. -/
def early : Call → Bool
  | acquire .examine | acquire .read | acquire (.grow _) => true
  | _ => false

/-- The call has seen that `_shutdown` is set, or has set it. -/
def late : Call → Bool
  | release (.discard _ _) | shutdown .drain | shutdown (.discard _) | shutdown .done => true
  | _ => false

/-- The call has a connection, or a place for one that is being opened. -/
def holds : Call → Bool
  | acquire (.validate _) | acquire .create | acquire (.mark _) | acquire (.marked _) | acquire (.compare _ _) => true
  | release (.mark _) | release (.marked _) | release (.test _) | release (.discard _ _) | release (.push _) => true
  | _ => false

/-- The call has lost its connection, or the place for it, and has not told so. -/
def owes : Call → Bool
  | acquire .invalid | acquire .refused => true
  | _ => false

/-- The connection of the call counts as active. -/
def active : Call → Bool
  | acquire (.marked _) | acquire (.compare _ _) | release (.mark _) => true
  | _ => false

theorem locked_of_early {call : Call} (h : call.early = true) : call.locked = true := by
  cases call with
  | acquire a => cases a <;> simp_all [early, locked]
  | release r => simp [early] at h
  | shutdown s => simp [early] at h

/-- A call that has returned has nothing any more. -/
theorem of_returned {call : Call} (h : call.returned = true) :
    call.holds = false ∧ call.owes = false ∧ call.active = false ∧ call.locked = false := by
  cases call with
  | acquire a => cases a <;> simp_all [returned, holds, owes, active, locked]
  | release r => cases r <;> simp_all [returned, holds, owes, active, locked]
  | shutdown s => cases s <;> simp_all [returned, holds, owes, active, locked]

end Call

namespace DBManager

variable {config : Config} {ndebug : Bool} {m m' : DBManager} {k : ℕ} {call call' : Call}

/-- The connections that are idle, being validated, being opened or lent. -/
def inUse (m : DBManager) : ℕ := m.pool.length + m.lent.length + m.calls.countP Call.holds

/-- The places that are still counted for connections that are gone. -/
def owed (m : DBManager) : ℕ := m.calls.countP Call.owes

/-- The connections that count as active. -/
def inHand (m : DBManager) : ℕ := m.lent.length + m.calls.countP Call.active

/-- No call is in progress. -/
def Quiet (m : DBManager) : Prop := m.remaining = 0 ∧ ∀ call ∈ m.calls, call.returned = true

instance (m : DBManager) : Decidable m.Quiet := inferInstanceAs (Decidable (_ ∧ _))

/-! ### The mutex -/

@[simp] theorem assert_eq (p : Prop) [Decidable p] (m : DBManager) :
    m.assert p = { m with failed := m.failed || !decide p } := rfl

/-- To destroy a connection concerns `_total_conns` alone. -/
theorem discard_frame {d : Discard} {o : Option Discard} (h : m.discard d = (o, m')) :
    ∃ total failed, m' = { m with total_conns := total, failed := failed } := by
  cases d <;> simp only [discard, Prod.mk.injEq] at h <;> obtain ⟨-, rfl⟩ := h
  · exact ⟨_, _, rfl⟩
  · exact ⟨_, _, rfl⟩
  · exact ⟨_, _, rfl⟩
  · exact ⟨_, _, rfl⟩

namespace Move

/-- A move changes neither the list of the calls nor what is left of the constructor. -/
theorem frame (h : Move config k m call call' m') : m'.calls = m.calls ∧ m'.remaining = m.remaining := by
  cases h
  case discard hd | discarded hd | dropping hd | dropped hd =>
    obtain ⟨_, _, rfl⟩ := discard_frame hd
    exact ⟨rfl, rfl⟩
  all_goals exact ⟨rfl, rfl⟩

theorem calls (h : Move config k m call call' m') : m'.calls = m.calls := h.frame.1

theorem remaining (h : Move config k m call call' m') : m'.remaining = m.remaining := h.frame.2

/-- A move keeps the mutex as it is, or takes it, or releases it. -/
theorem mutex (h : Move config k m call call' m') :
    (call'.locked = call.locked ∧ m'.mutex = m.mutex) ∨
    (call'.locked = true ∧ m.mutex = none ∧ m'.mutex = some k) ∨
    (call.locked = true ∧ call'.locked = false ∧ m'.mutex = none) := by
  cases h
  case discard hd | discarded hd | dropping hd | dropped hd =>
    obtain ⟨_, _, rfl⟩ := discard_frame hd
    exact .inl ⟨rfl, rfl⟩
  all_goals simp [Call.locked, *]

/-- `_shutdown` is set by a call that has the mutex. -/
theorem shutdown_eq (h : Move config k m call call' m') :
    m'.shutdown = m.shutdown ∨ (call.locked = true ∧ call'.late = true ∧ m'.shutdown = true) := by
  cases h
  case discard hd | discarded hd | dropping hd | dropped hd =>
    obtain ⟨_, _, rfl⟩ := discard_frame hd
    exact .inl rfl
  all_goals simp [Call.locked, Call.late]

/-- A failed assertion is not forgotten. -/
theorem failed (h : Move config k m call call' m') (hf : m'.failed = false) : m.failed = false := by
  cases h
  case discard hd | discarded hd | dropping hd | dropped hd =>
    revert hf
    rename Discard => d
    cases d <;> simp [DBManager.discard] at hd <;> grind
  all_goals simp_all

theorem early_to (h : Move config k m call call' m') (hm : call.early = true → m.shutdown = false)
    (hc : call'.early = true) : m'.shutdown = false := by
  cases h <;> simp_all [Call.early]

theorem late_to (h : Move config k m call call' m') (hm : call.late = true → m.shutdown = true)
    (hc : call'.late = true) : m'.shutdown = true := by
  cases h
  case discard hd | dropping hd | dropped hd =>
    obtain ⟨_, _, rfl⟩ := discard_frame hd
    exact hm rfl
  all_goals simp_all [Call.late]

theorem grow_to {current : Int32} (h : Move config k m call (.acquire (.grow current)) m') :
    current < config.maxSize := by
  cases h
  assumption

end Move

/-! ### The mutex -/

/-- What the mutex and `_shutdown` say of the call `k`. -/
structure Sound (config : Config) (m : DBManager) (k : ℕ) (call : Call) : Prop where
  mutex : call.locked = true → m.mutex = some k
  early : call.early = true → m.shutdown = false
  late : call.late = true → m.shutdown = true
  grow : ∀ current, call = .acquire (.grow current) → current < config.maxSize

/-- The critical sections exclude one another. -/
structure Held (config : Config) (m : DBManager) : Prop where
  sound : ∀ (k : ℕ) (call : Call), m.calls[k]? = some call → Sound config m k call
  holder : ∀ k, m.mutex = some k → ∃ call : Call, m.calls[k]? = some call ∧ call.locked = true

theorem Sound.of_eq (hm : Sound config m k call) (hmutex : m'.mutex = m.mutex)
    (hshutdown : m'.shutdown = m.shutdown) : Sound config m' k call := by
  constructor
  · intro hl
    rw [hmutex, hm.mutex hl]
  · intro he
    rw [hshutdown, hm.early he]
  · intro hl
    rw [hshutdown, hm.late hl]
  · exact hm.grow

theorem Held.of_eq (hm : m.Held config) (hcalls : m'.calls = m.calls) (hmutex : m'.mutex = m.mutex)
    (hshutdown : m'.shutdown = m.shutdown) : m'.Held config := by
  constructor
  · intro k call hk
    rw [hcalls] at hk
    exact (hm.sound k call hk).of_eq hmutex hshutdown
  · intro k hk
    rw [hmutex] at hk
    rw [hcalls]
    exact hm.holder k hk

/-- A call begins outside of them. -/
theorem Held.begin (hm : m.Held config) (hl : call.locked = false) (hlate : call.late = false) :
    (m.begin call).Held config := by
  have hearly : call.early = false := by
    cases he : call.early with
    | false => rfl
    | true => simp [Call.locked_of_early he] at hl
  constructor
  · intro j a hj
    apply forall_append (Q := Sound config (m.begin call)) _ _ hj
    · intro j a ha
      exact (hm.sound j a ha).of_eq rfl rfl
    · constructor
      · simp [hl]
      · simp [hearly]
      · simp [hlate]
      · rintro current rfl
        simp [Call.locked] at hl
  · intro j hj
    obtain ⟨a, ha, hla⟩ := hm.holder j hj
    refine ⟨a, ?_, hla⟩
    rw [← ha]
    exact List.getElem?_append_left (List.getElem?_eq_some_iff.1 ha).1

/-- What a move of the call `k` leaves of another call. -/
theorem Sound.other {j : ℕ} {a : Call} (hjk : j ≠ k) (ha : Sound config m j a) (hk : Sound config m k call)
    (h : Move config k m call call' m') : Sound config m' j a := by
  -- A call that has the mutex now is the only one.
  have hout : call.locked = true → a.locked = true → False := by
    intro hc hl
    have := (hk.mutex hc).symm.trans (ha.mutex hl)
    exact hjk (Option.some.inj this).symm
  constructor
  · intro hl
    rcases h.mutex with ⟨-, hm⟩ | ⟨-, hm, -⟩ | ⟨hc, -, -⟩
    · rw [hm, ha.mutex hl]
    · rw [ha.mutex hl] at hm
      cases hm
    · exact (hout hc hl).elim
  · intro he
    rcases h.shutdown_eq with hs | ⟨hc, -, -⟩
    · rw [hs, ha.early he]
    · exact (hout hc (Call.locked_of_early he)).elim
  · intro hl
    rcases h.shutdown_eq with hs | ⟨-, -, hs⟩
    · rw [hs, ha.late hl]
    · exact hs
  · exact ha.grow

/-- A manager that is open after a move was so before, and the call has not seen anything else. -/
theorem Move.open_of (h : Move config k m call call' m') (hk : Sound config m k call) (hs : m'.shutdown = false) :
    m.shutdown = false ∧ call.late = false := by
  have hopen : m.shutdown = false := by
    rcases h.shutdown_eq with he | ⟨-, -, he⟩
    · rw [← he, hs]
    · rw [hs] at he
      cases he
  refine ⟨hopen, ?_⟩
  cases hl : call.late with
  | false => rfl
  | true =>
    have := hk.late hl
    rw [hopen] at this
    cases this

theorem Sound.move (hk : Sound config m k call) (h : Move config k m call call' m') :
    Sound config m' k call' := by
  constructor
  · intro hl
    rcases h.mutex with ⟨hc, hm⟩ | ⟨-, -, hm⟩ | ⟨-, hc, -⟩
    · rw [hm, hk.mutex (hc ▸ hl)]
    · exact hm
    · simp [hl] at hc
  · exact h.early_to hk.early
  · exact h.late_to hk.late
  · rintro current rfl
    exact h.grow_to

theorem Held.move (hm : m.Held config) (hk : m.calls[k]? = some call) (h : Move config k m call call' m') :
    (m'.become k call').Held config := by
  have hsound := hm.sound k call hk
  have hlt : k < m.calls.length := (List.getElem?_eq_some_iff.1 hk).1
  constructor
  · intro j a hj
    rw [become, h.calls] at hj
    have : Sound config m' j a :=
      forall_set (Q := Sound config m') (fun j a hjk ha => (hm.sound j a ha).other hjk hsound h) (hsound.move h) hj
    exact this.of_eq rfl rfl
  · intro j (hj : m'.mutex = some j)
    simp only [become, h.calls]
    by_cases hjk : j = k
    · subst hjk
      refine ⟨call', List.getElem?_set_self hlt, ?_⟩
      rcases h.mutex with ⟨hc, hmm⟩ | ⟨hc, -, -⟩ | ⟨-, -, hmm⟩
      · obtain ⟨a, ha, hl⟩ := hm.holder j (hmm ▸ hj)
        obtain rfl := Option.some.inj (hk.symm.trans ha)
        rw [hc, hl]
      · exact hc
      · rw [hmm] at hj
        cases hj
    · rw [List.getElem?_set_ne (Ne.symm hjk)]
      rcases h.mutex with ⟨-, hmm⟩ | ⟨-, -, hmm⟩ | ⟨-, -, hmm⟩
      · exact hm.holder j (hmm ▸ hj)
      · rw [hmm] at hj
        exact absurd (Option.some.inj hj).symm hjk
      · rw [hmm] at hj
        cases hj

theorem Held.step {e : Event} (hm : m.Held config) (h : Step config m e m') : m'.Held config := by
  cases h with
  | fill hi => exact hm.of_eq rfl rfl rfl
  | skip hi => exact hm.of_eq rfl rfl rfl
  | acquire hi => exact hm.begin rfl rfl
  | releaseNull hi => exact hm.begin rfl rfl
  | release hi hc =>
    apply Held.begin
    · exact hm.of_eq rfl rfl rfl
    · rfl
    · rfl
  | shutdown hi => exact hm.begin rfl rfl
  | next ok hk h => exact hm.move hk h

/-! ### The counters -/

/-- What a call has to do with the connections in use, and with the places owed. -/
def weight (m : DBManager) (call : Call) : ℕ := m.pool.length + m.lent.length + call.holds.toNat + call.owes.toNat

namespace Move

/-- **One move and `_total_conns`.**  Until the shutdown it changes as the connections in use and the places
owed do. -/
theorem total (h : Move config k m call call' m') (hs : m'.shutdown = false) (hlate : call.late = false) :
    (m'.total_conns = m.total_conns ∧ m'.weight call' = m.weight call) ∨
    (m'.total_conns = m.total_conns + 1 ∧ m'.weight call' = m.weight call + 1 ∧
      ∃ current, call = .acquire (.grow current) ∧ m.total_conns = current) ∨
    (m'.total_conns = m.total_conns - 1 ∧ m'.weight call' + 1 = m.weight call) := by
  cases h
  case discard hd | discarded hd | dropping hd | dropped hd => simp [Call.late] at hlate
  case exchange => simp at hs
  case drop => simp [Call.late] at hlate
  case pop hp =>
    refine .inl ⟨rfl, ?_⟩
    simp only [weight, assert, Call.holds, Call.owes, hp, List.length_cons, Bool.toNat_true, Bool.toNat_false]
    omega
  case compare | push =>
    refine .inl ⟨rfl, ?_⟩
    simp only [weight, assert, Call.holds, Call.owes, List.length_append, List.length_singleton, Bool.toNat_true,
      Bool.toNat_false]
    omega
  case reserve ht => simp [weight, Call.holds, Call.owes, ht]
  all_goals simp [weight, Call.holds, Call.owes]

/-- One move and the connections in use. -/
theorem inUse (h : Move config k m call call' m') :
    m'.pool.length + m'.lent.length + call'.holds.toNat ≤ m.pool.length + m.lent.length + call.holds.toNat ∨
    (∃ current, call = .acquire (.grow current)) ∧ m'.shutdown = m.shutdown := by
  cases h
  case discard hd | discarded hd | dropping hd | dropped hd =>
    obtain ⟨_, _, rfl⟩ := discard_frame hd
    simp [Call.holds]
  case pop hp =>
    left
    simp only [assert, Call.holds, hp, List.length_cons, Bool.toNat_true, Bool.toNat_false]
    omega
  case drop hp => simp [Call.holds, hp]
  case compare =>
    left
    simp only [assert, Call.holds, List.length_append, List.length_singleton, Bool.toNat_true, Bool.toNat_false]
    omega
  case push =>
    left
    simp only [Call.holds, List.length_append, List.length_singleton, Bool.toNat_true, Bool.toNat_false]
    omega
  case reserve ht => exact .inr ⟨⟨_, rfl⟩, rfl⟩
  all_goals simp [Call.holds]

/-- **One move and `_active_conns`.** -/
theorem active (h : Move config k m call call' m') :
    (m'.active_conns = m.active_conns ∧ m'.lent.length + call'.active.toNat = m.lent.length + call.active.toNat) ∨
    (m'.active_conns = m.active_conns + 1 ∧
      m'.lent.length + call'.active.toNat = m.lent.length + call.active.toNat + 1) ∨
    (m'.active_conns = m.active_conns - 1 ∧
      m'.lent.length + call'.active.toNat + 1 = m.lent.length + call.active.toNat) := by
  cases h
  case discard hd | discarded hd | dropping hd | dropped hd =>
    obtain ⟨_, _, rfl⟩ := discard_frame hd
    simp [Call.active]
  all_goals simp [Call.active]

end Move

/-- The connections that the constructor opens. -/
def prefilled (es : List Event) : ℕ := es.countP (· = .prefill true)

theorem prefilled_append (es : List Event) (e : Event) :
    prefilled (es ++ [e]) = prefilled es + (decide (e = .prefill true)).toNat := by
  rw [prefilled, prefilled, List.countP_append, List.countP_singleton]
  cases decide (e = .prefill true) <;> rfl

/-- **What the counters say**, after `p` connections were opened by the constructor. -/
structure Books (p : ℕ) (m : DBManager) : Prop where
  total : m.shutdown = false → m.total_conns = Int32.ofInt (m.inUse + m.owed + p : ℕ)
  active : m.active_conns = Int32.ofInt (m.inHand : ℕ)
  /-- Nobody calls before the constructor has ended. -/
  fresh : 0 < m.remaining → m.calls = [] ∧ m.lent = [] ∧ m.pool.length = p

section Changes

variable {p : ℕ}

theorem inUse_begin (m : DBManager) (call : Call) : (m.begin call).inUse = m.inUse + call.holds.toNat := by
  simp only [inUse, DBManager.begin, List.countP_append, List.countP_singleton]
  cases call.holds <;> simp; omega

theorem owed_begin (m : DBManager) (call : Call) : (m.begin call).owed = m.owed + call.owes.toNat := by
  simp only [owed, DBManager.begin, List.countP_append, List.countP_singleton]
  cases call.owes <;> simp

theorem inHand_begin (m : DBManager) (call : Call) : (m.begin call).inHand = m.inHand + call.active.toNat := by
  simp only [inHand, DBManager.begin, List.countP_append, List.countP_singleton]
  cases call.active <;> simp; omega

/-- A connection is given back: it is in the hands of the call now. -/
theorem inUse_release {c : Conn} (hc : c ∈ m.lent) :
    ({ m with lent := m.lent.erase c }.begin (.release (.mark c))).inUse = m.inUse := by
  have hlen := List.length_erase_of_mem hc
  have hpos := List.length_pos_of_mem hc
  rw [inUse_begin]
  simp only [inUse, hlen, Call.holds, Bool.toNat_true]
  omega

theorem inHand_release {c : Conn} (hc : c ∈ m.lent) :
    ({ m with lent := m.lent.erase c }.begin (.release (.mark c))).inHand = m.inHand := by
  have hlen := List.length_erase_of_mem hc
  have hpos := List.length_pos_of_mem hc
  rw [inHand_begin]
  simp only [inHand, hlen, Call.active, Bool.toNat_true]
  omega

/-- The connections in use, seen from the call `k`. -/
theorem inUse_owed_set (call' : Call) (hk : m.calls[k]? = some call) (hcalls : m'.calls = m.calls) :
    (m'.become k call').inUse + (m'.become k call').owed +
      m.weight call = m.inUse + m.owed + m'.weight call' := by
  have h1 := countP_set_add Call.holds (b := call') hk
  have h2 := countP_set_add Call.owes (b := call') hk
  simp only [inUse, owed, weight, become, hcalls]
  omega

theorem inUse_set (call' : Call) (hk : m.calls[k]? = some call) (hcalls : m'.calls = m.calls) :
    (m'.become k call').inUse + (m.pool.length + m.lent.length + call.holds.toNat) =
      m.inUse + (m'.pool.length + m'.lent.length + call'.holds.toNat) := by
  have h1 := countP_set_add Call.holds (b := call') hk
  simp only [inUse, become, hcalls]
  omega

theorem inHand_set (call' : Call) (hk : m.calls[k]? = some call) (hcalls : m'.calls = m.calls) :
    (m'.become k call').inHand + (m.lent.length + call.active.toNat) =
      m.inHand + (m'.lent.length + call'.active.toNat) := by
  have h1 := countP_set_add Call.active (b := call') hk
  simp only [inHand, become, hcalls]
  omega

theorem Books.move (hb : m.Books p) (hm : m.Held config) (hk : m.calls[k]? = some call)
    (h : Move config k m call call' m') : (m'.become k call').Books p := by
  have hset := inUse_owed_set call' hk h.calls
  have hhand := inHand_set call' hk h.calls
  constructor
  · intro hs
    obtain ⟨hopen, hlate⟩ := h.open_of (hm.sound k call hk) hs
    have htotal := hb.total hopen
    show m'.total_conns = _
    rcases h.total hs hlate with ⟨ht, hw⟩ | ⟨ht, hw, -⟩ | ⟨ht, hw⟩
    · rw [ht, htotal]
      congr 1
      omega
    · rw [ht, htotal, ofInt_add_one]
      congr 1
      omega
    · rw [ht, htotal, ofInt_sub_one]
      congr 1
      omega
  · show m'.active_conns = _
    rcases h.active with ⟨ht, hw⟩ | ⟨ht, hw⟩ | ⟨ht, hw⟩
    · rw [ht, hb.active]
      congr 1
      omega
    · rw [ht, hb.active, ofInt_add_one]
      congr 1
      omega
    · rw [ht, hb.active, ofInt_sub_one]
      congr 1
      omega
  · intro hr
    have hcalls := (hb.fresh (h.remaining ▸ hr)).1
    simp [hcalls] at hk

/-- A call that begins has no connection that was not lent. -/
theorem Books.begin (hb : m.Books p) (hi : m.remaining = 0) (hheld : call.holds = false) (howes : call.owes = false)
    (hactive : call.active = false) : (m.begin call).Books p := by
  constructor
  · rw [inUse_begin, owed_begin, hheld, howes]
    exact hb.total
  · rw [inHand_begin, hactive]
    exact hb.active
  · intro hr
    exact absurd hi (Nat.ne_of_gt hr)

theorem Books.release {c : Conn} (hb : m.Books p) (hi : m.remaining = 0) (hc : c ∈ m.lent) :
    ({ m with lent := m.lent.erase c }.begin (.release (.mark c))).Books p := by
  constructor
  · rw [inUse_release hc, owed_begin]
    exact hb.total
  · rw [inHand_release hc]
    exact hb.active
  · intro hr
    exact absurd hi (Nat.ne_of_gt hr)

theorem Books.step {e : Event} (hb : m.Books p) (hm : m.Held config) (h : Step config m e m') :
    m'.Books (p + (decide (e = .prefill true)).toNat) := by
  cases h with
  | fill hi =>
    obtain ⟨hcalls, hlent, hpool⟩ := hb.fresh (by omega)
    constructor
    · intro hs
      show m.total_conns + 1 + 1 = _
      rw [hb.total hs, ofInt_add_one, ofInt_add_one]
      congr 1
      simp [inUse, owed]
      omega
    · exact hb.active
    · intro hr
      exact ⟨hcalls, hlent, by simp [hpool]⟩
  | skip hi => exact ⟨hb.total, hb.active, fun _ => hb.fresh (by omega)⟩
  | acquire hi => exact hb.begin hi rfl rfl rfl
  | releaseNull hi => exact hb.begin hi rfl rfl rfl
  | release hi hc => exact hb.release hi hc
  | shutdown hi => exact hb.begin hi rfl rfl rfl
  | next ok hk h => exact hb.move hm hk h

end Changes

/-! ### Runs -/

/-- What holds after a run with the events `es`. -/
structure Kept (config : Config) (es : List Event) (m : DBManager) : Prop where
  held : m.Held config
  books : m.Books (prefilled es)
  /-- The constructor opens at most `minSize` connections. -/
  bound : ((prefilled es + m.remaining : ℕ) : ℤ) ≤ config.minSize.toInt
  /-- The sizes are as the constructor wants them. -/
  sizes : config.minSize ≤ config.maxSize

/-- What the constructor starts with. -/
theorem construct_spec {m₀ : DBManager} (h : construct config = some m₀) :
    m₀.remaining = config.minSize.toInt.toNat ∧ m₀.shutdown = false ∧ m₀.mutex = none ∧ m₀.calls = [] ∧
      m₀.lent = [] ∧ m₀.pool = [] ∧ m₀.failed = false := by
  unfold construct at h
  split at h
  · cases h
  · obtain rfl := Option.some.inj h
    exact ⟨rfl, rfl, rfl, rfl, rfl, rfl, rfl⟩

theorem kept_construct {m₀ : DBManager} (h : construct config = some m₀) : m₀.Kept config [] := by
  unfold construct at h
  split at h
  · cases h
  · rename_i hsizes
    obtain rfl := Option.some.inj h
    rw [not_or, Int32.not_lt, Int32.not_lt] at hsizes
    have hpos : 0 ≤ config.minSize.toInt := by simpa [Int32.le_iff_toInt_le] using hsizes.1
    constructor
    · constructor
      · intro k call hk
        simp at hk
      · intro k hk
        cases hk
    · constructor
      · intro _
        rfl
      · rfl
      · intro _
        exact ⟨rfl, rfl, rfl⟩
    · show ((0 + config.minSize.toInt.toNat : ℕ) : ℤ) ≤ _
      omega
    · exact hsizes.2

theorem Step.remaining {e : Event} (h : Step config m e m') :
    m'.remaining + (decide (e = .prefill true)).toNat ≤ m.remaining := by
  cases h with
  | fill hi | skip hi => simp [hi]
  | next ok hk h => simp [become, h.remaining]
  | _ => simp [DBManager.begin]

theorem Kept.step {es : List Event} {e : Event} (hm : m.Kept config es) (h : Step config m e m') :
    m'.Kept config (es ++ [e]) := by
  constructor
  · exact hm.held.step h
  · rw [prefilled_append]
    exact hm.books.step hm.held h
  · have := h.remaining
    have := hm.bound
    rw [prefilled_append]
    omega
  · exact hm.sizes

theorem kept_of_run {m₀ : DBManager} {es : List Event} (h₀ : construct config = some m₀)
    (h : tries (step config ndebug) es m₀ = some m) : m.Kept config es :=
  tries_history (fun _ _ _ _ hm he => hm.step (step_eq_some he).1) h (kept_construct h₀)

/-! ### The limit -/

/-- The limit of the pool, after `p` connections were opened by the constructor. -/
structure Limit (config : Config) (p : ℕ) (m : DBManager) : Prop where
  /-- `_total_conns` is at most `maxSize`, or no larger than the constructor has made it. -/
  total : m.shutdown = false → ((m.inUse + m.owed + p : ℕ) : ℤ) ≤ config.maxSize.toInt ∨ m.inUse + m.owed ≤ p
  inUse : (m.inUse : ℤ) ≤ config.maxSize.toInt

section Limits

variable {es : List Event} {e : Event}

theorem Kept.prefilled_le (hm : m.Kept config es) : (prefilled es : ℤ) ≤ config.maxSize.toInt := by
  have := hm.bound
  have := Int32.le_iff_toInt_le.1 hm.sizes
  omega

/-- Until the shutdown, a limit of `_total_conns` is one of the connections in use. -/
theorem Kept.inUse_le (hm : m.Kept config es)
    (h : ((m.inUse + m.owed + prefilled es : ℕ) : ℤ) ≤ config.maxSize.toInt ∨ m.inUse + m.owed ≤ prefilled es) :
    (m.inUse : ℤ) ≤ config.maxSize.toInt := by
  have := hm.prefilled_le
  omega

/-- The counter has its true value as long as the constructor opens less than `2 ^ 30` connections. -/
theorem Limit.total_eq (hl : m.Limit config (prefilled es)) (hm : m.Kept config es) (hp : prefilled es < 2 ^ 30)
    (hs : m.shutdown = false) : m.total_conns.toInt = (m.inUse + m.owed + prefilled es : ℕ) := by
  have hmax := Int32.toInt_lt config.maxSize
  have := hl.total hs
  rw [hm.books.total hs, Int32.toInt_ofInt_of_le (by omega) (by omega)]

theorem Limit.move (hl : m.Limit config (prefilled es)) (hm : m.Kept config es) (hp : prefilled es < 2 ^ 30)
    (hk : m.calls[k]? = some call) (h : Move config k m call call' m') :
    (m'.become k call').Limit config (prefilled es) := by
  have hsound := hm.held.sound k call hk
  have hkept : (m'.become k call').Kept config es := by
    have := hm.bound
    exact ⟨hm.held.move hk h, hm.books.move hm.held hk h, by rwa [become, h.remaining], hm.sizes⟩
  have hset := inUse_owed_set call' hk h.calls
  have huse := inUse_set call' hk h.calls
  have htotal : m'.shutdown = false →
      (((m'.become k call').inUse + (m'.become k call').owed + prefilled es : ℕ) : ℤ) ≤ config.maxSize.toInt ∨
        (m'.become k call').inUse + (m'.become k call').owed ≤ prefilled es := by
    intro hs
    obtain ⟨hopen, hlate⟩ := h.open_of hsound hs
    have := hl.total hopen
    rcases h.total hs hlate with ⟨-, hw⟩ | ⟨-, hw, current, rfl, hc⟩ | ⟨-, hw⟩
    · omega
    · -- A place is reserved: the counter, which is exact, is less than `maxSize`.
      have hlt := Int32.lt_iff_toInt_lt.1 (hsound.grow current rfl)
      rw [← hc, hl.total_eq hm hp hopen] at hlt
      omega
    · omega
  constructor
  · exact htotal
  · cases hs : m'.shutdown with
    | false => exact hkept.inUse_le (htotal hs)
    | true =>
      rcases h.inUse with hle | ⟨⟨current, rfl⟩, hsame⟩
      · have := hl.inUse
        omega
      · rw [hs, hsound.early rfl] at hsame
        cases hsame

theorem Limit.of_eq {p : ℕ} (hl : m.Limit config p) (hs : m'.shutdown = m.shutdown) (hu : m'.inUse = m.inUse)
    (ho : m'.owed = m.owed) : m'.Limit config p := by
  constructor
  · rw [hs, hu, ho]
    exact hl.total
  · rw [hu]
    exact hl.inUse

theorem Step.fill_inUse (h : Step config m (.prefill true) m') :
    m'.inUse + m'.owed = m.inUse + m.owed + 1 := by
  cases h with
  | fill hi =>
    simp only [inUse, owed, List.length_append, List.length_singleton]
    omega

/-- What the constructor counts in its loop. -/
theorem Kept.fresh (hm : m.Kept config es) (h : 0 < m.remaining) : m.inUse + m.owed = prefilled es := by
  obtain ⟨hcalls, hlent, hpool⟩ := hm.books.fresh h
  simp [inUse, owed, hcalls, hlent, hpool]

theorem Limit.step (hl : m.Limit config (prefilled es)) (hm : m.Kept config es)
    (hp : prefilled (es ++ [e]) < 2 ^ 30) (h : Step config m e m') :
    m'.Limit config (prefilled (es ++ [e])) := by
  have hkept := hm.step h
  rw [prefilled_append] at hp ⊢
  cases h with
  | fill hi =>
    have hfresh := hm.fresh (by omega)
    have hfill := (Step.fill hi : Step config m _ _).fill_inUse
    rw [hfresh] at hfill
    exact ⟨fun _ => .inr (Nat.le_of_eq hfill), hkept.inUse_le (.inr (by simp [hfill, prefilled_append]))⟩
  | skip hi => exact hl.of_eq rfl rfl rfl
  | acquire hi => exact hl.of_eq rfl (inUse_begin m _) (owed_begin m _)
  | releaseNull hi => exact hl.of_eq rfl (inUse_begin m _) (owed_begin m _)
  | release hi hc => exact hl.of_eq rfl (inUse_release hc) (owed_begin _ _)
  | shutdown hi => exact hl.of_eq rfl (inUse_begin m _) (owed_begin m _)
  | next ok hk h => exact hl.move hm hp hk h

theorem limit_construct {m₀ : DBManager} (h₀ : construct config = some m₀) : m₀.Limit config (prefilled []) := by
  obtain ⟨-, -, -, hcalls, hlent, hpool, -⟩ := construct_spec h₀
  have hle : m₀.inUse + m₀.owed ≤ prefilled [] := by
    simp [inUse, owed, hcalls, hlent, hpool]
  exact ⟨fun _ => .inr hle, (kept_construct h₀).inUse_le (.inr hle)⟩

theorem limit_of_run {m₀ : DBManager} (h₀ : construct config = some m₀)
    (h : tries (step config ndebug) es m₀ = some m) (hp : prefilled es < 2 ^ 30) :
    m.Limit config (prefilled es) := by
  have hinv : m.Kept config es ∧ (prefilled es < 2 ^ 30 → m.Limit config (prefilled es)) := by
    refine tries_history (I := fun es m => m.Kept config es ∧ (prefilled es < 2 ^ 30 → m.Limit config (prefilled es)))
      ?_ h ?_
    · rintro es m e m' ⟨hm, hl⟩ he
      obtain ⟨he, -⟩ := step_eq_some he
      refine ⟨hm.step he, fun hp => (hl ?_).step hm hp he⟩
      rw [prefilled_append] at hp
      omega
    · exact ⟨kept_construct h₀, fun _ => limit_construct h₀⟩
  exact hinv.2 hp

/-! ### The accounts -/

/-- What the counters are meant to say while nobody is in an operation of the pool. -/
structure Accounted (config : Config) (m : DBManager) : Prop where
  total : m.total_conns.toInt = m.pool.length + m.active_conns.toInt
  active : m.active_conns.toInt = m.lent.length
  limit : m.total_conns ≤ config.maxSize

instance (config : Config) (m : DBManager) : Decidable (m.Accounted config) :=
  decidable_of_iff (m.total_conns.toInt = m.pool.length + m.active_conns.toInt ∧
      m.active_conns.toInt = m.lent.length ∧ m.total_conns ≤ config.maxSize)
    ⟨fun h => ⟨h.1, h.2.1, h.2.2⟩, fun h => ⟨h.total, h.active, h.limit⟩⟩

/-- In such a state no call has a connection. -/
theorem Quiet.countP_eq_zero {P : Call → Bool} (hq : m.Quiet)
    (hP : ∀ call : Call, call.returned = true → P call = false) : m.calls.countP P = 0 := by
  rw [List.countP_eq_zero]
  intro call hc
  rw [hP call (hq.2 call hc)]
  exact Bool.false_ne_true

theorem Quiet.inUse (hq : m.Quiet) : m.inUse = m.pool.length + m.lent.length := by
  rw [DBManager.inUse, hq.countP_eq_zero fun _ h => (Call.of_returned h).1, Nat.add_zero]

theorem Quiet.owed (hq : m.Quiet) : m.owed = 0 := hq.countP_eq_zero fun _ h => (Call.of_returned h).2.1

theorem Quiet.inHand (hq : m.Quiet) : m.inHand = m.lent.length := by
  rw [DBManager.inHand, hq.countP_eq_zero fun _ h => (Call.of_returned h).2.2.1, Nat.add_zero]

/-- The counters when no call is under way. -/
theorem Books.total_of_quiet {p : ℕ} (hb : m.Books p) (hq : m.Quiet) (hs : m.shutdown = false) :
    m.total_conns = Int32.ofInt (m.pool.length + m.lent.length + p : ℕ) := by
  rw [hb.total hs, hq.inUse, hq.owed, Nat.add_zero]

theorem Books.active_of_quiet {p : ℕ} (hb : m.Books p) (hq : m.Quiet) :
    m.active_conns = Int32.ofInt (m.lent.length : ℕ) := by
  rw [hb.active, hq.inHand]

theorem prefilled_eq_zero : prefilled es = 0 ↔ Event.prefill true ∉ es := by
  rw [prefilled, List.countP_eq_zero]
  constructor
  · intro h hmem
    exact h _ hmem (decide_eq_true rfl)
  · intro h e he heq
    exact h (of_decide_eq_true heq ▸ he)

/-- **The accounts of the pool.**  After a run of the constructor and of any calls of `acquireConnection` and
`releaseConnection`, once all of them have returned, the counters are right exactly if the constructor has opened
no connection. -/
theorem accounted_iff {m₀ : DBManager} (h₀ : construct config = some m₀)
    (h : tries (step config ndebug) es m₀ = some m) (hq : m.Quiet) (hs : m.shutdown = false) :
    m.Accounted config ↔ Event.prefill true ∉ es := by
  have hkept := kept_of_run h₀ h
  have htotal := hkept.books.total_of_quiet hq hs
  have hactive := hkept.books.active_of_quiet hq
  have hmax := Int32.toInt_lt config.maxSize
  have hle := hkept.prefilled_le
  rw [← prefilled_eq_zero]
  constructor
  · intro ha
    -- The counter is too large by the number of these connections, modulo `2 ^ 32`.
    have hsum : m.total_conns = Int32.ofInt (m.pool.length + m.lent.length : ℕ) := by
      rw [← Int32.ofInt_toInt m.total_conns, ha.total, ha.active, Int.natCast_add]
    have := eq_of_ofInt_eq (htotal.symm.trans hsum) (by omega) (by omega)
    omega
  · intro hp
    have hl := limit_of_run h₀ h (by omega)
    have huse := hl.inUse
    rw [hq.inUse] at huse
    have htoInt := hl.total_eq hkept (by omega) hs
    rw [hq.inUse, hq.owed] at htoInt
    have hactiveInt : m.active_conns.toInt = m.lent.length := by
      rw [hactive, Int32.toInt_ofInt_of_le (by omega) (by omega)]
    constructor
    · omega
    · exact hactiveInt
    · rw [Int32.le_iff_toInt_le]
      omega

/-- A pool of one connection, which the constructor opens or not. -/
def single : Config := { minSize := 1, maxSize := 1 }

/-- The connection of the constructor alone is counted twice. -/
theorem not_accounted_prefill :
    ∃ m₀ m, construct single = some m₀ ∧ tries (step single false) [.prefill true] m₀ = some m ∧ m.Quiet ∧
      m.shutdown = false ∧ ¬ m.Accounted single :=
  ⟨_, _, rfl, rfl, by decide, rfl, by decide⟩

/-- The events of a call `k` of `acquireConnection` that finds the pool empty and opens a connection. -/
def growing (k : ℕ) : List Event := .acquire :: List.replicate 10 (.next k true)

/-- The database is not there yet when the pool is constructed, and is when the first caller comes. -/
theorem accounted_after_refusal :
    ∃ m₀ m, construct single = some m₀ ∧ tries (step single false) (.prefill false :: growing 0) m₀ = some m ∧
      m.lent = [0] ∧ m.Accounted single := by
  let m₀ := (construct single).get rfl
  have hsome : (tries (step single false) (.prefill false :: growing 0) m₀).isSome = true := by decide +kernel
  have hend : (tries (step single false) (.prefill false :: growing 0) m₀).map
      (fun m => (decide m.Quiet, m.shutdown, m.lent)) = some (true, false, [0]) := by decide +kernel
  obtain ⟨m, hrun⟩ := Option.isSome_iff_exists.1 hsome
  rw [hrun, Option.map_some, Option.some.injEq, Prod.mk.injEq, Prod.mk.injEq] at hend
  obtain ⟨hq, hs, hl⟩ := hend
  exact ⟨m₀, m, rfl, hrun, hl, (accounted_iff rfl hrun (of_decide_eq_true hq) hs).2 (by decide)⟩

end Limits

end DBManager

end StreamGate.DB
