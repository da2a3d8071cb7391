import StreamGate.DB.Limit

/-!
# The counters during and after the shutdown

`shutdown` and a late `releaseConnection` decrement `_total_conns` twice for every connection: directly, and in
`markConnectionDestroyed`.  This is right for the connections of the constructor, which are counted twice, and for
no other.  Here calls come one after the other.
-/

namespace StreamGate.DB

open Lib

namespace DBManager

variable {config : Config} {ndebug : Bool} {m m' m₀ : DBManager} {k : ℕ} {call call' : Call} {es : List Event}

/-! ### The shutdown alone -/

/-- A call of `shutdown`, from its beginning to its end: five steps for a connection of the pool, and three. -/
def shutdownAlone (config : Config) (ndebug : Bool) (m : DBManager) : Option DBManager :=
  tries (step config ndebug) (.shutdown :: (List.replicate (5 * m.pool.length + 3) true).map (.next m.calls.length)) m

/-- A call of `releaseConnection`, from its beginning to its end, after the shutdown. -/
def releaseAlone (config : Config) (ndebug : Bool) (c : Conn) (m : DBManager) : Option DBManager :=
  tries (step config ndebug) (.release (some c) :: (List.replicate 7 true).map (.next m.calls.length)) m

/-- One connection of the pool. -/
theorem alone_drop {c : Conn} {pool : List Conn} (hgo : ndebug = true ∨ m.failed = false) (hp : m.pool = c :: pool) :
    tries (alone config ndebug k) (List.replicate 5 true) (.shutdown .drain, m) =
      some (.shutdown .drain,
        { m with
          pool := pool
          total_conns := m.total_conns - 1 - 1
          failed := m.failed || !decide (m.active_conns ≤ m.total_conns - 1 - 1) }) := by
  obtain ⟨_, _, _, _, _, _, _, _, _, failed, _⟩ := m
  simp only at hp hgo
  subst hp
  rcases hgo with rfl | rfl
  · rfl
  · cases ndebug
    · rfl
    · rfl

/-- No assertion has failed, and none will while the pool is emptied, where `_total_conns` stands for `x`. -/
structure Fine (x : ℤ) (m : DBManager) : Prop where
  total : m.total_conns = Int32.ofInt x
  failed : m.failed = false
  asserts : ∀ i < m.pool.length, m.active_conns ≤ Int32.ofInt (x - 2 * (i + 1))

/-- Two less, twice as far. -/
theorem Fine.drop {x : ℤ} {c : Conn} {pool : List Conn} (hm : m.Fine x) (hp : m.pool = c :: pool) :
    { m with pool := pool, total_conns := m.total_conns - 1 - 1, failed := false }.Fine (x - 2) ∧
      m.active_conns ≤ m.total_conns - 1 - 1 := by
  have htotal : m.total_conns - 1 - 1 = Int32.ofInt (x - 2) := by rw [hm.total, ofInt_sub_two]
  refine ⟨⟨htotal, rfl, fun i hi => ?_⟩, ?_⟩
  · have := hm.asserts (i + 1) (by simpa [hp] using hi)
    rwa [show x - 2 * (((i + 1 : ℕ) : ℤ) + 1) = x - 2 - 2 * (i + 1) by omega] at this
  · have := hm.asserts 0 (by simp [hp])
    rw [htotal]
    exact this

/-- **The pool is emptied**, and no assertion fails. -/
theorem alone_drain (pool : List Conn) {m : DBManager} {x : ℤ} (hm : m.Fine x) (hp : m.pool = pool) :
    tries (alone config ndebug k) (List.replicate (5 * pool.length + 1) true) (.shutdown .drain, m) =
      some (.shutdown .done,
        { m with pool := [], mutex := none, total_conns := Int32.ofInt (x - 2 * pool.length), failed := false }) := by
  induction pool generalizing m x with
  | nil =>
    have htotal := hm.total
    have hf := hm.failed
    obtain ⟨_, _, _, _, _, _, _, _, _, failed, _⟩ := m
    simp only at hp htotal hf
    subst hp htotal hf
    cases ndebug
    · simp [tries, alone, advance, close]
    · simp [tries, alone, advance, close]
  | cons c pool ih =>
    obtain ⟨hdrop, hassert⟩ := hm.drop hp
    have hround := @alone_drop config ndebug m k c pool (.inr hm.failed) hp
    rw [hm.failed, decide_eq_true hassert] at hround
    rw [show 5 * (c :: pool).length + 1 = 5 + (5 * pool.length + 1) by simp; omega, List.replicate_add]
    refine tries_append_eq_some.2 ⟨_, hround, ?_⟩
    rw [show x - 2 * ((c :: pool).length : ℤ) = x - 2 - 2 * pool.length by simp; omega]
    exact ih hdrop rfl

/-- A run that goes on has not been stopped by an assertion. -/
theorem go_of_alone {ok : Bool} {oks : List Bool} {q q' : Call × DBManager}
    (h : tries (alone config ndebug k) (ok :: oks) q = some q') : ndebug = true ∨ q.2.failed = false := by
  obtain ⟨_, h, -⟩ := tries_cons_eq_some.1 h
  unfold alone at h
  split at h
  · cases h
  · rename_i hgo
    cases ndebug with
    | true => exact .inl rfl
    | false => exact .inr (by simpa using hgo)

theorem alone_ndebug (q : Call × DBManager) (ok : Bool) (q' : Call × DBManager)
    (h : alone config ndebug k ok q = some q') : alone config true k ok q = some q' := by
  unfold alone at h
  split at h
  · cases h
  · simpa [alone] using h

theorem failed_of_alone {ok : Bool} {q q' : Call × DBManager} (h : alone config ndebug k ok q = some q')
    (hf : q'.2.failed = false) : q.2.failed = false := by
  unfold alone at h
  split at h
  · cases h
  · exact (advance_eq_some h).failed hf

/-- If no assertion has failed at the end, none has on the way. -/
theorem fine_of_drain (pool : List Conn) {m : DBManager} {x : ℤ} {q : Call × DBManager}
    (hx : m.total_conns = Int32.ofInt x) (hp : m.pool = pool)
    (h : tries (alone config ndebug k) (List.replicate (5 * pool.length + 1) true) (.shutdown .drain, m) = some q)
    (hq : q.2.failed = false) : m.Fine x := by
  have hgo := go_of_alone h
  induction pool generalizing m x with
  | nil =>
    obtain ⟨q', hdone, h⟩ := tries_cons_eq_some.1 h
    obtain rfl := Option.some.inj h
    exact ⟨hx, failed_of_alone hdone hq, by simp [hp]⟩
  | cons c pool ih =>
    rw [show 5 * (c :: pool).length + 1 = 5 + (5 * pool.length + 1) by simp; omega, List.replicate_add] at h
    obtain ⟨q₁, hround, h⟩ := tries_append_eq_some.1 h
    obtain rfl := Option.some.inj ((alone_drop hgo hp).symm.trans hround)
    have htotal : m.total_conns - 1 - 1 = Int32.ofInt (x - 2) := by rw [hx, ofInt_sub_two]
    have hrest := ih htotal rfl h (go_of_alone h)
    have hf := hrest.failed
    simp only [Bool.or_eq_false_iff, Bool.not_eq_false', decide_eq_true_eq] at hf
    refine ⟨hx, hf.1, fun i hi => ?_⟩
    cases i with
    | zero =>
      rw [show x - 2 * (((0 : ℕ) : ℤ) + 1) = x - 2 by omega, ← htotal]
      exact hf.2
    | succ i =>
      rw [show x - 2 * (((i + 1 : ℕ) : ℤ) + 1) = x - 2 - 2 * (i + 1) by omega]
      exact hrest.asserts i (by simpa [hp] using hi)

/-- The shutdown, up to the pool. -/
theorem shutdownAlone_eq (hm : m.Ready) (hgo : ndebug = true ∨ m.failed = false) :
    shutdownAlone config ndebug m =
      (tries (alone config ndebug m.calls.length) (List.replicate (5 * m.pool.length + 1) true)
        (.shutdown .drain, { m with shutdown := true, mutex := some m.calls.length })).map fun q => q.2.begin q.1 := by
  have hbegin : step config ndebug .shutdown m = some (m.begin (.shutdown .lock)) := by
    rcases hgo with rfl | hf
    · simp [step, hm.remaining]
    · simp [step, hm.remaining, hf]
  have hentry : tries (alone config ndebug m.calls.length) [true, true] (.shutdown .lock, m) =
      some (.shutdown .drain, { m with shutdown := true, mutex := some m.calls.length }) := by
    obtain ⟨_, _, _, _, _, _, _, _, _, failed, _⟩ := m
    obtain ⟨hr, hs, hmutex⟩ := hm
    simp only at hr hs hmutex hgo
    subst hr hs hmutex
    rcases hgo with rfl | rfl
    · rfl
    · cases ndebug
      · rfl
      · rfl
  rw [shutdownAlone, tries, List.foldlM_cons, hbegin]
  show tries _ _ _ = _
  rw [tries_begin, show List.replicate (5 * m.pool.length + 3) true =
    [true, true] ++ List.replicate (5 * m.pool.length + 1) true from rfl]
  simp only [tries, List.foldlM_append] at hentry ⊢
  rw [hentry]
  rfl

/-- **The shutdown alone**, where no assertion fails. -/
theorem shutdownAlone_of_fine {x : ℤ} (hm : m.Ready) (hfine : m.Fine x) :
    shutdownAlone config ndebug m =
      some (({ m with
        shutdown := true
        pool := []
        mutex := none
        total_conns := Int32.ofInt (x - 2 * m.pool.length)
        failed := false } : DBManager).begin (.shutdown .done)) := by
  have hfine' : { m with shutdown := true, mutex := some m.calls.length }.Fine x :=
    ⟨hfine.total, hfine.failed, hfine.asserts⟩
  rw [shutdownAlone_eq hm (.inr hfine.failed), alone_drain m.pool hfine' rfl]
  rfl

/-- The assertions have to hold. -/
theorem fine_of_shutdownAlone {x : ℤ} (hm : m.Ready) (hx : m.total_conns = Int32.ofInt x)
    (h : shutdownAlone config ndebug m = some m') (hf : m'.failed = false) : m.Fine x := by
  have hgo : ndebug = true ∨ m.failed = false := by
    obtain ⟨_, hstep, -⟩ := tries_cons_eq_some.1 h
    have := (step_eq_some hstep).2
    cases ndebug with
    | true => exact .inl rfl
    | false => exact .inr (by simpa using this)
  rw [shutdownAlone_eq hm hgo] at h
  obtain ⟨q, hq, rfl⟩ := Option.map_eq_some_iff.1 h
  have := fine_of_drain m.pool (m := { m with shutdown := true, mutex := some m.calls.length }) hx rfl hq hf
  exact ⟨hx, this.failed, this.asserts⟩

/-- A connection that comes back after the shutdown counts twice as well. -/
theorem releaseAlone_total {c : Conn} (hs : m.shutdown = true) (h : releaseAlone config ndebug c m = some m') :
    m'.total_conns = m.total_conns - 1 - 1 := by
  obtain ⟨m₁, hstep, h⟩ := tries_cons_eq_some.1 h
  cases (step_eq_some hstep).1 with
  | release hi hc =>
    have hbegin := @tries_begin config ndebug (List.replicate 7 true) { m with lent := m.lent.erase c }
      (.release (.mark c))
    obtain ⟨q, hq, rfl⟩ := Option.map_eq_some_iff.1 (hbegin.symm.trans h)
    have hq := tries_mono alone_ndebug hq
    obtain ⟨_, _⟩ := m
    simp only at hs
    subst hs
    obtain rfl := Option.some.inj hq
    rfl

/-! ### One call after the other -/

/-- A step, where a call begins only if no other is in progress. -/
def serialStep (config : Config) (ndebug : Bool) (e : Event) (m : DBManager) : Option DBManager :=
  match e with
  | .prefill _ | .next _ _ => step config ndebug e m
  | .acquire | .release _ | .shutdown => if m.Quiet then step config ndebug e m else none

theorem serialStep_eq_some (m : DBManager) (e : Event) (m' : DBManager) (h : serialStep config ndebug e m = some m') :
    step config ndebug e m = some m' := by
  cases e <;> simp_all [serialStep]

/-- What holds between the steps of such a run, before the shutdown. -/
structure Serial (m : DBManager) : Prop where
  shutdown : m.shutdown = false
  /-- At most one call is in progress. -/
  lone : ∀ (j k : ℕ) (a b : Call), m.calls[j]? = some a → m.calls[k]? = some b → a.returned = false →
    b.returned = false → j = k
  kinds : ∀ (k : ℕ) (call : Call), m.calls[k]? = some call → ∀ s, call ≠ .shutdown s
  /-- What `markConnectionAcquired` has read of `_active_conns` is still right. -/
  read : ∀ (k : ℕ) (call : Call), m.calls[k]? = some call →
    ∀ c active, call = .acquire (.compare c active) → active = m.active_conns

theorem Serial.begin (hm : m.Serial) (hq : m.Quiet) (hkind : ∀ s, call ≠ .shutdown s)
    (hread : ∀ c active, call ≠ .acquire (.compare c active)) : (m.begin call).Serial := by
  constructor
  · exact hm.shutdown
  · have hlast : ∀ (j : ℕ) (a : Call), (m.calls ++ [call])[j]? = some a → a.returned = false → j = m.calls.length := by
      intro j a hj
      refine forall_append (Q := fun j a => a.returned = false → j = m.calls.length) (fun j a ha hr => ?_)
        (fun _ => rfl) hj
      have := hq.2 a (List.mem_of_getElem? ha)
      rw [hr] at this
      cases this
    intro j k a b hj hk ha hb
    rw [hlast j a hj ha, hlast k b hk hb]
  · intro j a hj
    exact forall_append (Q := fun _ a => ∀ s, a ≠ Call.shutdown s) hm.kinds hkind hj
  · intro j a hj
    exact forall_append (Q := fun _ a => ∀ c active, a = .acquire (.compare c active) → active = m.active_conns) hm.read
      (fun c active h => absurd h (hread c active)) hj

namespace Move

theorem returned (h : Move config k m call call' m') : call.returned = false := by
  cases h <;> rfl

theorem kind (h : Move config k m call call' m') (hc : ∀ s, call ≠ .shutdown s) (s : Shutdown) :
    call' ≠ .shutdown s := by
  cases h <;> simp_all

theorem shutdown_of_kind (h : Move config k m call call' m') (hc : ∀ s, call ≠ .shutdown s) :
    m'.shutdown = m.shutdown := by
  cases h
  case discard hd | discarded hd | dropping hd | dropped hd =>
    obtain ⟨_, _, rfl⟩ := discard_frame hd
    rfl
  case exchange => exact absurd rfl (hc _)
  all_goals rfl

theorem read (h : Move config k m call call' m') {c : Conn} {active : Int32}
    (hc : call' = .acquire (.compare c active)) : active = m'.active_conns := by
  cases h <;> simp_all

/-- No assertion fails in a move that meets its own. -/
theorem failed_eq (h : Move config k m call call' m') (hf : m.failed = false) (hlate : call.late = false)
    (hexamine : call = .acquire .examine → Int32.ofNat m.pool.length ≤ m.total_conns)
    (hcompare : ∀ c active, call = .acquire (.compare c active) → active ≤ m.total_conns)
    (hreleased : ∀ c, call = .release (.marked c) → 0 ≤ m.active_conns) : m'.failed = false := by
  cases h
  case discard hd | discarded hd | dropping hd | dropped hd => simp [Call.late] at hlate
  all_goals simp_all

end Move

theorem Serial.move (hm : m.Serial) (hk : m.calls[k]? = some call) (h : Move config k m call call' m') :
    (m'.become k call').Serial := by
  have hothers : ∀ j a, j ≠ k → m.calls[j]? = some a → a.returned = true := by
    intro j a hjk ha
    cases hr : a.returned with
    | true => rfl
    | false => exact absurd (hm.lone j k a call ha hk hr h.returned) hjk
  constructor
  · exact (h.shutdown_of_kind (hm.kinds k call hk)).trans hm.shutdown
  · have hlast : ∀ (j : ℕ) (a : Call), (m.calls.set k call')[j]? = some a → a.returned = false → j = k := by
      intro j a hj
      refine forall_set (Q := fun j a => a.returned = false → j = k) (fun j a hjk ha hr => ?_) (fun _ => rfl) hj
      rw [hothers j a hjk ha] at hr
      cases hr
    intro i j a b hi hj ha hb
    rw [become, h.calls] at hi hj
    rw [hlast i a hi ha, hlast j b hj hb]
  · intro j a hj
    rw [become, h.calls] at hj
    exact forall_set (Q := fun _ a => ∀ s, a ≠ Call.shutdown s) (fun j a _ ha => hm.kinds j a ha)
      (h.kind (hm.kinds k call hk)) hj
  · intro j a hj
    rw [become, h.calls] at hj
    refine forall_set (Q := fun _ a => ∀ c active, a = .acquire (.compare c active) → active = m'.active_conns)
      (fun j a hjk ha c active he => ?_) (fun c active he => h.read he) hj
    have := hothers j a hjk ha
    simp [he, Call.returned] at this

theorem Serial.step {e : Event} (hm : m.Serial) (he : e ≠ .shutdown) (h : serialStep config ndebug e m = some m') :
    m'.Serial := by
  have hquiet : e = .acquire ∨ (∃ o, e = .release o) → m.Quiet := by
    rintro (rfl | ⟨o, rfl⟩) <;> simp_all [serialStep]
  cases (step_eq_some (serialStep_eq_some m e m' h)).1 with
  | fill hi | skip hi => exact ⟨hm.shutdown, hm.lone, hm.kinds, hm.read⟩
  | acquire hi => exact hm.begin (hquiet (.inl rfl)) (by simp) (by simp)
  | releaseNull hi => exact hm.begin (hquiet (.inr ⟨_, rfl⟩)) (by simp) (by simp)
  | release hi hc =>
    exact Serial.begin ⟨hm.shutdown, hm.lone, hm.kinds, hm.read⟩ (hquiet (.inr ⟨_, rfl⟩)) (by simp) (by simp)
  | shutdown hi => exact absurd rfl he
  | next ok hk hmove => exact hm.move hk hmove

/-- The connections that count as active are in use. -/
theorem inHand_le (m : DBManager) : m.inHand ≤ m.inUse := by
  have : m.calls.countP Call.active ≤ m.calls.countP Call.holds := by
    refine List.countP_mono_left fun call _ hc => ?_
    cases call with
    | acquire a => cases a <;> simp_all [Call.active, Call.holds]
    | release r => cases r <;> simp_all [Call.active, Call.holds]
    | shutdown s => simp [Call.active] at hc
  simp only [inHand, inUse]
  omega

/-- **No assertion fails** in such a run, if the constructor opens less than `2 ^ 30` connections. -/
theorem Serial.failed_step {e : Event} (hm : m.Serial) (hkept : m.Kept config es) (hl : m.Limit config (prefilled es))
    (hp : prefilled es < 2 ^ 30) (hf : m.failed = false) (h : Step config m e m') : m'.failed = false := by
  cases h with
  | @next k ok call call' m' hk h =>
    have htotal := hl.total_eq hkept hp hm.shutdown
    have hactive : m.active_conns.toInt = m.inHand := by
      have := inHand_le m
      have := hl.inUse
      have := Int32.toInt_lt config.maxSize
      rw [hkept.books.active, Int32.toInt_ofInt_of_le (by omega) (by omega)]
    have hle := inHand_le m
    have hpool : m.pool.length ≤ m.inUse := by
      rw [inUse]
      omega
    have hlate := (h.open_of (hkept.held.sound k call hk)
      ((h.shutdown_of_kind (hm.kinds k call hk)).trans hm.shutdown)).2
    refine h.failed_eq hf hlate ?_ ?_ ?_
    · rintro -
      have := hl.inUse
      have := Int32.toInt_lt config.maxSize
      rw [Int32.le_iff_toInt_le, Int32.toInt_ofNat_of_lt (by omega), htotal]
      omega
    · rintro c active rfl
      rw [hm.read k _ hk c active rfl, Int32.le_iff_toInt_le, htotal, hactive]
      omega
    · rintro c -
      rw [Int32.le_iff_toInt_le, hactive]
      exact Int.natCast_nonneg _
  | _ => exact hf

/-- Nobody has called for a connection. -/
def Untouched (m : DBManager) : Prop :=
  m.failed = false ∧ m.lent = [] ∧ ∀ (k : ℕ) (call : Call), m.calls[k]? = some call → call = .release .done

/-- Somebody has. -/
def Called (m : DBManager) : Prop := ∃ (k : ℕ) (a : Acquire), m.calls[k]? = some (.acquire a)

theorem called_or_untouched_step {e : Event} (he : e ≠ .shutdown) (hm : m.Called ∨ m.Untouched)
    (h : Step config m e m') : m'.Called ∨ m'.Untouched := by
  rcases hm with ⟨k, a, hk⟩ | ⟨hf, hlent, hcalls⟩
  · left
    have hlt : k < m.calls.length := (List.getElem?_eq_some_iff.1 hk).1
    have happend : ∀ call : Call, (m.calls ++ [call])[k]? = some (.acquire a) := by
      intro call
      rw [List.getElem?_append_left hlt]
      exact hk
    cases h with
    | fill hi | skip hi => exact ⟨k, a, hk⟩
    | @next j ok call call' m' hj h =>
      by_cases hjk : j = k
      · subst hjk
        rw [hj] at hk
        obtain rfl := Option.some.inj hk
        obtain ⟨a', rfl⟩ : ∃ a', call' = .acquire a' := by cases h <;> exact ⟨_, rfl⟩
        refine ⟨j, a', ?_⟩
        rw [become, h.calls]
        exact List.getElem?_set_self hlt
      · refine ⟨k, a, ?_⟩
        rw [become, h.calls, List.getElem?_set_ne hjk]
        exact hk
    | _ => exact ⟨k, a, happend _⟩
  · cases h with
    | fill hi | skip hi => exact .inr ⟨hf, hlent, hcalls⟩
    | acquire hi => exact .inl ⟨m.calls.length, .entry, getElem?_begin m _⟩
    | releaseNull hi =>
      exact .inr ⟨hf, hlent, fun _ _ hj => forall_append (Q := fun _ a => a = Call.release .done) hcalls rfl hj⟩
    | release hi hc =>
      rw [hlent] at hc
      cases hc
    | shutdown hi => exact absurd rfl he
    | next ok hk h =>
      obtain rfl := hcalls _ _ hk
      cases h

/-- What holds after a run of calls of `acquireConnection` and `releaseConnection` one after the other. -/
theorem serial_of_run (h₀ : construct config = some m₀) (h : tries (serialStep config ndebug) es m₀ = some m)
    (hes : Event.shutdown ∉ es) :
    m.Serial ∧ (prefilled es < 2 ^ 30 → m.failed = false) ∧ (m.Called ∨ m.Untouched) := by
  have hinv : Event.shutdown ∉ es → m.Kept config es ∧ m.Serial ∧
      (prefilled es < 2 ^ 30 → m.Limit config (prefilled es) ∧ m.failed = false) ∧ (m.Called ∨ m.Untouched) := by
    refine tries_history (I := fun es m => Event.shutdown ∉ es → m.Kept config es ∧ m.Serial ∧
      (prefilled es < 2 ^ 30 → m.Limit config (prefilled es) ∧ m.failed = false) ∧ (m.Called ∨ m.Untouched)) ?_ h ?_
    · intro es m e m' hm he hes
      have hne : e ≠ .shutdown := by
        rintro rfl
        simp at hes
      obtain ⟨hkept, hserial, hl, hcalled⟩ := hm fun hmem => hes (List.mem_append_left _ hmem)
      obtain ⟨hstep, -⟩ := step_eq_some (serialStep_eq_some m e m' he)
      refine ⟨hkept.step hstep, hserial.step hne he, fun hp => ?_, called_or_untouched_step hne hcalled hstep⟩
      have hp' : prefilled es < 2 ^ 30 := by
        rw [prefilled_append] at hp
        omega
      obtain ⟨hl, hf⟩ := hl hp'
      exact ⟨hl.step hkept hp hstep, hserial.failed_step hkept hl hp' hf hstep⟩
    · intro _
      obtain ⟨-, hs, -, hcalls, hlent, hpool, hf⟩ := construct_spec h₀
      have hserial : m₀.Serial := ⟨hs, by simp [hcalls], by simp [hcalls], by simp [hcalls]⟩
      exact ⟨kept_construct h₀, hserial, fun _ => ⟨limit_construct h₀, hf⟩, .inr ⟨hf, hlent, by simp [hcalls]⟩⟩
  obtain ⟨-, hserial, hl, hcalled⟩ := hinv hes
  exact ⟨hserial, fun hp => (hl hp).2, hcalled⟩

/-! ### The accounts of the shutdown -/

/-- What the shutdown, and the calls of `releaseConnection` after it, are meant to do from the state `m`: a call of
`shutdown` leaves an empty pool and counts the lent connections, every one that comes back is one less, in the end
there is none, and no assertion fails. -/
def Settles (config : Config) (ndebug : Bool) (m : DBManager) : Prop :=
  ∃ m₁, shutdownAlone config ndebug m = some m₁ ∧ m₁.Quiet ∧ m₁.failed = false ∧ m₁.pool = [] ∧
    m₁.total_conns.toInt = m.lent.length ∧
    ∀ cs m₂, tries (releaseAlone config ndebug) cs m₁ = some m₂ →
      (∀ c ∈ m₂.lent, ∃ m₃, releaseAlone config ndebug c m₂ = some m₃ ∧ m₃.Quiet ∧ m₃.failed = false ∧
        m₃.total_conns.toInt = m₂.total_conns.toInt - 1) ∧
      (m₂.lent = [] → m₂.total_conns.toInt = 0)

/-- Nothing comes back where nothing was lent. -/
theorem releaseAlone_lent {c : Conn} (h : releaseAlone config ndebug c m = some m') : c ∈ m.lent := by
  obtain ⟨m₁, hstep, -⟩ := tries_cons_eq_some.1 h
  cases (step_eq_some hstep).1 with
  | release hi hc => exact hc

/-- A mutex that nobody holds is free. -/
theorem Quiet.mutex (hq : m.Quiet) (hm : m.Held config) : m.mutex = none := by
  cases hk : m.mutex with
  | none => rfl
  | some k =>
    obtain ⟨call, hc, hl⟩ := hm.holder k hk
    have := (Call.of_returned (hq.2 call (List.mem_of_getElem? hc))).2.2.2
    rw [hl] at this
    cases this

theorem Quiet.ready (hq : m.Quiet) (hm : m.Held config) (hs : m.shutdown = false) : m.Ready :=
  ⟨hq.1, hs, hq.mutex hm⟩

/-- Where nothing is lent and the pool has what the constructor has put there, no assertion fails. -/
theorem fine_of_settled {p : ℕ} (htotal : m.total_conns = Int32.ofInt (2 * p : ℕ)) (hf : m.failed = false)
    (hactive : m.active_conns = Int32.ofInt 0) (hpool : m.pool.length = p) (hp : p ≤ 2 ^ 30) : m.Fine (2 * p : ℕ) := by
  refine ⟨htotal, hf, fun i hi => ?_⟩
  rw [hactive, Int32.le_iff_toInt_le, Int32.toInt_ofInt_of_le (by omega) (by omega),
    Int32.toInt_ofInt_of_le (by omega) (by omega)]
  omega

/-- The shutdown is right if nothing is lent and the pool has what the constructor has put there. -/
theorem settles_of_fine {p : ℕ} (hready : m.Ready) (hq : m.Quiet) (hfine : m.Fine (2 * p : ℕ)) (hlent : m.lent = [])
    (hpool : m.pool.length = p) : m.Settles config ndebug := by
  have hshut := @shutdownAlone_of_fine config ndebug m _ hready hfine
  rw [hpool, show ((2 * p : ℕ) : ℤ) - 2 * p = 0 by omega] at hshut
  refine ⟨_, hshut, Quiet.begin ⟨hq.1, hq.2⟩ rfl, rfl, rfl, ?_, fun cs m₂ hcs => ?_⟩
  · rw [hlent]
    rfl
  -- Nothing is lent, so nothing comes back.
  · cases cs with
    | nil =>
      obtain rfl := Option.some.inj hcs
      refine ⟨fun c hc => ?_, fun _ => rfl⟩
      have hc : c ∈ m.lent := hc
      rw [hlent] at hc
      cases hc
    | cons c cs =>
      obtain ⟨_, hrel, -⟩ := tries_cons_eq_some.1 hcs
      have hc := releaseAlone_lent hrel
      have hc : c ∈ m.lent := hc
      rw [hlent] at hc
      cases hc

/-- A lent connection would be counted twice when it comes back. -/
theorem Settles.lent {x : ℤ} (hready : m.Ready) (hx : m.total_conns = Int32.ofInt x) (h : m.Settles config ndebug) :
    m.Fine x ∧ m.lent = [] ∧ (Int32.ofInt (x - 2 * m.pool.length)).toInt = 0 := by
  obtain ⟨m₁, hshut, -, hf₁, -, htotal₁, hlater⟩ := h
  have hfine := fine_of_shutdownAlone hready hx hshut hf₁
  rw [shutdownAlone_of_fine hready hfine] at hshut
  obtain rfl := Option.some.inj hshut
  have hlent : m.lent = [] := by
    refine List.eq_nil_iff_forall_not_mem.2 fun c hc => ?_
    obtain ⟨m₃, hrel, -, -, hone⟩ := (hlater [] _ rfl).1 c hc
    have htwo := releaseAlone_total rfl hrel
    have hone' : m₃.total_conns = Int32.ofInt (x - 2 * m.pool.length) - 1 := by
      rw [← Int32.ofInt_toInt m₃.total_conns, hone, Int32.ofInt_sub, Int32.ofInt_toInt]
      rfl
    have htwo' : m₃.total_conns = Int32.ofInt (x - 2 * m.pool.length) - 1 - 1 := htwo
    rw [htwo', ofInt_sub_one, ofInt_sub_one] at hone'
    have := eq_of_ofInt_eq hone' (by omega) (by omega)
    omega
  rw [hlent] at htotal₁
  exact ⟨hfine, hlent, htotal₁⟩

/-- Where the counter has wrapped around, it has only just done so, and nobody has called `acquireConnection`. -/
theorem settled_wrapped (h₀ : construct config = some m₀) (hrun : tries (step config ndebug) es m₀ = some m)
    (hp : 2 ^ 30 ≤ prefilled es) (hs : m.shutdown = false) (hq : m.Quiet) (hactive : m.active_conns = Int32.ofInt 0)
    (hfine : m.Fine (m.pool.length + prefilled es : ℕ)) :
    m.pool.length = prefilled es ∧ prefilled es = 2 ^ 30 ∧ ∀ a, Call.acquire a ∉ m.calls := by
  have hstalled := stalled_of_run h₀ hrun hp hfine.failed
  obtain ⟨hfull, hnull⟩ := hstalled.full hs
  refine ⟨hfull, Nat.le_antisymm (Nat.not_lt.1 fun hlt => ?_) hp, fun a ha => ?_⟩
  · have hmax := Int32.toInt_lt config.maxSize
    have hle := (kept_of_run h₀ hrun).prefilled_le
    have hfirst := hfine.asserts 0 (by omega)
    have hnone : (Int32.ofInt 0).toInt = 0 := rfl
    rw [hactive, hfull, Int32.le_iff_toInt_le, hnone, toInt_ofInt_of_ge (by omega) (by omega)] at hfirst
    omega
  · obtain ⟨k, hk⟩ := List.getElem?_of_mem ha
    have hreturned := hq.2 _ ha
    have hstall := hstalled.calls k _ hk
    cases a <;> simp_all [Call.returned, Call.stalled]

/-- **The accounts of the shutdown.**  After calls of `acquireConnection` and `releaseConnection` one after the
other, the shutdown and what comes after it are right exactly if nothing is lent, the pool has as many connections as
the constructor has opened, and these are less than `2 ^ 30`, or as many as that and nobody has called
`acquireConnection`. -/
theorem settles_iff (h₀ : construct config = some m₀) (h : tries (serialStep config ndebug) es m₀ = some m)
    (hes : Event.shutdown ∉ es) (hq : m.Quiet) :
    m.Settles config ndebug ↔ m.lent = [] ∧ m.pool.length = prefilled es ∧
      (prefilled es < 2 ^ 30 ∨ prefilled es = 2 ^ 30 ∧ ∀ a, Call.acquire a ∉ m.calls) := by
  have hrun := tries_mono serialStep_eq_some h
  have hkept := kept_of_run h₀ hrun
  obtain ⟨hserial, hclean, hcalled⟩ := serial_of_run h₀ h hes
  have hready := hq.ready hkept.held hserial.shutdown
  have htotal := hkept.books.total_of_quiet hq hserial.shutdown
  have hactive := hkept.books.active_of_quiet hq
  have hmax := Int32.toInt_lt config.maxSize
  have hle := hkept.prefilled_le
  constructor
  · intro hsettles
    obtain ⟨hfine, hlent, hzero⟩ := hsettles.lent hready htotal
    refine ⟨hlent, ?_⟩
    by_cases hp : prefilled es < 2 ^ 30
    · refine ⟨?_, .inl hp⟩
      have huse := (limit_of_run h₀ hrun hp).inUse
      rw [hq.inUse] at huse
      rw [hlent, List.length_nil, Int32.toInt_ofInt_of_le (by omega) (by omega)] at hzero
      omega
    · rw [hlent, List.length_nil] at hactive hfine
      obtain ⟨hpool, hmany, hnone⟩ := settled_wrapped h₀ hrun (Nat.not_lt.1 hp) hserial.shutdown hq hactive hfine
      exact ⟨hpool, .inr ⟨hmany, hnone⟩⟩
  · rintro ⟨hlent, hpool, hp⟩
    have hf : m.failed = false := by
      rcases hp with hp | ⟨-, hnone⟩
      · exact hclean hp
      · rcases hcalled with ⟨k, a, hk⟩ | huntouched
        · exact absurd (List.mem_of_getElem? hk) (hnone a)
        · exact huntouched.1
    rw [hlent, hpool, show prefilled es + [].length + prefilled es = 2 * prefilled es by simp; omega] at htotal
    rw [hlent] at hactive
    exact settles_of_fine hready hq (fine_of_settled htotal hf hactive hpool (by omega)) hlent hpool

/-- A connection that was opened for a caller and came back is counted once, and taken away twice: an assertion
fails, and where it is not compiled in, the counter ends at `-1`. -/
theorem single_not_settled :
    ∃ m₀ m, construct single = some m₀ ∧
      tries (serialStep single true)
        (.prefill false :: growing 0 ++ .release (some 0) :: List.replicate 4 (.next 1 true)) m₀ = some m ∧
      tries (serialStep single false)
        (.prefill false :: growing 0 ++ .release (some 0) :: List.replicate 4 (.next 1 true)) m₀ = some m ∧
      m.Quiet ∧ m.lent = [] ∧ ¬ m.Settles single true ∧ ¬ m.Settles single false := by
  refine ⟨_, _, rfl, rfl, rfl, by decide, by decide, ?_, ?_⟩
  · rintro ⟨m₁, hshut, -, hf, -⟩
    obtain rfl := Option.some.inj hshut
    exact absurd hf (by decide)
  · rintro ⟨m₁, hshut, -⟩
    cases hshut

/-- The connection of the constructor, lent once and back again. -/
theorem single_settled :
    ∃ m₀ m, construct single = some m₀ ∧
      tries (serialStep single false) (.prefill true :: .acquire :: List.replicate 8 (.next 0 true) ++
        .release (some 0) :: List.replicate 4 (.next 1 true)) m₀ = some m ∧ m.Settles single false := by
  let m₀ := (construct single).get rfl
  let es : List Event := .prefill true :: .acquire :: List.replicate 8 (.next 0 true) ++
    .release (some 0) :: List.replicate 4 (.next 1 true)
  have hsome : (tries (serialStep single false) es m₀).isSome = true := by decide +kernel
  have hend : (tries (serialStep single false) es m₀).map (fun m => (decide m.Quiet, m.lent, m.pool)) =
      some (true, [], [0]) := by decide +kernel
  obtain ⟨m, hrun⟩ := Option.isSome_iff_exists.1 hsome
  rw [hrun, Option.map_some, Option.some.injEq, Prod.mk.injEq, Prod.mk.injEq] at hend
  obtain ⟨hq, hlent, hpool⟩ := hend
  have hsettles := (settles_iff rfl hrun (by decide) (of_decide_eq_true hq)).2
    ⟨hlent, congrArg List.length hpool, .inl (by decide)⟩
  exact ⟨m₀, m, rfl, hrun, hsettles⟩

end DBManager

end StreamGate.DB
