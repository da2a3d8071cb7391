import StreamGate.DB.Alone

/-!
# The limit of the pool

The connections in use are never more than `maxSize`, unless the constructor opens so many of them that
`_total_conns`, which counts these twice, wraps around.  An assertion in `acquireConnection` stops the program
then, if it is compiled in.
-/

namespace StreamGate.DB

open Lib

/-- A call that has not come past the assertion of `acquireConnection`. -/
def Call.stalled : Call → Bool
  | acquire .entry | acquire .lock | acquire .top | acquire .examine | acquire .null => true
  | release .done => true
  | shutdown _ => true
  | _ => false

namespace DBManager

variable {config : Config} {ndebug : Bool} {m m' m₀ : DBManager} {k : ℕ} {call call' : Call} {es : List Event}

/-! ### The constructor and the callers, one after the other -/

/-- The loop of the constructor, when `n` connections are opened and then no more. -/
theorem tries_prefill (n r : ℕ) {m : DBManager} (hm : m.remaining = n + r) :
    ∃ m', tries (step config true) (List.replicate n (.prefill true) ++ List.replicate r (.prefill false)) m = some m' ∧
      m'.remaining = 0 ∧ m'.shutdown = m.shutdown ∧ m'.mutex = m.mutex ∧ m'.calls = m.calls ∧ m'.lent = m.lent ∧
      m'.pool.length = m.pool.length + n := by
  induction n generalizing m with
  | zero =>
    induction r generalizing m with
    | zero => exact ⟨m, rfl, hm, rfl, rfl, rfl, rfl, rfl⟩
    | succ r ih =>
      have hstep : step config true (.prefill false) m = some { m with remaining := r } := by
        have hr : m.remaining = r + 1 := by omega
        simp [step, prefill, hr]
      obtain ⟨m', hrun, h⟩ := @ih { m with remaining := r } (by simp)
      exact ⟨m', tries_cons_eq_some.2 ⟨_, hstep, hrun⟩, h⟩
  | succ n ih =>
    have hstep : ∃ m₁, step config true (.prefill true) m = some m₁ ∧ m₁.remaining = n + r ∧
        m₁.shutdown = m.shutdown ∧ m₁.mutex = m.mutex ∧ m₁.calls = m.calls ∧ m₁.lent = m.lent ∧
        m₁.pool.length = m.pool.length + 1 := by
      have hr : m.remaining = n + r + 1 := by omega
      simp [step, prefill, hr]
    obtain ⟨m₁, hstep, hr, hs, hmutex, hcalls, hlent, hpool⟩ := hstep
    obtain ⟨m', hrun, h1, h2, h3, h4, h5, h6⟩ := ih hr
    refine ⟨m', tries_cons_eq_some.2 ⟨m₁, hstep, hrun⟩, h1, h2.trans hs, h3.trans hmutex, h4.trans hcalls,
      h5.trans hlent, ?_⟩
    omega

theorem Quiet.begin (hq : m.Quiet) (hc : call.returned = true) : (m.begin call).Quiet := by
  refine ⟨hq.1, fun a ha => ?_⟩
  rcases List.mem_append.1 ha with ha | ha
  · exact hq.2 a ha
  · rw [List.mem_singleton.1 ha]
    exact hc

/-- One caller gets a connection, from the pool or a new one. -/
theorem lend (hm : m.Ready) (hq : m.Quiet) (h : m.pool ≠ [] ∨ m.total_conns < config.maxSize) :
    ∃ es m', tries (step config true) es m = some m' ∧ prefilled es = 0 ∧ m'.Ready ∧ m'.Quiet ∧
      m'.lent.length = m.lent.length + 1 ∧ m'.pool.length = m.pool.length - 1 := by
  have hbegin : step config true .acquire m = some (m.begin (.acquire .entry)) := by
    simp [step, hm.remaining]
  have hrun : ∃ n c m', tries (alone config true m.calls.length) (List.replicate n true) (.acquire .entry, m) =
        some (.acquire (.acquired c), m') ∧ m'.Ready ∧ m'.calls = m.calls ∧
      m'.lent.length = m.lent.length + 1 ∧ m'.pool.length = m.pool.length - 1 := by
    cases hp : m.pool with
    | cons c pool =>
      obtain ⟨_, _, hrun⟩ := alone_pool config m.calls.length hm hp
      exact ⟨8, c, _, hrun, ⟨hm.remaining, hm.shutdown, hm.mutex⟩, rfl, by simp, by simp⟩
    | nil =>
      rcases h with h | ht
      · exact absurd hp h
      · obtain ⟨_, _, hrun⟩ := alone_grow config m.calls.length hm hp ht
        exact ⟨10, m.opened, _, hrun, ⟨hm.remaining, hm.shutdown, hm.mutex⟩, rfl, by simp, by simp [hp]⟩
  obtain ⟨n, c, m', hrun, hready, hcalls, hlent, hpool⟩ := hrun
  refine ⟨.acquire :: (List.replicate n true).map (.next m.calls.length), m'.begin (.acquire (.acquired c)),
    tries_cons_eq_some.2 ⟨_, hbegin, ?_⟩, ?_, ⟨hready.remaining, hready.shutdown, hready.mutex⟩, ?_, hlent, hpool⟩
  · rw [tries_begin, hrun]
    rfl
  · simp [prefilled]
  · have : m'.Quiet := ⟨hready.remaining, hcalls ▸ hq.2⟩
    exact this.begin rfl

/-- The constructor opens `n` connections. -/
theorem exists_prefilled (h₀ : construct config = some m₀) {n : ℕ} (hn : (n : ℤ) ≤ config.minSize.toInt) :
    ∃ es m, tries (step config true) es m₀ = some m ∧ prefilled es = n ∧ m.Ready ∧ m.Quiet ∧ m.lent.length = 0 ∧
      m.pool.length = n := by
  obtain ⟨hr₀, hs₀, hmutex₀, hcalls₀, hlent₀, hpool₀, -⟩ := construct_spec h₀
  have hle : n ≤ config.minSize.toInt.toNat := by omega
  have hr : m₀.remaining = n + (config.minSize.toInt.toNat - n) := by omega
  obtain ⟨m, hrun, hr, hs, hmutex, hcalls, hlent, hpool⟩ := @tries_prefill config _ _ _ hr
  refine ⟨_, m, hrun, ?_, ⟨hr, hs.trans hs₀, hmutex.trans hmutex₀⟩, ⟨hr, ?_⟩, ?_, ?_⟩
  · simp [prefilled, List.countP_replicate]
  · simp [hcalls, hcalls₀]
  · simp [hlent, hlent₀]
  · simp [hpool, hpool₀]

/-- After `2 ^ 30` connections of the constructor, callers can have any number up to `maxSize + 1`. -/
theorem exists_lent (h₀ : construct config = some m₀) (hmin : 2 ^ 30 ≤ config.minSize.toInt) (j : ℕ)
    (hj : (j : ℤ) ≤ config.maxSize.toInt + 1) :
    ∃ es m, tries (step config true) es m₀ = some m ∧ prefilled es = 2 ^ 30 ∧ m.Ready ∧ m.Quiet ∧ m.lent.length = j ∧
      m.pool.length = 2 ^ 30 - j := by
  have hmax := Int32.toInt_lt config.maxSize
  induction j with
  | zero => exact exists_prefilled h₀ (by exact_mod_cast hmin)
  | succ j ih =>
    obtain ⟨es, m, hrun, hp, hready, hq, hlent, hpool⟩ := ih (by omega)
    have hroom : m.pool ≠ [] ∨ m.total_conns < config.maxSize := by
      by_cases hne : m.pool = []
      · -- The counter has wrapped around.
        right
        have htotal := (kept_of_run h₀ hrun).books.total_of_quiet hq hready.shutdown
        rw [hp, hlent, hpool] at htotal
        have hge : 2 ^ 30 ≤ j := by
          rw [hne, List.length_nil] at hpool
          omega
        rw [Int32.lt_iff_toInt_lt, htotal, toInt_ofInt_of_ge (by omega) (by omega)]
        omega
      · exact .inl hne
    obtain ⟨es', m', hrun', hp', hready', hq', hlent', hpool'⟩ := lend hready hq hroom
    refine ⟨es ++ es', m', tries_append_eq_some.2 ⟨m, hrun, hrun'⟩, ?_, hready', hq', by omega, by omega⟩
    rw [prefilled, List.countP_append]
    exact (congrArg₂ (· + ·) hp hp').trans (Nat.add_zero _)

/-! ### Where assertions are compiled in -/

/-- Nobody has got anything out of the pool. -/
structure Stalled (p : ℕ) (m : DBManager) : Prop where
  lent : m.lent = []
  pool : m.pool.length ≤ p
  calls : ∀ (k : ℕ) (call : Call), m.calls[k]? = some call → call.stalled = true
  /-- Until the shutdown, no call has returned with a null pointer either. -/
  full : m.shutdown = false → m.pool.length = p ∧ ∀ k : ℕ, m.calls[k]? ≠ some (.acquire .null)

theorem Move.stalled (h : Move config k m call call' m') (hc : call.stalled = true)
    (hassert : call = .acquire .examine → ¬ Int32.ofNat m.pool.length ≤ m.total_conns) (hf : m'.failed = false) :
    call'.stalled = true ∧ m'.lent = m.lent ∧ m'.pool.length ≤ m.pool.length ∧
      (m'.shutdown = false → call.late = false → m'.pool = m.pool ∧ call' ≠ .acquire .null) := by
  cases h
  case discard hd | discarded hd | dropping hd | dropped hd =>
    obtain ⟨_, _, rfl⟩ := discard_frame hd
    simp_all [Call.stalled, Call.late]
  case pop | empty =>
    have := hassert rfl
    simp only [assert, decide_eq_false this, Bool.not_false, Bool.or_true] at hf
    cases hf
  all_goals simp_all [Call.stalled, Call.late]

/-- The calls have nothing. -/
theorem Stalled.inUse {p : ℕ} (hm : m.Stalled p) : m.inUse = m.pool.length ∧ m.owed = 0 := by
  have hstalled : ∀ call ∈ m.calls, call.holds = false ∧ call.owes = false := by
    intro call hc
    obtain ⟨k, hk⟩ := List.getElem?_of_mem hc
    have := hm.calls k call hk
    cases call with
    | acquire a => cases a <;> simp_all [Call.stalled, Call.holds, Call.owes]
    | release r => cases r <;> simp_all [Call.stalled, Call.holds, Call.owes]
    | shutdown s => simp [Call.holds, Call.owes]
  constructor
  · rw [DBManager.inUse, hm.lent, List.countP_eq_zero.2 fun call hc => by simp [(hstalled call hc).1]]
    simp
  · exact List.countP_eq_zero.2 fun call hc => by simp [(hstalled call hc).2]

/-- **The assertion fails.**  With `2 ^ 30` connections of the constructor or more, the counter is negative. -/
theorem Stalled.assertion (hm : m.Stalled (prefilled es)) (hkept : m.Kept config es) (hp : 2 ^ 30 ≤ prefilled es)
    (hs : m.shutdown = false) : ¬ Int32.ofNat m.pool.length ≤ m.total_conns := by
  have hmax := Int32.toInt_lt config.maxSize
  have hle := hkept.prefilled_le
  obtain ⟨hfull, -⟩ := hm.full hs
  obtain ⟨huse, howed⟩ := hm.inUse
  have htotal := hkept.books.total hs
  rw [huse, howed, hfull] at htotal
  rw [Int32.le_iff_toInt_le, htotal, toInt_ofInt_of_ge (by omega) (by omega), hfull,
    Int32.toInt_ofNat_of_lt (by omega)]
  omega

theorem Stalled.move (hm : m.Stalled (prefilled es)) (hkept : m.Kept config es) (hp : 2 ^ 30 ≤ prefilled es)
    (hk : m.calls[k]? = some call) (h : Move config k m call call' m') (hf : m'.failed = false) :
    (m'.become k call').Stalled (prefilled es) := by
  have hsound := hkept.held.sound k call hk
  obtain ⟨hcall', hlent, hpool, hopen⟩ := h.stalled (hm.calls k call hk)
    (fun he => hm.assertion hkept hp (hsound.early (by simp [he, Call.early]))) hf
  constructor
  · exact hlent.trans hm.lent
  · exact Nat.le_trans hpool hm.pool
  · intro j a hj
    rw [become, h.calls] at hj
    exact forall_set (Q := fun _ a => a.stalled = true) (fun j a _ ha => hm.calls j a ha) hcall' hj
  · intro hs
    obtain ⟨hs', hlate⟩ := h.open_of hsound hs
    obtain ⟨hpool, hnull⟩ := hopen hs hlate
    obtain ⟨hfull, hnone⟩ := hm.full hs'
    refine ⟨(congrArg List.length hpool).trans hfull, fun j hj => ?_⟩
    rw [become, h.calls] at hj
    have hnone' : ∀ j a, j ≠ k → m.calls[j]? = some a → a ≠ .acquire .null := by
      rintro j a - ha rfl
      exact hnone j ha
    exact forall_set (Q := fun _ a => a ≠ .acquire .null) hnone' hnull hj rfl

theorem Stalled.begin {p : ℕ} (hm : m.Stalled p) (hc : call.stalled = true) (hnull : call ≠ .acquire .null) :
    (m.begin call).Stalled p := by
  constructor
  · exact hm.lent
  · exact hm.pool
  · intro j a hj
    exact forall_append (Q := fun _ a => a.stalled = true) hm.calls hc hj
  · intro hs
    obtain ⟨hfull, hnone⟩ := hm.full hs
    refine ⟨hfull, fun j hj => ?_⟩
    have hnone' : ∀ (j : ℕ) a, m.calls[j]? = some a → a ≠ .acquire .null := by
      rintro j a ha rfl
      exact hnone j ha
    exact forall_append (Q := fun _ a => a ≠ .acquire .null) hnone' hnull hj rfl

/-- As long as the constructor goes around its loop, there is nobody. -/
theorem Kept.stalled (hm : m.Kept config es) (hr : 0 < m.remaining) : m.Stalled (prefilled es) := by
  obtain ⟨hcalls, hlent, hpool⟩ := hm.books.fresh hr
  exact ⟨hlent, Nat.le_of_eq hpool, by simp [hcalls], fun _ => ⟨hpool, by simp [hcalls]⟩⟩

theorem Step.failed {e : Event} (h : Step config m e m') (hf : m'.failed = false) : m.failed = false := by
  cases h with
  | next ok hk h => exact h.failed hf
  | _ => exact hf

theorem Stalled.step {e : Event} (hm : m.Stalled (prefilled es)) (hkept : m.Kept config es)
    (hp : 2 ^ 30 ≤ prefilled (es ++ [e])) (h : Step config m e m') (hf : m'.failed = false) :
    m'.Stalled (prefilled (es ++ [e])) := by
  rw [prefilled_append] at hp ⊢
  cases h with
  | fill hi =>
    obtain ⟨hcalls, hlent, hpool⟩ := hkept.books.fresh (by omega)
    have hpool' : (m.pool ++ [m.opened]).length = prefilled es + 1 := by simp [hpool]
    exact ⟨hlent, Nat.le_of_eq hpool', by simp [hcalls], fun _ => ⟨hpool', by simp [hcalls]⟩⟩
  | skip hi => exact ⟨hm.lent, hm.pool, hm.calls, hm.full⟩
  | acquire hi => exact hm.begin rfl (by simp)
  | releaseNull hi => exact hm.begin rfl (by simp)
  | release hi hc =>
    rw [hm.lent] at hc
    cases hc
  | shutdown hi => exact hm.begin rfl (by simp)
  | next ok hk h => exact hm.move hkept hp hk h hf

/-- Before the connection number `2 ^ 30` there is nobody. -/
theorem Kept.stalled_before {e : Event} (hkept : m.Kept config es) (h : Step config m e m')
    (hp : 2 ^ 30 ≤ prefilled (es ++ [e])) (hm : 2 ^ 30 ≤ prefilled es → m.Stalled (prefilled es)) :
    m.Stalled (prefilled es) := by
  by_cases hlarge : 2 ^ 30 ≤ prefilled es
  · exact hm hlarge
  · have := h.remaining
    rw [prefilled_append] at hp
    exact hkept.stalled (by omega)

/-- With `2 ^ 30` connections of the constructor or more, nobody gets a connection before an assertion fails. -/
theorem stalled_of_run (h₀ : construct config = some m₀) (h : tries (step config ndebug) es m₀ = some m)
    (hp : 2 ^ 30 ≤ prefilled es) (hf : m.failed = false) : m.Stalled (prefilled es) := by
  have hinv : m.Kept config es ∧ (2 ^ 30 ≤ prefilled es → m.failed = false → m.Stalled (prefilled es)) := by
    refine tries_history (I := fun es m => m.Kept config es ∧
      (2 ^ 30 ≤ prefilled es → m.failed = false → m.Stalled (prefilled es))) ?_ h ?_
    · rintro es m e m' ⟨hkept, hm⟩ he
      obtain ⟨he, -⟩ := step_eq_some he
      refine ⟨hkept.step he, fun hp hf => ?_⟩
      have hstalled := hkept.stalled_before he hp fun hlarge => hm hlarge (he.failed hf)
      exact hstalled.step hkept hp he hf
    · exact ⟨kept_construct h₀, fun hp => absurd hp (by simp [prefilled])⟩
  exact hinv.2 hp hf

/-- One more step, even if an assertion fails in it, adds no connection but those of the constructor. -/
theorem Stalled.inUse_step {e : Event} (hm : m.Stalled (prefilled es)) (h : Step config m e m') :
    m'.inUse ≤ prefilled (es ++ [e]) := by
  obtain ⟨huse, howed⟩ := hm.inUse
  have hpool := hm.pool
  rw [prefilled_append]
  cases h with
  | fill hi =>
    have := (Step.fill hi : Step config m _ _).fill_inUse
    simp only [decide_true, Bool.toNat_true]
    omega
  | skip hi => exact Nat.le_trans (Nat.le_of_eq huse) hpool
  | acquire hi => exact Nat.le_trans (Nat.le_of_eq ((inUse_begin m _).trans huse)) hpool
  | releaseNull hi => exact Nat.le_trans (Nat.le_of_eq ((inUse_begin m _).trans huse)) hpool
  | release hi hc => exact Nat.le_trans (Nat.le_of_eq ((inUse_release hc).trans huse)) hpool
  | shutdown hi => exact Nat.le_trans (Nat.le_of_eq ((inUse_begin m _).trans huse)) hpool
  | @next k ok call call' _ hk h =>
    have hset := inUse_set call' hk h.calls
    rcases h.inUse with hle | ⟨⟨current, rfl⟩, -⟩
    · simp only [reduceCtorEq, decide_false, Bool.toNat_false]
      omega
    · exact absurd (hm.calls k _ hk) (by simp [Call.stalled])

/-- Where assertions are compiled in, the limit holds for any number of connections of the constructor. -/
theorem inUse_le_of_asserts (h₀ : construct config = some m₀) (h : tries (step config false) es m₀ = some m) :
    (m.inUse : ℤ) ≤ config.maxSize.toInt := by
  have hkept := kept_of_run h₀ h
  by_cases hp : prefilled es < 2 ^ 30
  · exact (limit_of_run h₀ h hp).inUse
  rw [Nat.not_lt] at hp
  rcases List.eq_nil_or_concat es with rfl | ⟨pre, e, rfl⟩
  · simp [prefilled] at hp
  -- At most the last step is one in which an assertion fails.
  rw [List.concat_eq_append] at h hp hkept
  obtain ⟨m₁, h₁, hlast⟩ := tries_append_eq_some.1 h
  obtain ⟨m₂, he, hend⟩ := tries_cons_eq_some.1 hlast
  obtain rfl := Option.some.inj hend
  obtain ⟨he, hgo⟩ := step_eq_some he
  have hf : m₁.failed = false := by simpa using hgo
  have hstalled := (kept_of_run h₀ h₁).stalled_before he hp fun hlarge => stalled_of_run h₀ h₁ hlarge hf
  have := hstalled.inUse_step he
  have := hkept.prefilled_le
  omega

/-- **The limit of the pool.**  In every run of the constructor and of any calls, the connections in use are never
more than `maxSize`, exactly if assertions are compiled in or `minSize` is less than `2 ^ 30`. -/
theorem inUse_le_iff (h₀ : construct config = some m₀) :
    (∀ es m, tries (step config ndebug) es m₀ = some m → (m.inUse : ℤ) ≤ config.maxSize.toInt) ↔
      ndebug = false ∨ config.minSize.toInt < 2 ^ 30 := by
  constructor
  · intro h
    cases ndebug with
    | false => exact .inl rfl
    | true =>
      right
      refine Int.not_le.1 fun hmin => ?_
      have hpos := (kept_construct h₀).prefilled_le
      obtain ⟨es, m, hrun, -, -, -, hlent, -⟩ :=
        exists_lent h₀ hmin (config.maxSize.toInt.toNat + 1) (by omega)
      have := h es m hrun
      rw [inUse, hlent] at this
      omega
  · rintro (rfl | hmin) es m hrun
    · exact inUse_le_of_asserts h₀ hrun
    · have := (kept_of_run h₀ hrun).bound
      exact (limit_of_run h₀ hrun (by omega)).inUse

/-- A pool of `2 ^ 30` connections, all of which are opened by the constructor. -/
def vast : Config := { minSize := 1073741824, maxSize := 1073741824 }

/-- Without assertions it hands out one connection more. -/
theorem vast_exceeded :
    ∃ m₀ es m, construct vast = some m₀ ∧ tries (step vast true) es m₀ = some m ∧
      ¬ (m.inUse : ℤ) ≤ vast.maxSize.toInt := by
  obtain ⟨m₀, h₀⟩ := Option.isSome_iff_exists.1 (show (construct vast).isSome = true by decide)
  obtain ⟨es, m, hrun, -, -, -, hlent, -⟩ := exists_lent h₀ (by decide) (2 ^ 30 + 1) (by decide)
  refine ⟨m₀, es, m, h₀, hrun, ?_⟩
  rw [show vast.maxSize.toInt = 2 ^ 30 from by decide, inUse, hlent]
  omega

/-- The pool of one connection is not exceeded. -/
theorem single_limited :
    ∃ m₀, construct single = some m₀ ∧
      ∀ es m, tries (step single true) es m₀ = some m → (m.inUse : ℤ) ≤ single.maxSize.toInt :=
  ⟨_, rfl, (inUse_le_iff rfl).2 (.inr (by decide))⟩

end DBManager

end StreamGate.DB
