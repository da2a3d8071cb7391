import StreamGate.DB.Accounting

/-!
# Waiting for a connection

A call of `acquireConnection` that gets nothing from an open pool has waited until the deadline.  When it
began to wait the pool was full, or the call had just failed to open a connection: this holds if its
`compare_exchange_weak` does not fail, since after a failure it waits instead of trying again, and if the pool
stays full from the moment when the call has seen that it is until it waits.

What a call has done is read off its trail: where it stood before each of its steps, and the manager then.
-/

namespace StreamGate.DB

open Lib

/-- The step is one of the call `k`. -/
def Event.isOf (k : ℕ) : Event → Bool
  | next j _ => decide (j = k)
  | _ => false

/-- Where a call of `acquireConnection` stood before each of its steps, and the manager then. -/
abbrev Trail := List (Acquire × DBManager)

namespace Trail

/-- The call has just failed to open a connection and has the mutex again. -/
def Refused (t : Trail) : Prop := ∃ p x y z, t = p ++ [(.create, x), (.refused, y), (.relock, z)]

/-- The call waits, and when it last began to, the pool was full or the call had just been refused. -/
def Waits (config : Config) (t : Trail) : Prop :=
  ∃ (past : Trail) (n : DBManager) (rest : Trail), t = past ++ (.wait, n) :: rest ∧ (∀ q ∈ rest, q.1 = .asleep) ∧
    (config.maxSize ≤ n.total_conns ∨ past.Refused)

/-- Such a wait, and its last look at the pool. -/
def Exhausted (config : Config) (t : Trail) : Prop :=
  ∃ (past : Trail) (n : DBManager), t = past ++ [(.asleep, n)] ∧ past.Waits config

variable {config : Config} {t : Trail} {n : DBManager} {a : Acquire}

theorem Refused.relock (h : Refused (t ++ [(a, n)])) : a = .relock := by
  obtain ⟨p, x, y, z, h⟩ := h
  have hlast := congrArg List.getLast? h
  simp only [List.getLast?_append, List.getLast?_singleton, List.getLast?_cons_cons, Option.some_or,
    Option.some.injEq, Prod.mk.injEq] at hlast
  exact hlast.1

/-- The wait begins. -/
theorem waits_wait : Waits config (t ++ [(.wait, n)]) ↔ config.maxSize ≤ n.total_conns ∨ t.Refused := by
  constructor
  · rintro ⟨past, n', rest, h, hrest, hfull⟩
    rcases List.eq_nil_or_concat rest with rfl | ⟨rest, q, rfl⟩
    · obtain ⟨rfl, hn⟩ := List.append_inj' h rfl
      cases hn
      exact hfull
    · have hlast := congrArg List.getLast? h
      have hq := hrest q (by simp)
      simp [List.getLast?_append, List.getLast?_cons] at hlast
      rw [← hlast] at hq
      cases hq
  · intro h
    exact ⟨t, n, [], rfl, by simp, h⟩

theorem Waits.again (h : Waits config t) (n : DBManager) : Waits config (t ++ [(.asleep, n)]) := by
  obtain ⟨past, n', rest, rfl, hrest, hfull⟩ := h
  refine ⟨past, n', rest ++ [(.asleep, n)], by simp, fun q hq => ?_, hfull⟩
  rcases List.mem_append.1 hq with hq | hq
  · exact hrest q hq
  · rw [List.mem_singleton.1 hq]

theorem exhausted_asleep : Exhausted config (t ++ [(.asleep, n)]) ↔ t.Waits config := by
  constructor
  · rintro ⟨past, n', h, hw⟩
    obtain ⟨rfl, -⟩ := List.append_inj' h rfl
    exact hw
  · exact fun h => ⟨t, n, rfl, h⟩

end Trail

namespace DBManager

/-! ### The trail of a call in a run -/

/-- Where the call `k` stands. -/
def standing (k : ℕ) (m : DBManager) : Trail :=
  match m.calls[k]? with
  | some (.acquire a) => [(a, m)]
  | _ => []

def trail (config : Config) (ndebug : Bool) (k : ℕ) : List Event → DBManager → Trail
  | [], _ => []
  | e :: es, m =>
    (if e.isOf k then m.standing k else []) ++ (step config ndebug e m).elim [] (trail config ndebug k es)

/-- `compare_exchange_weak` fails in the call `k`. -/
def casFails (k : ℕ) (e : Event) (m : DBManager) : Bool :=
  match e, m.calls[k]? with
  | .next j ok, some (.acquire (.grow current)) => decide (j = k) && !(decide (m.total_conns = current) && ok)
  | _, _ => false

/-- The pool is not full any more, while the call `k`, which has just seen it full, has not begun to wait yet. -/
def fallsShort (config : Config) (k : ℕ) (t : Trail) (m m' : DBManager) : Bool :=
  decide (m.calls[k]? = some (.acquire .wait)) && t.getLast?.any (fun q => decide (q.1 = .read)) &&
    decide (config.maxSize ≤ m.total_conns) && !decide (config.maxSize ≤ m'.total_conns)

/-- Neither happens in any step of a run.  The first events are those that have led from `m₀` to its start. -/
def Steady (config : Config) (ndebug : Bool) (k : ℕ) (m₀ : DBManager) : List Event → List Event → DBManager → Bool
  | _, [], _ => true
  | pre, e :: es, m =>
    match step config ndebug e m with
    | none => true
    | some m' =>
      !casFails k e m && !fallsShort config k (trail config ndebug k pre m₀) m m' &&
        Steady config ndebug k m₀ (pre ++ [e]) es m'

variable {config : Config} {ndebug : Bool} {m m' m₀ : DBManager} {k : ℕ} {call call' : Call} {es : List Event}
  {e : Event}

theorem trail_append (h : tries (step config ndebug) es m = some m') (he : (step config ndebug e m').isSome) :
    trail config ndebug k (es ++ [e]) m =
      trail config ndebug k es m ++ if e.isOf k then m'.standing k else [] := by
  induction es generalizing m with
  | nil =>
    obtain rfl := Option.some.inj h
    obtain ⟨m', he⟩ := Option.isSome_iff_exists.1 he
    simp [trail, he]
  | cons e' es ih =>
    obtain ⟨m₁, h₁, h⟩ := tries_cons_eq_some.1 h
    simp only [List.cons_append, trail, h₁, Option.elim_some, ih h, List.append_assoc]

theorem steady_append {pre : List Event} {n : DBManager} (h : tries (step config ndebug) es m = some m')
    (hsteady : Steady config ndebug k m₀ pre (es ++ [e]) m = true) (he : step config ndebug e m' = some n) :
    Steady config ndebug k m₀ pre es m = true ∧ casFails k e m' = false ∧
      fallsShort config k (trail config ndebug k (pre ++ es) m₀) m' n = false := by
  induction es generalizing m pre with
  | nil =>
    obtain rfl := Option.some.inj h
    simp only [List.nil_append, Steady, he, Bool.and_eq_true, Bool.not_eq_true', and_true] at hsteady
    rw [List.append_nil]
    exact ⟨rfl, hsteady.1, hsteady.2⟩
  | cons e' es ih =>
    obtain ⟨m₁, h₁, h⟩ := tries_cons_eq_some.1 h
    simp only [List.cons_append, Steady, h₁, Bool.and_eq_true] at hsteady ⊢
    obtain ⟨hnow, hlater⟩ := hsteady
    obtain ⟨hlater, hlast⟩ := ih h hlater
    rw [List.append_assoc] at hlast
    exact ⟨⟨hnow, hlater⟩, hlast⟩

/-! ### What the trail says -/

/-- What the trail of a call says, by where the call is. -/
def Fits (config : Config) (m : DBManager) (t : Trail) : Acquire → Prop
  | .refused => ∃ p x, t = p ++ [(.create, x)]
  | .relock => ∃ p x y, t = p ++ [(.create, x), (.refused, y)]
  | .wait => t.Refused ∨ config.maxSize ≤ m.total_conns ∧ ∃ n, t.getLast? = some (.read, n)
  | .asleep => t.Waits config
  | .null => ∀ q, t.getLast? = some q → q.2.shutdown = false → t.Exhausted config
  | _ => True

/-- A step of the call. -/
theorem Fits.move {t : Trail} {a a' : Acquire} (hf : Fits config m t a)
    (h : Move config k m (.acquire a) (.acquire a') m') (hcas : ∀ current, a = .grow current → a' ≠ .wait) :
    Fits config m' (t ++ [(a, m)]) a' := by
  cases h
  case refuse => exact ⟨t, m, rfl⟩
  case unreserve =>
    obtain ⟨p, x, rfl⟩ := hf
    exact ⟨p, x, m, by simp⟩
  case relock =>
    obtain ⟨p, x, y, rfl⟩ := hf
    exact .inl ⟨p, x, y, m, by simp⟩
  case full ht => exact .inr ⟨Int32.not_lt.1 ht, m, by simp⟩
  case lose current => exact absurd rfl (hcas current rfl)
  case sleep =>
    refine Trail.waits_wait.2 ?_
    rcases hf with hf | ⟨hf, -⟩
    · exact .inr hf
    · exact .inl hf
  case again => exact hf.again m
  case giveUp => exact fun _ _ _ => Trail.exhausted_asleep.2 hf
  case entryNull hs | topNull hs | wokenNull hs =>
    intro q hq hopen
    rw [List.getLast?_append, List.getLast?_singleton, Option.some_or, Option.some.injEq] at hq
    subst hq
    rw [hs] at hopen
    cases hopen
  all_goals trivial

/-- A step of something else. -/
theorem Fits.other {t : Trail} {a : Acquire} (hf : Fits config m t a)
    (hfull : a = .wait → t.getLast?.any (fun q => decide (q.1 = .read)) = true → config.maxSize ≤ m.total_conns →
      config.maxSize ≤ m'.total_conns) : Fits config m' t a := by
  cases a
  case wait =>
    rcases hf with hf | ⟨hf, n, hn⟩
    · exact .inl hf
    · exact .inr ⟨hfull rfl (by simp [hn]) hf, n, hn⟩
  all_goals exact hf

/-- The trail of the call `k` says this. -/
def Trailed (config : Config) (k : ℕ) (t : Trail) (m : DBManager) : Prop :=
  ∀ a, m.calls[k]? = some (.acquire a) → Fits config m t a

theorem le_of_fallsShort {t : Trail} (h : fallsShort config k t m m' = false)
    (hk : m.calls[k]? = some (.acquire .wait)) (ht : t.getLast?.any (fun q => decide (q.1 = .read)) = true)
    (hfull : config.maxSize ≤ m.total_conns) : config.maxSize ≤ m'.total_conns := by
  by_contra hshort
  simp [fallsShort, hk, ht, hfull, hshort] at h

/-- Unless `compare_exchange_weak` fails, a call does not come from there to the wait. -/
theorem advance_grow {ok : Bool} {current : Int32} (hcas : m.total_conns = current ∧ ok = true)
    (h : m.advance config k ok (.acquire (.grow current)) = some (call', m')) : call' = .acquire .create := by
  simp only [advance, acquireConnection, if_pos hcas, Option.map_some, Option.some.injEq, Prod.mk.injEq] at h
  exact h.1.symm

theorem Move.of_acquire {a : Acquire} (h : Move config k m call (.acquire a) m') : ∃ a₀, call = .acquire a₀ := by
  cases h <;> exact ⟨_, rfl⟩

theorem step_next {ok : Bool} (h : step config ndebug (.next k ok) m = some m') :
    ∃ call call' m₁, m.calls[k]? = some call ∧ m.advance config k ok call = some (call', m₁) ∧
      m' = m₁.become k call' := by
  unfold step at h
  split at h
  · cases h
  · simp only at h
    split at h
    · cases h
    · rename_i call hk
      obtain ⟨⟨call', m₁⟩, ha, rfl⟩ := Option.map_eq_some_iff.1 h
      exact ⟨call, call', m₁, hk, ha, rfl⟩

/-- A step of the call `k` itself. -/
theorem Trailed.next {t : Trail} {ok : Bool} (hm : Trailed config k t m)
    (h : step config ndebug (.next k ok) m = some m') (hcas : casFails k (.next k ok) m = false) :
    Trailed config k (t ++ m.standing k) m' := by
  obtain ⟨call, call', m₁, hk, ha, rfl⟩ := step_next h
  have hmove := advance_eq_some ha
  intro a hj
  rw [become, hmove.calls, List.getElem?_set_self (List.getElem?_eq_some_iff.1 hk).1, Option.some.injEq] at hj
  subst hj
  obtain ⟨a₀, rfl⟩ := hmove.of_acquire
  have hfits : Fits config m₁ (t ++ [(a₀, m)]) a := by
    refine (hm a₀ hk).move hmove fun current ha₀ => ?_
    subst ha₀
    simp only [casFails, hk, decide_true, Bool.true_and, Bool.not_eq_false', Bool.and_eq_true,
      decide_eq_true_eq] at hcas
    cases advance_grow hcas ha
    simp
  have hfits : Fits config (m₁.become k (.acquire a)) (t ++ [(a₀, m)]) a := hfits.other fun _ _ hle => hle
  simpa [standing, hk] using hfits

/-- A step after which the call `k` is where it was, or has just begun. -/
theorem Trailed.other {t : Trail} (hm : Trailed config k t m) (hfull : fallsShort config k t m m' = false)
    (hk : ∀ a, m'.calls[k]? = some (.acquire a) → a = .entry ∨ m.calls[k]? = some (.acquire a)) :
    Trailed config k t m' := by
  intro a ha
  rcases hk a ha with rfl | hk
  · trivial
  · refine (hm a hk).other fun hwait ht hle => ?_
    subst hwait
    exact le_of_fallsShort hfull hk ht hle

theorem Trailed.step {t : Trail} (hm : Trailed config k t m) (h : step config ndebug e m = some m')
    (hcas : casFails k e m = false) (hfull : fallsShort config k t m m' = false) :
    Trailed config k (t ++ if e.isOf k then m.standing k else []) m' := by
  by_cases hof : e.isOf k = true
  · obtain ⟨ok, rfl⟩ : ∃ ok, e = .next k ok := by
      cases e with
      | next j ok => exact ⟨ok, by rw [of_decide_eq_true hof]⟩
      | _ => cases hof
    rw [if_pos hof]
    exact hm.next h hcas
  · rw [if_neg hof, List.append_nil]
    refine hm.other hfull fun a ha => ?_
    have hbegin : ∀ call, (∀ a, call = .acquire a → a = .entry) → (m.calls ++ [call])[k]? = some (.acquire a) →
        a = .entry ∨ m.calls[k]? = some (.acquire a) := by
      intro call hc hk
      refine forall_append (Q := fun j b => j = k → b = .acquire a → a = .entry ∨ m.calls[k]? = some (.acquire a))
        ?_ ?_ hk rfl rfl
      · rintro j b hj rfl rfl
        exact .inr hj
      · rintro - hcall
        exact .inl (hc a hcall)
    cases (step_eq_some h).1 with
    | @next j ok call call' m₁ hj hmove =>
      have hjk : j ≠ k := fun hjk => hof (decide_eq_true hjk)
      rw [become, hmove.calls, List.getElem?_set_ne hjk] at ha
      exact .inr ha
    | fill hi => exact .inr ha
    | skip hi => exact .inr ha
    | acquire hi => exact hbegin _ (fun a ha => (Call.acquire.inj ha).symm) ha
    | releaseNull hi => exact hbegin _ (fun a ha => by cases ha) ha
    | release hi hc => exact hbegin _ (fun a ha => by cases ha) ha
    | shutdown hi => exact hbegin _ (fun a ha => by cases ha) ha

/-- **Waiting in vain.**  A call that returns a null pointer while the manager is open has waited, and when it last
began to wait the pool was full, or the call had just failed to open a connection: in every run in which its
`compare_exchange_weak` does not fail, and the pool stays full from the moment when it has seen that it is until it
waits. -/
theorem exhausted_of_null (h₀ : construct config = some m₀) (h : tries (step config ndebug) es m₀ = some m)
    (hsteady : Steady config ndebug k m₀ [] es m₀ = true) (hk : m.calls[k]? = some (.acquire .null))
    {q : Acquire × DBManager} (hq : (trail config ndebug k es m₀).getLast? = some q) (hs : q.2.shutdown = false) :
    (trail config ndebug k es m₀).Exhausted config := by
  have hinv : tries (DBManager.step config ndebug) es m₀ = some m ∧ (Steady config ndebug k m₀ [] es m₀ = true →
      Trailed config k (trail config ndebug k es m₀) m) := by
    refine tries_history (I := fun es m => tries (DBManager.step config ndebug) es m₀ = some m ∧
      (Steady config ndebug k m₀ [] es m₀ = true → Trailed config k (trail config ndebug k es m₀) m)) ?_ h ?_
    · rintro es m e m' ⟨hrun, hm⟩ he
      refine ⟨tries_append_eq_some.2 ⟨m, hrun, tries_cons_eq_some.2 ⟨m', he, rfl⟩⟩, fun hsteady => ?_⟩
      obtain ⟨hbefore, hcas, hfull⟩ := steady_append hrun hsteady he
      rw [trail_append hrun (Option.isSome_iff_exists.2 ⟨m', he⟩)]
      exact (hm hbefore).step he hcas hfull
    · refine ⟨rfl, fun _ a hk => ?_⟩
      obtain ⟨-, -, -, hcalls, -⟩ := construct_spec h₀
      simp [hcalls] at hk
  exact hinv.2 hsteady .null hk q hq hs

/-- A pool that opens its only connection for the first caller. -/
def lazy : Config := { minSize := 0, maxSize := 1 }

/-- The connection is not opened, and the call waits in vain. -/
def refusal : List Event :=
  .acquire :: List.replicate 6 (.next 0 true) ++ .next 0 false :: List.replicate 3 (.next 0 true) ++ [.next 0 false]

theorem lazy_exhausted :
    ∃ m₀ m q, construct lazy = some m₀ ∧ tries (step lazy false) refusal m₀ = some m ∧
      m.calls[0]? = some (.acquire .null) ∧ (trail lazy false 0 refusal m₀).getLast? = some q ∧
      q.2.shutdown = false ∧ (trail lazy false 0 refusal m₀).Exhausted lazy := by
  let m₀ := (construct lazy).get rfl
  have hrun : (tries (step lazy false) refusal m₀).map (fun m => m.calls[0]?) = some (some (.acquire .null)) := by
    decide +kernel
  have hopen : (trail lazy false 0 refusal m₀).getLast?.map (fun q => q.2.shutdown) = some false := by decide +kernel
  obtain ⟨m, hrun, hk⟩ := Option.map_eq_some_iff.1 hrun
  obtain ⟨q, hq, hs⟩ := Option.map_eq_some_iff.1 hopen
  exact ⟨m₀, m, q, rfl, hrun, hk, hq, hs, exhausted_of_null rfl hrun (by decide +kernel) hk hq hs⟩

/-- `compare_exchange_weak` fails spuriously: the call waits until the deadline beside an empty pool. -/
def spurious : List Event :=
  .acquire :: List.replicate 5 (.next 0 true) ++ [.next 0 false, .next 0 true, .next 0 false]

theorem lazy_not_exhausted :
    ∃ m₀ m q, construct lazy = some m₀ ∧ tries (step lazy false) spurious m₀ = some m ∧
      m.calls[0]? = some (.acquire .null) ∧ (trail lazy false 0 spurious m₀).getLast? = some q ∧
      q.2.shutdown = false ∧ ¬ (trail lazy false 0 spurious m₀).Exhausted lazy := by
  let m₀ := (construct lazy).get rfl
  refine ⟨m₀, _, _, rfl, rfl, rfl, rfl, rfl, fun h => ?_⟩
  -- It has come to the wait from `compare_exchange_weak`, with no connection counted.
  obtain ⟨t, a, x, n, n', htrail, ha, hn⟩ : ∃ (t : Trail) (a : Acquire) (x n n' : DBManager),
      trail lazy false 0 spurious m₀ = t ++ [(a, x)] ++ [(.wait, n)] ++ [(.asleep, n')] ∧ a = .grow 0 ∧
        n.total_conns = 0 :=
    ⟨(trail lazy false 0 spurious m₀).take 5, _, _, _, _, rfl, rfl, rfl⟩
  rw [htrail, Trail.exhausted_asleep, Trail.waits_wait, hn] at h
  rcases h with h | h
  · exact absurd h (by decide)
  · have := h.relock
    rw [ha] at this
    cases this

end DBManager

end StreamGate.DB
