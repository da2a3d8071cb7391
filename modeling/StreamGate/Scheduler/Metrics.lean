import StreamGate.Lib.Counters
import StreamGate.Lib.Runs

/-!
# The exported metrics

The counters of the scheduler, which requests and the cleanup thread increment one at a time, and `getMetrics`, which
loads them one at a time.  A request that arrives after the load of its total and succeeds before the load of its
successes is a success without a request, and the number of failures that is exported may wrap around.
-/

namespace StreamGate.Scheduler

open StreamGate.Lib

/-- `StreamTaskScheduler::Metrics`, and the counters it is loaded from. -/
structure Metrics where
  total_publish_req : UInt64 := 0
  success_pub : UInt64 := 0
  total_play_req : UInt64 := 0
  success_play : UInt64 := 0
  auth_failures : UInt64 := 0
  tasks_cleaned : UInt64 := 0
  last_update_ms : UInt64 := 0
  deriving DecidableEq

/-- The two hooks that are counted. -/
inductive HookKind where
  | publish | play
  deriving DecidableEq

namespace Metrics

def total (m : Metrics) : HookKind → UInt64
  | .publish => m.total_publish_req
  | .play => m.total_play_req

def success (m : Metrics) : HookKind → UInt64
  | .publish => m.success_pub
  | .play => m.success_play

/-- `_totalPublishReq.fetch_add(1)`, `_totalPlayReq.fetch_add(1)`. -/
def arrive (m : Metrics) : HookKind → Metrics
  | .publish => { m with total_publish_req := m.total_publish_req + 1 }
  | .play => { m with total_play_req := m.total_play_req + 1 }

/-- `_successPub.fetch_add(1)`, `_successPlay.fetch_add(1)`. -/
def succeed (m : Metrics) : HookKind → Metrics
  | .publish => { m with success_pub := m.success_pub + 1 }
  | .play => { m with success_play := m.success_play + 1 }

/-- `_authFail.fetch_add(1)`. -/
def refuse (m : Metrics) : Metrics := { m with auth_failures := m.auth_failures + 1 }

/-- `_tasksCleaned.fetch_add(n)`. -/
def clean (m : Metrics) (n : UInt64) : Metrics := { m with tasks_cleaned := m.tasks_cleaned + n }

variable (m : Metrics) (n : UInt64) (h h' : HookKind)

@[simp] theorem total_refuse : m.refuse.total h = m.total h := by
  cases h <;> rfl

@[simp] theorem success_refuse : m.refuse.success h = m.success h := by
  cases h <;> rfl

@[simp] theorem total_clean : (m.clean n).total h = m.total h := by
  cases h <;> rfl

@[simp] theorem success_clean : (m.clean n).success h = m.success h := by
  cases h <;> rfl

@[simp] theorem total_arrive : (m.arrive h).total h' = if h = h' then m.total h' + 1 else m.total h' := by
  cases h <;> cases h' <;> rfl

@[simp] theorem success_arrive : (m.arrive h).success h' = m.success h' := by
  cases h <;> cases h' <;> rfl

@[simp] theorem total_succeed : (m.succeed h).total h' = m.total h' := by
  cases h <;> cases h' <;> rfl

@[simp] theorem success_succeed : (m.succeed h).success h' = if h = h' then m.success h' + 1 else m.success h' := by
  cases h <;> cases h' <;> rfl

end Metrics

/-- What `SchedulerMetricsProvider::refresh` exports beside the metrics. -/
structure Exported where
  metrics : Metrics
  failed_pub : UInt64
  failed_play : UInt64

def refresh (m : Metrics) : Exported where
  metrics := m
  failed_pub := m.total_publish_req - m.success_pub
  failed_play := m.total_play_req - m.success_play

/-! ### Requests -/

/-- How far a request is that has been counted. -/
inductive Progress where
  | pending
  | succeeded
  /-- Refused, or failed. -/
  | ended
  deriving DecidableEq

/-- The counters and the requests that there have been, in the order of their arrival. -/
structure Traffic where
  metrics : Metrics := {}
  requests : List (HookKind × Progress) := []

/-- The atomic steps. -/
inductive Traffic.Event where
  /-- `onPublish` or `onPlay` is called. -/
  | arrive (h : HookKind)
  /-- A request has registered its task. -/
  | succeed (i : ℕ)
  /-- The authentication has refused a request. -/
  | refuse (i : ℕ)
  /-- A request ends with another error, or an exception. -/
  | fail (i : ℕ)
  /-- The cleanup thread. -/
  | clean (n : UInt64)
  deriving DecidableEq

namespace Traffic

/-- One step. -/
def step : Event → Traffic → Option Traffic
  | .arrive h, s => some { metrics := s.metrics.arrive h, requests := s.requests ++ [(h, .pending)] }
  | .succeed i, s =>
    match s.requests[i]? with
    | some (h, .pending) => some { metrics := s.metrics.succeed h, requests := s.requests.set i (h, .succeeded) }
    | _ => none
  | .refuse i, s =>
    match s.requests[i]? with
    | some (h, .pending) => some { metrics := s.metrics.refuse, requests := s.requests.set i (h, .ended) }
    | _ => none
  | .fail i, s =>
    match s.requests[i]? with
    | some (h, .pending) => some { s with requests := s.requests.set i (h, .ended) }
    | _ => none
  | .clean n, s => some { s with metrics := s.metrics.clean n }

/-- `getMetrics`, with what happens between its six loads. -/
def getMetrics (s : Traffic) (es₁ es₂ es₃ es₄ es₅ : List Event) : Option Metrics := do
  let total_publish_req := s.metrics.total_publish_req
  let s ← tries step es₁ s
  let total_play_req := s.metrics.total_play_req
  let s ← tries step es₂ s
  let success_pub := s.metrics.success_pub
  let s ← tries step es₃ s
  let success_play := s.metrics.success_play
  let s ← tries step es₄ s
  let auth_failures := s.metrics.auth_failures
  let s ← tries step es₅ s
  let tasks_cleaned := s.metrics.tasks_cleaned
  return { total_publish_req, total_play_req, success_pub, success_play, auth_failures, tasks_cleaned }

/-! ### What a step does -/

inductive Step (s : Traffic) : Event → Traffic → Prop
  | arrive (h : HookKind) :
      Step s (.arrive h) { metrics := s.metrics.arrive h, requests := s.requests ++ [(h, .pending)] }
  | succeed {i : ℕ} {h : HookKind} (hi : s.requests[i]? = some (h, .pending)) :
      Step s (.succeed i) { metrics := s.metrics.succeed h, requests := s.requests.set i (h, .succeeded) }
  | refuse {i : ℕ} {h : HookKind} (hi : s.requests[i]? = some (h, .pending)) :
      Step s (.refuse i) { metrics := s.metrics.refuse, requests := s.requests.set i (h, .ended) }
  | fail {i : ℕ} {h : HookKind} (hi : s.requests[i]? = some (h, .pending)) :
      Step s (.fail i) { s with requests := s.requests.set i (h, .ended) }
  | clean (n : UInt64) : Step s (.clean n) { s with metrics := s.metrics.clean n }

variable {s s' : Traffic} {e : Event}

theorem step_eq_some (h : step e s = some s') : Step s e s' := by
  cases e with
  | arrive h₁ =>
    obtain rfl := Option.some.inj h
    exact .arrive h₁
  | succeed i =>
    simp only [step] at h
    split at h
    · obtain rfl := Option.some.inj h
      exact .succeed ‹_›
    · cases h
  | refuse i =>
    simp only [step] at h
    split at h
    · obtain rfl := Option.some.inj h
      exact .refuse ‹_›
    · cases h
  | fail i =>
    simp only [step] at h
    split at h
    · obtain rfl := Option.some.inj h
      exact .fail ‹_›
    · cases h
  | clean n =>
    obtain rfl := Option.some.inj h
    exact .clean n

/-- The requests for a hook. -/
def arrived (h : HookKind) (rs : List (HookKind × Progress)) : ℕ := rs.countP fun r => r.1 = h

/-- Those that have succeeded. -/
def succeeded (h : HookKind) (rs : List (HookKind × Progress)) : ℕ := rs.countP fun r => r.1 = h ∧ r.2 = .succeeded

section Counts

variable {rs : List (HookKind × Progress)} {i : ℕ} {h : HookKind} (h' : HookKind)

theorem arrived_append : arrived h' (rs ++ [(h, .pending)]) = arrived h' rs + (decide (h = h')).toNat := by
  rw [arrived, List.countP_append, List.countP_singleton]
  by_cases hh : h = h' <;> simp [hh, arrived]

theorem succeeded_append : succeeded h' (rs ++ [(h, .pending)]) = succeeded h' rs := by
  simp [succeeded]

theorem arrived_set {p p' : Progress} (hi : rs[i]? = some (h, p)) : arrived h' (rs.set i (h, p')) = arrived h' rs := by
  have := countP_set_add (fun r : HookKind × Progress => r.1 = h') (b := (h, p')) hi
  exact Nat.add_right_cancel this

theorem succeeded_set_succeeded (hi : rs[i]? = some (h, .pending)) :
    succeeded h' (rs.set i (h, .succeeded)) = succeeded h' rs + (decide (h = h')).toNat := by
  have := countP_set_add (fun r : HookKind × Progress => r.1 = h' ∧ r.2 = .succeeded) (b := (h, .succeeded)) hi
  by_cases hh : h = h' <;> simp_all [succeeded]

theorem succeeded_set_ended (hi : rs[i]? = some (h, .pending)) :
    succeeded h' (rs.set i (h, .ended)) = succeeded h' rs := by
  have := countP_set_add (fun r : HookKind × Progress => r.1 = h' ∧ r.2 = .succeeded) (b := (h, .ended)) hi
  simpa [succeeded] using this

end Counts

/-- The counters count them, as far as 64 bits go. -/
structure Counted (s : Traffic) : Prop where
  total : ∀ h, s.metrics.total h = UInt64.ofNat (arrived h s.requests)
  success : ∀ h, s.metrics.success h = UInt64.ofNat (succeeded h s.requests)

/-- A counter that is incremented counts one more. -/
theorem ofNat_add_toNat (n : ℕ) (p : Prop) [Decidable p] :
    (if p then UInt64.ofNat n + 1 else UInt64.ofNat n) = UInt64.ofNat (n + (decide p).toNat) := by
  by_cases hp : p <;> simp [hp, UInt64.ofNat_add]

theorem Counted.step (hs : s.Counted) (h : Step s e s') : s'.Counted := by
  cases h with
  | arrive h₁ =>
    constructor
    · intro h'
      rw [Metrics.total_arrive, hs.total, arrived_append, ofNat_add_toNat]
    · intro h'
      rw [Metrics.success_arrive, hs.success, succeeded_append]
  | succeed hi =>
    constructor
    · intro h'
      rw [Metrics.total_succeed, hs.total, arrived_set h' hi]
    · intro h'
      rw [Metrics.success_succeed, hs.success, succeeded_set_succeeded h' hi, ofNat_add_toNat]
  | refuse hi =>
    constructor
    · intro h'
      rw [Metrics.total_refuse, hs.total, arrived_set h' hi]
    · intro h'
      rw [Metrics.success_refuse, hs.success, succeeded_set_ended h' hi]
  | fail hi =>
    constructor
    · intro h'
      rw [hs.total, arrived_set h' hi]
    · intro h'
      rw [hs.success, succeeded_set_ended h' hi]
  | clean n =>
    constructor
    · intro h'
      rw [Metrics.total_clean, hs.total]
    · intro h'
      rw [Metrics.success_clean, hs.success]

/-- The hooks of the requests so far are not changed. -/
theorem Step.hooks (h : Step s e s') : s.requests.map Prod.fst <+: s'.requests.map Prod.fst := by
  have hset : ∀ {i : ℕ} {h : HookKind} {p p' : Progress}, s.requests[i]? = some (h, p) →
      s.requests.map Prod.fst <+: (s.requests.set i (h, p')).map Prod.fst := by
    intro i h p p' hi
    have hsame : (s.requests.map Prod.fst).set i h = s.requests.map Prod.fst := by
      apply List.ext_getElem?
      intro j
      by_cases hij : i = j
      · subst hij
        rw [List.getElem?_set_self (by simpa using (List.getElem?_eq_some_iff.1 hi).1), List.getElem?_map, hi]
        rfl
      · rw [List.getElem?_set_ne hij]
    have hmap : (s.requests.set i (h, p')).map Prod.fst = s.requests.map Prod.fst := List.map_set.trans hsame
    exact hmap ▸ List.prefix_rfl
  cases h with
  | arrive h₁ => simp
  | succeed hi => exact hset hi
  | refuse hi => exact hset hi
  | fail hi => exact hset hi
  | clean n => exact List.prefix_rfl

variable {es : List Event}

theorem counted_of_run (h : tries step es s = some s') (hs : s.Counted) : s'.Counted :=
  tries_inv (fun _ _ _ hs he => hs.step (step_eq_some he)) h hs

theorem hooks_of_run (h : tries step es s = some s') : s.requests.map Prod.fst <+: s'.requests.map Prod.fst :=
  tries_inv (I := fun s' => s.requests.map Prod.fst <+: s'.requests.map Prod.fst)
    (fun _ _ _ hs he => hs.trans (step_eq_some he).hooks) h List.prefix_rfl

/-! ### Two loads -/

/-- Of the requests after the first `n`, those that have succeeded. -/
def newcomers (h : HookKind) (n : ℕ) (s : Traffic) : ℕ := succeeded h (s.requests.drop n)

/-- Of the first `n` requests, those that have not. -/
def stragglers (h : HookKind) (n : ℕ) (s : Traffic) : ℕ :=
  (s.requests.take n).countP fun r => r.1 = h ∧ r.2 ≠ .succeeded

/-- Requests have succeeded or not. -/
theorem arrived_split (h : HookKind) (rs : List (HookKind × Progress)) :
    arrived h rs = succeeded h rs + rs.countP fun r => r.1 = h ∧ r.2 ≠ .succeeded := by
  induction rs with
  | nil => rfl
  | cons r rs ih =>
    simp only [arrived, succeeded] at ih ⊢
    rw [List.countP_cons, List.countP_cons, List.countP_cons, ih]
    by_cases h1 : r.1 = h <;> by_cases h2 : r.2 = .succeeded <;> simp [h1, h2]
    · omega
    · omega

theorem arrived_eq (h : tries step es s = some s') (h' : HookKind) :
    arrived h' s.requests = succeeded h' (s'.requests.take s.requests.length) + stragglers h' s.requests.length s' := by
  have hprefix := List.prefix_iff_eq_take.1 (hooks_of_run h)
  rw [List.length_map, ← List.map_take] at hprefix
  have hcount : ∀ rs : List (HookKind × Progress), arrived h' rs = (rs.map Prod.fst).countP (· = h') := by
    intro rs
    rw [List.countP_map]
    rfl
  rw [hcount, hprefix, ← hcount, arrived_split]
  rfl

theorem succeeded_eq (s : Traffic) (h : HookKind) (n : ℕ) :
    succeeded h s.requests = succeeded h (s.requests.take n) + newcomers h n s := by
  rw [newcomers, succeeded, succeeded, succeeded, ← List.countP_append, List.take_append_drop]

/-- **A total and, later, the successes.**  They fit exactly if no more requests have come in between and succeeded
than there are requests that came before and have not. -/
theorem success_le_total_iff (hs : s.Counted) (h : tries step es s = some s') (hlt : s'.requests.length < 2 ^ 64)
    (h' : HookKind) : s'.metrics.success h' ≤ s.metrics.total h' ↔
      newcomers h' s.requests.length s' ≤ stragglers h' s.requests.length s' := by
  have hle : arrived h' s.requests ≤ s'.requests.length := by
    have := (hooks_of_run h).length_le
    simp only [List.length_map] at this
    exact Nat.le_trans List.countP_le_length this
  have hle' : succeeded h' s'.requests ≤ s'.requests.length := List.countP_le_length
  rw [hs.total, (counted_of_run h hs).success, UInt64.le_iff_toNat_le,
    UInt64.toNat_ofNat_of_lt' (Nat.lt_of_le_of_lt hle' hlt), UInt64.toNat_ofNat_of_lt' (Nat.lt_of_le_of_lt hle hlt),
    arrived_eq h, succeeded_eq s' h' s.requests.length]
  omega

/-! ### The exported failures -/

/-- What the metrics are meant to be, and with them the failures: no subtraction wraps around. -/
structure Sensible (m : Metrics) : Prop where
  success_pub : m.success_pub ≤ m.total_publish_req
  success_play : m.success_play ≤ m.total_play_req
  failed_pub : (refresh m).failed_pub.toNat = m.total_publish_req.toNat - m.success_pub.toNat
  failed_play : (refresh m).failed_play.toNat = m.total_play_req.toNat - m.success_play.toNat

theorem sensible_iff (m : Metrics) :
    Sensible m ↔ m.success_pub ≤ m.total_publish_req ∧ m.success_play ≤ m.total_play_req := by
  constructor
  · intro h
    exact ⟨h.success_pub, h.success_play⟩
  · rintro ⟨hpub, hplay⟩
    exact ⟨hpub, hplay, UInt64.toNat_sub_of_le _ _ hpub, UInt64.toNat_sub_of_le _ _ hplay⟩

/-- The loads of `getMetrics` that matter here. -/
theorem getMetrics_eq_some {s₁ : Traffic} {es₁ es₂ es₃ es₄ es₅ : List Event} {m : Metrics}
    (h : s₁.getMetrics es₁ es₂ es₃ es₄ es₅ = some m) :
    ∃ s₂ s₃ s₄, tries step es₁ s₁ = some s₂ ∧ tries step es₂ s₂ = some s₃ ∧ tries step es₃ s₃ = some s₄ ∧
      m.total_publish_req = s₁.metrics.total .publish ∧ m.total_play_req = s₂.metrics.total .play ∧
      m.success_pub = s₃.metrics.success .publish ∧ m.success_play = s₄.metrics.success .play := by
  simp only [getMetrics, Option.bind_eq_bind, Option.bind_eq_some_iff, Option.pure_def, Option.some.injEq] at h
  obtain ⟨s₂, h₁, s₃, h₂, s₄, h₃, s₅, -, s₆, -, rfl⟩ := h
  exact ⟨s₂, s₃, s₄, h₁, h₂, h₃, rfl, rfl, rfl, rfl⟩

/-- **The exported failures.**  Whatever happens between the loads of `getMetrics`, with less than `2 ^ 64` requests
so far, they are right exactly if, for either hook, no more requests have come after the load of the total and have
succeeded by the load of the successes than there are requests that came before and have not. -/
theorem getMetrics_sensible_iff {es₀ es₁ es₂ es₃ es₄ es₅ : List Event} {s₁ s₂ s₃ s₄ : Traffic} {m : Metrics}
    (h₀ : tries step es₀ {} = some s₁) (h₁ : tries step es₁ s₁ = some s₂) (h₂ : tries step es₂ s₂ = some s₃)
    (h₃ : tries step es₃ s₃ = some s₄) (hm : s₁.getMetrics es₁ es₂ es₃ es₄ es₅ = some m)
    (hlt : s₄.requests.length < 2 ^ 64) :
    Sensible m ↔
      newcomers .publish s₁.requests.length s₃ ≤ stragglers .publish s₁.requests.length s₃ ∧
      newcomers .play s₂.requests.length s₄ ≤ stragglers .play s₂.requests.length s₄ := by
  obtain ⟨t₂, t₃, t₄, ht₂, ht₃, ht₄, htotal, htotal', hpub, hplay⟩ := getMetrics_eq_some hm
  obtain rfl := Option.some.inj (h₁.symm.trans ht₂)
  obtain rfl := Option.some.inj (h₂.symm.trans ht₃)
  obtain rfl := Option.some.inj (h₃.symm.trans ht₄)
  have hempty : ({} : Traffic).Counted := ⟨fun h => by cases h <;> rfl, fun h => by cases h <;> rfl⟩
  have hs₁ := counted_of_run h₀ hempty
  have hs₂ := counted_of_run h₁ hs₁
  have hlt₃ : s₃.requests.length < 2 ^ 64 := by
    have := (hooks_of_run h₃).length_le
    simp only [List.length_map] at this
    omega
  rw [sensible_iff, htotal, htotal', hpub, hplay,
    success_le_total_iff hs₁ (tries_append_eq_some.2 ⟨s₂, h₁, h₂⟩) hlt₃ .publish,
    success_le_total_iff hs₂ (tries_append_eq_some.2 ⟨s₃, h₂, h₃⟩) hlt .play]

/-- A request comes and succeeds between the first load and the third: the failures are `2 ^ 64 - 1`. -/
theorem getMetrics_wraps :
    ∃ m, ({} : Traffic).getMetrics [.arrive .publish, .succeed 0] [] [] [] [] = some m ∧ ¬ Sensible m ∧
      (refresh m).failed_pub.toNat = 2 ^ 64 - 1 := by
  refine ⟨_, rfl, ?_, by decide⟩
  intro h
  exact absurd h.success_pub (by decide)

/-- A request that came before and one that comes in between, which succeeds. -/
theorem getMetrics_sensible :
    ∃ s₁ m, tries step [.arrive .publish] {} = some s₁ ∧
      s₁.getMetrics [.arrive .publish, .succeed 1] [] [] [] [] = some m ∧ Sensible m := by
  let s₁ : Traffic := ⟨{ total_publish_req := 1 }, [(.publish, .pending)]⟩
  let s₂ : Traffic :=
    ⟨{ total_publish_req := 2, success_pub := 1 }, [(.publish, .pending), (.publish, .succeeded)]⟩
  let m : Metrics := { total_publish_req := 1, success_pub := 1 }
  have h₀ : tries step [.arrive .publish] {} = some s₁ := rfl
  have h₁ : tries step [.arrive .publish, .succeed 1] s₁ = some s₂ := rfl
  have hm : s₁.getMetrics [.arrive .publish, .succeed 1] [] [] [] [] = some m := rfl
  exact ⟨s₁, m, h₀, hm, (getMetrics_sensible_iff h₀ h₁ rfl rfl hm (by decide)).2 (by decide)⟩

end Traffic

end StreamGate.Scheduler
