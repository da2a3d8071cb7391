import StreamGate.Lib.Counters
import StreamGate.Lib.Runs

/-!
# Starting and stopping the scheduler

`StreamTaskScheduler::start` and `stop`, called by any threads, beside the loop of `timeoutCleanupThread`.  An
assignment to a `std::thread` that can still be joined ends the process (`terminated`).

As long as the calls that win the exchange of `_running` do not overlap, the process goes on and the thread runs exactly
between `start` and `stop` (`lifecycle_sound`), and `stop` comes back without waiting for the interval of the cleanup
(`stop_returns`).
-/

namespace StreamGate.Scheduler

open StreamGate.Lib

/-- Where the cleanup thread is. -/
inductive Cleaner where
  /-- Before it loads `_running`. -/
  | top
  /-- In its `try` block. -/
  | cleaning
  /-- Before it takes `_cleanup_mutex`. -/
  | locking
  /-- Before it looks at the predicate of `wait_for`, with the mutex. -/
  | checking
  /-- The predicate did not hold; with the mutex. -/
  | blocking
  /-- In `wait_for`, without the mutex. -/
  | asleep
  /-- Its time is up, and it looks at the predicate once more; with the mutex. -/
  | late
  | exited
  deriving DecidableEq

/-- The thread has the mutex. -/
def Cleaner.locked : Cleaner → Bool
  | checking | blocking | late => true
  | _ => false

/-- Where a call of `start` is. -/
inductive Start where
  | exchange
  /-- `_running` was not set: before the thread is made. -/
  | spawn
  | returned
  deriving DecidableEq

/-- Where a call of `stop` is. -/
inductive Stop where
  | exchange
  /-- `_running` was set: before the mutex and `notify_all`. -/
  | lock
  /-- Before `joinable`. -/
  | check
  | join
  | returned
  deriving DecidableEq

inductive LifeCall where
  | start (s : Start)
  | stop (s : Stop)
  deriving DecidableEq

/-- The call has won the exchange and is not over. -/
def LifeCall.busy : LifeCall → Bool
  | start .spawn | stop .lock | stop .check | stop .join => true
  | _ => false

/-- The steps that the thread has before it leaves its loop, once `_running` is not set. -/
def Cleaner.potential : Cleaner → ℕ
  | exited => 0
  | top | checking | late => 1
  | locking | asleep => 2
  | cleaning | blocking => 3

theorem Cleaner.potential_le (a : Cleaner) : a.potential ≤ 3 := by
  cases a <;> decide

/-- The steps that a call of `stop` has before it, when it has won the exchange. -/
def Stop.potential : Stop → ℕ
  | lock => 3
  | check => 2
  | join => 1
  | exchange | returned => 0

/-- The scheduler with its thread, and the calls there have been. -/
structure Lifecycle where
  running : Bool := false
  /-- `_cleanup_thread` can be joined. -/
  joinable : Bool := false
  cleaner : Cleaner := .exited
  /-- The thread was notified in its sleep. -/
  notified : Bool := false
  /-- `std::terminate`. -/
  terminated : Bool := false
  /-- How many times the `try` block was gone through. -/
  iterations : ℕ := 0
  calls : List LifeCall := []
  deriving DecidableEq

namespace Lifecycle

inductive Event where
  | start
  | stop
  /-- The next step of a call. -/
  | next (k : ℕ)
  /-- The next step of the thread.  In its sleep it goes on when it was notified. -/
  | cleaner
  /-- It wakes up by chance. -/
  | spurious
  /-- Its time is up. -/
  | timeout
  deriving DecidableEq

def become (k : ℕ) (call : LifeCall) (c : Lifecycle) : Lifecycle := { c with calls := c.calls.set k call }

/-- `start`. -/
def start (k : ℕ) (c : Lifecycle) : Start → Option Lifecycle
  | .exchange => some ({ c with running := true }.become k (.start (if c.running then .returned else .spawn)))
  | .spawn =>
    if c.joinable then some { c with terminated := true }
    else some ({ c with joinable := true, cleaner := .top, notified := false }.become k (.start .returned))
  | .returned => none

/-- `stop`.  Nothing but `notify_all` happens under the mutex. -/
def stop (k : ℕ) (c : Lifecycle) : Stop → Option Lifecycle
  | .exchange => some ({ c with running := false }.become k (.stop (if c.running then .lock else .returned)))
  | .lock =>
    if c.cleaner.locked then none
    else some ({ c with notified := c.notified || decide (c.cleaner = Cleaner.asleep) }.become k (.stop .check))
  | .check => some (c.become k (.stop (if c.joinable then .join else .returned)))
  | .join => if c.cleaner = .exited then some ({ c with joinable := false }.become k (.stop .returned)) else none
  | .returned => none

/-- `timeoutCleanupThread`.  A `std::exception` that its `try` block throws is caught. -/
def timeoutCleanupThread (c : Lifecycle) : Option Lifecycle :=
  match c.cleaner with
  | .top => some { c with cleaner := if c.running then .cleaning else .exited }
  | .cleaning => some { c with cleaner := .locking, iterations := c.iterations + 1 }
  | .locking => some { c with cleaner := .checking }
  | .checking => some { c with cleaner := if c.running then .blocking else .exited }
  | .blocking => some { c with cleaner := .asleep, notified := false }
  | .asleep => if c.notified then some { c with cleaner := .checking } else none
  | .late => some { c with cleaner := if c.running then .top else .exited }
  | .exited => none

/-- One step. -/
def step (e : Event) (c : Lifecycle) : Option Lifecycle :=
  if c.terminated then none
  else match e with
  | .start => some { c with calls := c.calls ++ [.start .exchange] }
  | .stop => some { c with calls := c.calls ++ [.stop .exchange] }
  | .next k =>
    match c.calls[k]? with
    | none => none
    | some (.start s) => c.start k s
    | some (.stop s) => c.stop k s
  | .cleaner => c.timeoutCleanupThread
  | .spurious => if c.cleaner = .asleep then some { c with cleaner := .checking } else none
  | .timeout => if c.cleaner = .asleep then some { c with cleaner := .late } else none

/-- The next step of the call `k` wins the exchange. -/
def wins (e : Event) (c : Lifecycle) : Bool :=
  match e with
  | .next k =>
    match c.calls[k]? with
    | some (.start .exchange) => !c.running
    | some (.stop .exchange) => c.running
    | _ => false
  | _ => false

/-- A call that has won the exchange is under way. -/
def busy (c : Lifecycle) : Bool := c.calls.any LifeCall.busy

/-- No call wins the exchange before the one that has won it last is over. -/
def orderlyStep (e : Event) (c : Lifecycle) : Option Lifecycle := if c.wins e ∧ c.busy then none else c.step e

variable {c c' : Lifecycle} {k : ℕ}

/-! ### Which call is under way -/

/-- No call but `k` is. -/
def Only (k : ℕ) (c : Lifecycle) : Prop := ∀ j call, j ≠ k → c.calls[j]? = some call → call.busy = false

theorem busy_eq_false : c.busy = false ↔ ∀ (j : ℕ) call, c.calls[j]? = some call → call.busy = false := by
  rw [busy, List.any_eq_false]
  constructor
  · exact fun h j call hj => Bool.eq_false_iff.2 (h call (List.mem_of_getElem? hj))
  · intro h call hmem
    obtain ⟨j, hj⟩ := List.mem_iff_getElem?.1 hmem
    exact Bool.eq_false_iff.1 (h j call hj)

theorem busy_of {call : LifeCall} (hk : c.calls[k]? = some call) (hb : call.busy = true) : c.busy = true :=
  List.any_eq_true.2 ⟨call, List.mem_of_getElem? hk, hb⟩

/-- After a step of the call `k`. -/
theorem only_become {call : LifeCall} (h : Only k c) (hcalls : c'.calls = c.calls.set k call) : Only k c' := by
  intro j a hjk hj
  rw [hcalls, List.getElem?_set_ne (Ne.symm hjk)] at hj
  exact h j a hjk hj

theorem busy_become {call : LifeCall} (h : Only k c) (hcalls : c'.calls = c.calls.set k call) (hb : call.busy = false) :
    c'.busy = false := by
  refine busy_eq_false.2 fun j a hj => ?_
  rw [hcalls] at hj
  exact forall_set (Q := fun _ a => a.busy = false) (fun j a hjk hj => h j a hjk hj) hb hj

theorem only_of_not_busy (h : c.busy = false) (k : ℕ) : Only k c := fun j a _ hj => busy_eq_false.1 h j a hj

/-- A call that begins is not under way. -/
theorem only_append {call : LifeCall} (h : Only k c) (hb : call.busy = false) (hcalls : c'.calls = c.calls ++ [call]) :
    Only k c' := by
  intro j a hjk hj
  rw [hcalls] at hj
  exact forall_append (Q := fun j a => j ≠ k → a.busy = false) (fun j a hj hjk => h j a hjk hj) (fun _ => hb) hj hjk

/-! ### Where the scheduler is -/

/-- The thread will leave its loop without a further signal, now that `_running` is not set. -/
def Leaving (c : Lifecycle) : Prop := c.cleaner ≠ .blocking ∧ (c.cleaner = .asleep → c.notified = true)

/-- Between the calls that win the exchange, and in each of them. -/
inductive Phase (c : Lifecycle) : Prop
  /-- The thread runs if `_running` is set, and else it is over and has been joined. -/
  | rest (hbusy : c.busy = false) (hjoin : c.joinable = c.running) (hrun : c.cleaner = .exited ↔ c.running = false)
  | starting (k : ℕ) (hk : c.calls[k]? = some (.start .spawn)) (honly : Only k c) (hrun : c.running = true)
      (hjoin : c.joinable = false) (hexit : c.cleaner = .exited)
  | stopping (k : ℕ) (s : Stop) (hk : c.calls[k]? = some (.stop s)) (hs : (LifeCall.stop s).busy = true)
      (honly : Only k c) (hrun : c.running = false) (hjoin : c.joinable = true) (hleave : s ≠ .lock → c.Leaving)

/-- A step of the thread, when `_running` is not set. -/
theorem cleaner_stopped (h : c.timeoutCleanupThread = some c') (hrun : c.running = false) :
    c'.calls = c.calls ∧ c'.running = false ∧ c'.joinable = c.joinable ∧ c'.terminated = c.terminated ∧
      (c.Leaving → c'.Leaving) := by
  unfold timeoutCleanupThread at h
  split at h
  case h_6 =>
    split at h
    · obtain rfl := Option.some.inj h
      exact ⟨rfl, hrun, rfl, rfl, fun _ => ⟨by simp, by simp⟩⟩
    · cases h
  case h_8 => cases h
  case h_5 hc =>
    obtain rfl := Option.some.inj h
    exact ⟨rfl, hrun, rfl, rfl, fun hl => absurd hc hl.1⟩
  all_goals
    obtain rfl := Option.some.inj h
    exact ⟨rfl, hrun, rfl, rfl, fun _ => ⟨by simp [hrun], by simp [hrun]⟩⟩

/-- A step of the thread, when it is set. -/
theorem cleaner_running (h : c.timeoutCleanupThread = some c') (hrun : c.running = true) :
    c'.calls = c.calls ∧ c'.running = true ∧ c'.joinable = c.joinable ∧ c'.terminated = c.terminated ∧
      c'.cleaner ≠ .exited := by
  unfold timeoutCleanupThread at h
  split at h
  case h_6 =>
    split at h
    · obtain rfl := Option.some.inj h
      exact ⟨rfl, hrun, rfl, rfl, by simp⟩
    · cases h
  case h_8 => cases h
  all_goals
    obtain rfl := Option.some.inj h
    exact ⟨rfl, hrun, rfl, rfl, by simp [hrun]⟩

/-- Everything but the calls is as before. -/
structure SameRest (c c' : Lifecycle) : Prop where
  running : c'.running = c.running
  joinable : c'.joinable = c.joinable
  cleaner : c'.cleaner = c.cleaner
  notified : c'.notified = c.notified

theorem SameRest.leaving (h : SameRest c c') (hl : c.Leaving) : c'.Leaving := by
  rw [Leaving, h.cleaner, h.notified]
  exact hl

/-- The calls under way are the same. -/
theorem Phase.of_calls (h : Phase c) (hsame : SameRest c c') (hbusy : c.busy = false → c'.busy = false)
    (honly : ∀ k, Only k c → Only k c')
    (hstay : ∀ (k : ℕ) call, c.calls[k]? = some call → call.busy = true → c'.calls[k]? = some call) : Phase c' := by
  cases h with
  | rest hb hj hr =>
    refine .rest (hbusy hb) ?_ ?_
    · rw [hsame.joinable, hsame.running, hj]
    · rw [hsame.cleaner, hsame.running, hr]
  | starting k hk ho hr hj he =>
    exact .starting k (hstay k _ hk rfl) (honly k ho) (hsame.running.trans hr) (hsame.joinable.trans hj)
      (hsame.cleaner.trans he)
  | stopping k s hk hs ho hr hj hl =>
    exact .stopping k s (hstay k _ hk hs) hs (honly k ho) (hsame.running.trans hr) (hsame.joinable.trans hj)
      fun hne => hsame.leaving (hl hne)

/-- A call begins. -/
theorem Phase.append {call : LifeCall} (h : Phase c) (hb : call.busy = false) :
    Phase { c with calls := c.calls ++ [call] } := by
  refine h.of_calls ⟨rfl, rfl, rfl, rfl⟩ (fun hbusy => ?_) (fun k ho => only_append ho hb rfl) fun k a hk _ => ?_
  · rw [busy, List.any_append, show c.calls.any LifeCall.busy = false from hbusy]
    simp [hb]
  · exact (List.getElem?_append_left (List.getElem?_eq_some_iff.1 hk).1).trans hk

/-- A call that is not under way comes to an end. -/
theorem Phase.lose {call call' : LifeCall} (h : Phase c) (hk : c.calls[k]? = some call) (hb : call.busy = false)
    (hb' : call'.busy = false) (hcalls : c'.calls = c.calls.set k call') (hsame : SameRest c c') : Phase c' := by
  refine h.of_calls hsame (fun hbusy => busy_become (only_of_not_busy hbusy k) hcalls hb') (fun j ho i a hij hi => ?_)
    fun j a hj ha => ?_
  · rw [hcalls] at hi
    exact forall_set (Q := fun i a => i ≠ j → a.busy = false) (fun i a _ hi hij => ho i a hij hi) (fun _ => hb') hi hij
  · have hjk : k ≠ j := by
      rintro rfl
      obtain rfl := Option.some.inj (hk.symm.trans hj)
      exact Bool.false_ne_true (hb.symm.trans ha)
    rw [hcalls, List.getElem?_set_ne hjk, hj]

/-- The call that is under way. -/
theorem Phase.of_busy {call : LifeCall} (h : Phase c) (hk : c.calls[k]? = some call) (hb : call.busy = true) :
    (call = .start .spawn ∧ Only k c ∧ c.running = true ∧ c.joinable = false ∧ c.cleaner = .exited) ∨
      ∃ s, call = .stop s ∧ Only k c ∧ c.running = false ∧ c.joinable = true ∧ (s ≠ .lock → c.Leaving) := by
  have hone : ∀ j a, c.calls[j]? = some a → Only j c → j = k ∧ a = call := by
    intro j a hj ho
    have hjk : k = j := by
      by_contra hne
      exact Bool.false_ne_true ((ho k call hne hk).symm.trans hb)
    subst hjk
    exact ⟨rfl, Option.some.inj (hj.symm.trans hk)⟩
  cases h with
  | rest hbusy hj hr => exact absurd (hbusy.symm.trans (busy_of hk hb)) Bool.false_ne_true
  | starting j hj ho hr hjoin he =>
    obtain ⟨rfl, rfl⟩ := hone j _ hj ho
    exact .inl ⟨rfl, ho, hr, hjoin, he⟩
  | stopping j s hj hs ho hr hjoin hl =>
    obtain ⟨rfl, rfl⟩ := hone j _ hj ho
    exact .inr ⟨s, rfl, ho, hr, hjoin, hl⟩

/-- Nothing is under way. -/
theorem Phase.of_not_busy (h : Phase c) (hb : c.busy = false) :
    c.joinable = c.running ∧ (c.cleaner = .exited ↔ c.running = false) := by
  cases h with
  | rest _ hj hr => exact ⟨hj, hr⟩
  | starting k hk => exact absurd (hb.symm.trans (busy_of hk rfl)) Bool.false_ne_true
  | stopping k s hk hs => exact absurd (hb.symm.trans (busy_of hk hs)) Bool.false_ne_true

theorem get_become (hk : ∃ a, c.calls[k]? = some a) (call : LifeCall) : (c.become k call).calls[k]? = some call := by
  obtain ⟨a, hk⟩ := hk
  exact List.getElem?_set_self (List.getElem?_eq_some_iff.1 hk).1

theorem Phase.start {s : Start} (h : Phase c) (hterm : c.terminated = false) (hk : c.calls[k]? = some (.start s))
    (hs : c.start k s = some c') (hwin : s = .exchange → c.running = false → c.busy = false) :
    Phase c' ∧ c'.terminated = false := by
  cases s with
  | exchange =>
    obtain rfl := Option.some.inj hs
    refine ⟨?_, hterm⟩
    cases hr : c.running with
    | true =>
      rw [if_pos rfl]
      exact h.lose hk rfl rfl rfl ⟨hr.symm, rfl, rfl, rfl⟩
    | false =>
      rw [if_neg Bool.false_ne_true]
      have hb := hwin rfl hr
      obtain ⟨hj, he⟩ := h.of_not_busy hb
      exact .starting k (get_become ⟨_, hk⟩ _) (only_become (only_of_not_busy hb k) rfl) rfl (hj.trans hr) (he.2 hr)
  | spawn =>
    obtain ⟨-, ho, hr, hj, -⟩ | ⟨s, hs, -⟩ := h.of_busy hk rfl
    · rw [Lifecycle.start, if_neg (Bool.eq_false_iff.1 hj)] at hs
      obtain rfl := Option.some.inj hs
      refine ⟨.rest (busy_become ho rfl rfl) hr.symm ?_, hterm⟩
      simp [become, hr]
    · cases hs
  | returned => cases hs

theorem Phase.stop {s : Stop} (h : Phase c) (hterm : c.terminated = false) (hk : c.calls[k]? = some (.stop s))
    (hs : c.stop k s = some c') (hwin : s = .exchange → c.running = true → c.busy = false) :
    Phase c' ∧ c'.terminated = false := by
  have hbusy : (LifeCall.stop s).busy = true → Only k c ∧ c.running = false ∧ c.joinable = true ∧
    (s ≠ .lock → c.Leaving) := by
    intro hb
    obtain ⟨he, -⟩ | ⟨s', he, hrest⟩ := h.of_busy hk hb
    · cases he
    · cases he
      exact hrest
  cases s with
  | exchange =>
    obtain rfl := Option.some.inj hs
    refine ⟨?_, hterm⟩
    cases hr : c.running with
    | false =>
      rw [if_neg Bool.false_ne_true]
      exact h.lose hk rfl rfl rfl ⟨hr.symm, rfl, rfl, rfl⟩
    | true =>
      rw [if_pos rfl]
      have hb := hwin rfl hr
      obtain ⟨hj, -⟩ := h.of_not_busy hb
      exact .stopping k .lock (get_become ⟨_, hk⟩ _) rfl (only_become (only_of_not_busy hb k) rfl) rfl (hj.trans hr)
        fun hne => absurd rfl hne
  | lock =>
    obtain ⟨ho, hr, hj, -⟩ := hbusy rfl
    rw [Lifecycle.stop] at hs
    split at hs
    · cases hs
    · rename_i hfree
      obtain rfl := Option.some.inj hs
      refine ⟨.stopping k .check (get_become ⟨_, hk⟩ _) rfl (only_become ho rfl) hr hj fun _ => ⟨?_, ?_⟩, hterm⟩
      · rintro (hblock : c.cleaner = .blocking)
        rw [hblock] at hfree
        exact hfree rfl
      · rintro (hasleep : c.cleaner = .asleep)
        simp [become, hasleep]
  | check =>
    obtain ⟨ho, hr, hj, hl⟩ := hbusy rfl
    obtain rfl := Option.some.inj hs
    rw [hj, if_pos rfl]
    exact ⟨.stopping k .join (get_become ⟨_, hk⟩ _) rfl (only_become ho rfl) hr hj fun _ => hl (by decide), hterm⟩
  | join =>
    obtain ⟨ho, hr, hj, hl⟩ := hbusy rfl
    rw [Lifecycle.stop] at hs
    split at hs
    · rename_i he
      obtain rfl := Option.some.inj hs
      exact ⟨.rest (busy_become ho rfl rfl) hr.symm ⟨fun _ => hr, fun _ => he⟩, hterm⟩
    · cases hs
  | returned => cases hs

/-- The thread wakes up, notified or not. -/
theorem Phase.wake {cleaner : Cleaner} (h : Phase c) (hasleep : c.cleaner = .asleep)
    (hc : cleaner = .checking ∨ cleaner = .late) : Phase { c with cleaner := cleaner } := by
  have hne : cleaner ≠ .exited := by rcases hc with rfl | rfl <;> decide
  cases h with
  | rest hb hj hr =>
    refine .rest hb hj ⟨fun he => absurd he hne, fun hf => ?_⟩
    have := hr.2 hf
    rw [hasleep] at this
    cases this
  | starting k hk ho hr hj he =>
    rw [hasleep] at he
    cases he
  | stopping k s hk hs ho hr hj hl =>
    refine .stopping k s hk hs ho hr hj fun _ => ?_
    rcases hc with rfl | rfl
    · exact ⟨by simp, by simp⟩
    · exact ⟨by simp, by simp⟩

theorem Phase.cleaner (h : Phase c) (hs : c.timeoutCleanupThread = some c') :
    Phase c' ∧ c'.terminated = c.terminated := by
  have hlive : c.cleaner ≠ .exited := by
    intro he
    rw [timeoutCleanupThread, he] at hs
    cases hs
  cases h with
  | starting k hk ho hr hj he => exact absurd he hlive
  | rest hb hj hr =>
    have hrun : c.running = true := Bool.eq_true_of_not_eq_false fun hf => hlive (hr.2 hf)
    obtain ⟨hcalls, hr', hj', hterm, hne⟩ := cleaner_running hs hrun
    refine ⟨.rest ?_ ?_ ⟨fun he => absurd he hne, fun hf => absurd (hr'.symm.trans hf) Bool.false_ne_true.symm⟩, hterm⟩
    · rw [busy, hcalls]
      exact hb
    · rw [hj', hj, hrun, hr']
  | stopping k s hk hs' ho hr hj hl =>
    obtain ⟨hcalls, hr', hj', hterm, hleave⟩ := cleaner_stopped hs hr
    refine ⟨.stopping k s (hcalls ▸ hk) hs' (fun j a hjk hj => ho j a hjk (hcalls ▸ hj)) hr' (hj'.trans hj)
      fun hne => hleave (hl hne), hterm⟩

theorem Phase.step {e : Event} (h : Phase c) (hterm : c.terminated = false) (hs : c.orderlyStep e = some c') :
    Phase c' ∧ c'.terminated = false := by
  unfold orderlyStep at hs
  split at hs
  · cases hs
  · rename_i hwin
    unfold Lifecycle.step at hs
    rw [if_neg (Bool.eq_false_iff.1 hterm)] at hs
    cases e with
    | start =>
      obtain rfl := Option.some.inj hs
      exact ⟨h.append rfl, hterm⟩
    | stop =>
      obtain rfl := Option.some.inj hs
      exact ⟨h.append rfl, hterm⟩
    | next k =>
      dsimp only at hs
      split at hs
      · cases hs
      · rename_i s hk
        refine h.start hterm hk hs fun he hr => ?_
        subst he
        simpa [wins, hk, hr] using hwin
      · rename_i s hk
        refine h.stop hterm hk hs fun he hr => ?_
        subst he
        simpa [wins, hk, hr] using hwin
    | cleaner =>
      obtain ⟨hp, ht⟩ := h.cleaner hs
      exact ⟨hp, ht.trans hterm⟩
    | spurious =>
      dsimp only at hs
      split at hs
      · obtain rfl := Option.some.inj hs
        exact ⟨h.wake ‹_› (.inl rfl), hterm⟩
      · cases hs
    | timeout =>
      dsimp only at hs
      split at hs
      · obtain rfl := Option.some.inj hs
        exact ⟨h.wake ‹_› (.inr rfl), hterm⟩
      · cases hs

theorem phase_of_run {es : List Event} (h : tries orderlyStep es {} = some c) : Phase c ∧ c.terminated = false :=
  tries_inv (I := fun c => Phase c ∧ c.terminated = false) (fun _ _ _ hp hs => hp.1.step hp.2 hs) h
    ⟨.rest rfl rfl ⟨fun _ => rfl, fun _ => rfl⟩, rfl⟩

/-- **The thread runs between `start` and `stop`.**  As long as no call wins the exchange of `_running` while an
earlier one that has won it is under way, the process is never terminated, whatever else happens, and in all states in
between `_cleanup_thread` can be joined exactly if `_running` is set, and is in its loop exactly then. -/
theorem lifecycle_sound {es : List Event} (h : tries orderlyStep es {} = some c) :
    c.terminated = false ∧ (c.busy = false → c.joinable = c.running ∧ (c.cleaner = .exited ↔ c.running = false)) :=
  ⟨(phase_of_run h).2, (phase_of_run h).1.of_not_busy⟩

/-- `stop`, and then `start` before the join. -/
def overtaken : List Event :=
  [.start, .next 0, .next 0, .stop, .next 1, .start, .next 2]

/-- A run in which the thread is stopped and started again. -/
theorem restarted :
    ∃ c, tries orderlyStep
        [.start, .next 0, .next 0, .cleaner, .cleaner, .cleaner, .cleaner, .cleaner, .timeout, .cleaner, .stop, .next 1,
          .next 1, .cleaner, .next 1, .next 1, .start, .next 2, .next 2] {} = some c ∧
      c.calls = [.start .returned, .stop .returned, .start .returned] ∧
        (c.terminated = false ∧
          (c.busy = false → c.joinable = c.running ∧ (c.cleaner = .exited ↔ c.running = false))) :=
  ⟨_, rfl, rfl, lifecycle_sound
    (show tries orderlyStep
        [.start, .next 0, .next 0, .cleaner, .cleaner, .cleaner, .cleaner, .cleaner, .timeout, .cleaner, .stop, .next 1,
          .next 1, .cleaner, .next 1, .next 1, .start, .next 2, .next 2] {} = some _ from rfl)⟩

/-- The condition is needed: the second thread replaces the first before the join, and the process ends. -/
example : (tries step (overtaken ++ [.next 2]) {}).map Lifecycle.terminated = some true := by decide

/-! ### The end of `stop` -/

/-- A step of the thread, or of the call `k`. -/
def Event.moves (k : ℕ) : Event → Bool
  | cleaner => true
  | next j => j = k
  | _ => false

/-- A call changes only by a step of its own. -/
theorem get_of_step {e : Event} {call : LifeCall} (hs : c.step e = some c') (hne : e ≠ .next k)
    (hk : c.calls[k]? = some call) : c'.calls[k]? = some call := by
  have hlt := (List.getElem?_eq_some_iff.1 hk).1
  unfold step at hs
  split at hs
  · cases hs
  cases e with
  | start =>
    obtain rfl := Option.some.inj hs
    exact (List.getElem?_append_left hlt).trans hk
  | stop =>
    obtain rfl := Option.some.inj hs
    exact (List.getElem?_append_left hlt).trans hk
  | next j =>
    have hset : ∀ a, (c.calls.set j a)[k]? = some call := fun a =>
      (List.getElem?_set_ne fun hjk => hne (congrArg _ hjk)).trans hk
    dsimp only at hs
    split at hs
    · cases hs
    · rename_i s _
      cases s <;> grind [start, become]
    · rename_i s _
      cases s <;> grind [stop, become]
  | cleaner =>
    dsimp only at hs
    unfold timeoutCleanupThread at hs
    grind
  | spurious => grind
  | timeout => grind

/-- The thread does not go on for longer, when `_running` is not set. -/
theorem cleaner_potential (h : c.timeoutCleanupThread = some c') (hrun : c.running = false) :
    c'.cleaner.potential + 1 ≤ c.cleaner.potential := by
  unfold timeoutCleanupThread at h
  split at h
  case h_6 hc =>
    split at h
    · obtain rfl := Option.some.inj h
      rw [hc]
      exact Nat.le_refl 2
    · cases h
  case h_8 => cases h
  all_goals
    rename_i hc
    obtain rfl := Option.some.inj h
    simp only [hc, hrun]
    decide

/-- The steps of others do not keep it back. -/
theorem others_potential {e : Event} (hs : c.step e = some c') (honly : Only k c) (hrun : c.running = false)
    (hne : e ≠ .next k) : c'.cleaner.potential + (e.moves k).toNat ≤ c.cleaner.potential := by
  unfold step at hs
  split at hs
  · cases hs
  cases e with
  | start =>
    obtain rfl := Option.some.inj hs
    exact Nat.le_refl _
  | stop =>
    obtain rfl := Option.some.inj hs
    exact Nat.le_refl _
  | next j =>
    have hjk : j ≠ k := fun hjk => hne (congrArg _ hjk)
    have hmoves : (Event.next j).moves k = false := decide_eq_false hjk
    rw [hmoves]
    dsimp only at hs
    -- the call `j` is not under way
    split at hs
    · cases hs
    · rename_i s hj
      have hb := honly j _ hjk hj
      cases s with
      | exchange =>
        obtain rfl := Option.some.inj hs
        exact Nat.le_refl _
      | spawn => cases hb
      | returned => cases hs
    · rename_i s hj
      have hb := honly j _ hjk hj
      cases s with
      | exchange =>
        obtain rfl := Option.some.inj hs
        exact Nat.le_refl _
      | returned => cases hs
      | _ => cases hb
  | cleaner => exact cleaner_potential hs hrun
  | spurious =>
    dsimp only at hs
    split at hs
    · rename_i hasleep
      obtain rfl := Option.some.inj hs
      rw [hasleep]
      exact Nat.le_succ 1
    · cases hs
  | timeout =>
    dsimp only at hs
    split at hs
    · rename_i hasleep
      obtain rfl := Option.some.inj hs
      rw [hasleep]
      exact Nat.le_succ 1
    · cases hs

/-- While the call `k` of `stop` is under way, every step of it and of the thread brings it nearer to its end, and no
other step delays it. -/
theorem Phase.ahead {e : Event} {s : Stop} (h : Phase c) (hterm : c.terminated = false)
    (hk : c.calls[k]? = some (.stop s)) (hb : (LifeCall.stop s).busy = true) (hs : c.orderlyStep e = some c') :
    c'.calls[k]? = some (.stop .returned) ∨
      ∃ s', c'.calls[k]? = some (.stop s') ∧ (LifeCall.stop s').busy = true ∧
        c'.cleaner.potential + s'.potential + (e.moves k).toNat ≤ c.cleaner.potential + s.potential := by
  obtain ⟨he, -⟩ | ⟨s', he, honly, hrun, hjoin, hl⟩ := h.of_busy hk hb
  · cases he
  obtain rfl : s = s' := by
    cases he
    rfl
  unfold orderlyStep at hs
  split at hs
  · cases hs
  rename_i hwin
  by_cases hmine : e = .next k
  · -- its own step
    subst hmine
    unfold Lifecycle.step at hs
    rw [if_neg (Bool.eq_false_iff.1 hterm)] at hs
    simp only [hk] at hs
    have hget := fun call => get_become ⟨_, hk⟩ (c := c) call
    cases s with
    | exchange => cases hb
    | lock =>
      refine .inr ⟨.check, ?_⟩
      rw [Lifecycle.stop] at hs
      split at hs
      · cases hs
      · obtain rfl := Option.some.inj hs
        exact ⟨hget _, rfl, by simp [become, Event.moves, Stop.potential]⟩
    | check =>
      obtain rfl := Option.some.inj hs
      rw [hjoin, if_pos rfl]
      exact .inr ⟨.join, hget _, rfl, by simp [become, Event.moves, Stop.potential]⟩
    | join =>
      rw [Lifecycle.stop] at hs
      split at hs
      · obtain rfl := Option.some.inj hs
        exact .inl (hget _)
      · cases hs
    | returned => cases hb
  · have := others_potential hs honly hrun hmine
    exact .inr ⟨s, get_of_step hs hmine hk, hb, by omega⟩

/-- It is never held up: the call or the thread can take its next step. -/
theorem Phase.not_stuck {s : Stop} (h : Phase c) (hterm : c.terminated = false) (hk : c.calls[k]? = some (.stop s))
    (hb : (LifeCall.stop s).busy = true) : ∃ e, e.moves k = true ∧ c.orderlyStep e ≠ none := by
  obtain ⟨he, -⟩ | ⟨s', he, -, -, -, hl⟩ := h.of_busy hk hb
  · cases he
  obtain rfl : s = s' := by
    cases he
    rfl
  have hthread : c.timeoutCleanupThread ≠ none → ∃ e, e.moves k = true ∧ c.orderlyStep e ≠ none :=
    fun h => ⟨.cleaner, rfl, by simpa [orderlyStep, wins, Lifecycle.step, hterm] using h⟩
  have hcall : c.stop k s ≠ none → ∃ e, e.moves k = true ∧ c.orderlyStep e ≠ none := by
    intro h
    refine ⟨.next k, decide_eq_true rfl, ?_⟩
    have hwins : c.wins (.next k) = false := by
      cases s with
      | exchange => cases hb
      | _ => simp [wins, hk]
    simpa [orderlyStep, hwins, Lifecycle.step, hterm, hk] using h
  cases s with
  | exchange => cases hb
  | lock =>
    by_cases hlock : c.cleaner.locked = true
    · refine hthread ?_
      unfold timeoutCleanupThread
      split <;> simp_all [Cleaner.locked]
    · exact hcall (by simp [Lifecycle.stop, hlock])
  | check => exact hcall (by simp [Lifecycle.stop])
  | join =>
    by_cases hexit : c.cleaner = .exited
    · exact hcall (by simp [Lifecycle.stop, hexit])
    · refine hthread ?_
      obtain ⟨-, hnote⟩ := hl (by decide)
      unfold timeoutCleanupThread
      split <;> simp_all
  | returned => cases hb

/-- A call that has returned. -/
theorem returned_stays {e : Event} (hs : c.orderlyStep e = some c') (hk : c.calls[k]? = some (.stop .returned)) :
    c'.calls[k]? = some (.stop .returned) := by
  unfold orderlyStep at hs
  split at hs
  · cases hs
  refine get_of_step hs ?_ hk
  rintro rfl
  unfold Lifecycle.step at hs
  split at hs
  · cases hs
  · simp [hk, Lifecycle.stop] at hs

/-- The call `k` of `stop` has won the exchange and is not over. -/
def UnderWay (k : ℕ) (c : Lifecycle) : Prop :=
  Phase c ∧ c.terminated = false ∧ ∃ s, c.calls[k]? = some (.stop s) ∧ (LifeCall.stop s).busy = true

/-- What the call `k` of `stop` and the thread have before them. -/
def ahead (k : ℕ) (c : Lifecycle) : ℕ :=
  c.cleaner.potential + match c.calls[k]? with
    | some (.stop s) => s.potential
    | _ => 0

theorem ahead_eq {s : Stop} (hk : c.calls[k]? = some (.stop s)) :
    ahead k c = c.cleaner.potential + s.potential := by
  simp only [ahead, hk]

theorem UnderWay.step {e : Event} (h : UnderWay k c) (hs : c.orderlyStep e = some c') :
    c'.calls[k]? = some (.stop .returned) ∨ (UnderWay k c' ∧ ahead k c' + (e.moves k).toNat ≤ ahead k c) := by
  obtain ⟨hphase, hterm, s, hk, hb⟩ := h
  obtain ⟨hphase', hterm'⟩ := hphase.step hterm hs
  refine (hphase.ahead hterm hk hb hs).imp id fun ⟨s', hk', hb', hle⟩ => ⟨⟨hphase', hterm', s', hk', hb'⟩, ?_⟩
  rw [ahead_eq hk, ahead_eq hk']
  exact hle

/-- **`stop` comes back.**  Once a call of `stop` has won the exchange, in every further run in which the calls that win
it do not overlap the call returns after at most six steps of its own and of the thread, and until then one of these
steps can be taken: it waits neither for the interval of the cleanup nor for anybody else. -/
theorem stop_returns {es es' : List Event} (h : tries orderlyStep es {} = some c)
    (hk : c.calls[k]? = some (.stop .lock)) (h' : tries orderlyStep es' c = some c') :
    c'.calls[k]? = some (.stop .returned) ∨
      (es'.countP (Event.moves k) < 6 ∧ ∃ e, e.moves k = true ∧ c'.orderlyStep e ≠ none) := by
  obtain ⟨hphase, hterm⟩ := phase_of_run h
  have hrun := tries_count_until (I := UnderWay k) (D := fun c => c.calls[k]? = some (.stop .returned)) (μ := ahead k)
    (A := Event.moves k) (fun _ _ _ hI hs => hI.step hs) (fun _ _ _ hD hs => returned_stays hs hD) h'
    ⟨hphase, hterm, _, hk, rfl⟩
  refine hrun.imp id fun ⟨⟨hphase', hterm', s, hk', hb⟩, hle⟩ => ⟨?_, hphase'.not_stuck hterm' hk' hb⟩
  have hstart : ahead k c ≤ 6 := by
    rw [ahead_eq hk]
    exact Nat.add_le_add_right c.cleaner.potential_le 3
  have hend : 0 < ahead k c' := by
    rw [ahead_eq hk']
    cases s <;> simp [Stop.potential, LifeCall.busy] at hb ⊢
  omega

/-- `stop` while the thread is about to sleep. -/
theorem stopped_asleep :
    ∃ c c', tries orderlyStep
        [.start, .next 0, .next 0, .cleaner, .cleaner, .cleaner, .cleaner, .stop, .next 1] {} = some c ∧
      tries orderlyStep [.cleaner, .next 1, .next 1, .cleaner, .cleaner, .next 1] c = some c' ∧
        (c'.calls[1]? = some (.stop .returned) ∨
          ([Event.cleaner, .next 1, .next 1, .cleaner, .cleaner, .next 1].countP (Event.moves 1) < 6 ∧
            ∃ e, e.moves 1 = true ∧ c'.orderlyStep e ≠ none)) :=
  ⟨_, _, rfl, rfl, stop_returns
    (show tries orderlyStep
        [.start, .next 0, .next 0, .cleaner, .cleaner, .cleaner, .cleaner, .stop, .next 1] {} = some _ from rfl)
        rfl rfl⟩

end Lifecycle

end StreamGate.Scheduler
