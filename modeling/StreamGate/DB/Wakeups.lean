import Mathlib.Data.Finset.Card
import StreamGate.DB.Waiting

/-!
# Waking up the waiting calls

The manager with its condition variable: which of the calls in `wait_until` have been notified, and which
notifications are still to be sent.  An idle connection is never left to calls that sleep and have not been notified
(`no_lost_wakeup`), and once `shutdown` has returned every call comes to its end without a timeout
(`closing_ends`).
-/

namespace StreamGate.DB

open Lib

/-- The steps that a call of `acquireConnection` has before it at most once `_shutdown` is set. -/
def Acquire.potential : Acquire → ℕ
  | .entry | .top | .woken | .compare _ _ => 1
  | .lock | .wait | .asleep | .marked _ => 2
  | .relock | .invalid | .mark _ => 3
  | .refused | .validate _ => 4
  | .create => 5
  | .grow _ => 6
  | .read => 7
  | .examine => 8
  | .acquired _ | .null => 0

/-- The steps of a connection on the way out. -/
def Discard.potential : Discard → ℕ
  | .sub => 4
  | .mark => 3
  | .marked => 2
  | .compare _ => 1

def Release.potential : Release → ℕ
  | .mark _ => 7
  | .marked _ => 6
  | .test _ => 5
  | .discard _ d => d.potential
  | .push _ => 2
  | .done => 0

def Shutdown.potential : Shutdown → ℕ
  | .lock => 2
  | .exchange => 1
  | .drain | .discard _ | .done => 0

namespace Call

/-- In `wait_until`. -/
def sleeps : Call → Bool
  | acquire .asleep => true
  | _ => false

/-- The call has the mutex and looks at the pool next. -/
def looks : Call → Bool
  | acquire .top | acquire .examine | acquire .woken => true
  | _ => false

/-- In the loop of `shutdown`, before its `notify_all`. -/
def closing : Call → Bool
  | shutdown .drain | shutdown (.discard _) => true
  | _ => false

/-- The notifications that a step of a call leaves to be sent, by `notify_one` and by `notify_all`. -/
def owing : Call → Call → ℕ × ℕ
  | release (.push _), _ => (1, 0)
  | shutdown .drain, shutdown .done => (0, 1)
  | _, _ => (0, 0)

/-- The steps that a call has before it at most once `_shutdown` is set; a call that pushes its connection owes a
notification as well.  The loop of `shutdown` is not counted. -/
def potential : Call → ℕ
  | acquire a => a.potential
  | release r => r.potential
  | shutdown s => s.potential

end Call

/-- The manager and its `_cv`. -/
structure Wakeups where
  m : DBManager
  /-- The calls that were notified in their sleep. -/
  notified : Finset ℕ := ∅
  /-- How many calls of `releaseConnection` come to their `notify_one`. -/
  ones : ℕ := 0
  /-- How many calls of `shutdown` come to their `notify_all`. -/
  alls : ℕ := 0

namespace Wakeups

inductive Event where
  /-- A step of the manager.  A call that sleeps wakes up, notified or not. -/
  | manager (e : DB.Event)
  /-- `notify_one`, which wakes up a call if one sleeps. -/
  | notifyOne (woken : Option ℕ)
  | notifyAll

/-- The calls that sleep. -/
def sleepers (w : Wakeups) : Finset ℕ :=
  (Finset.range w.m.calls.length).filter fun k => w.m.calls[k]?.any Call.sleeps

/-- The calls that sleep and have not been notified. -/
def unaware (w : Wakeups) : Finset ℕ := w.sleepers \ w.notified

/-- The notifications that a step of the call `k` leaves to be sent. -/
def owing (k : ℕ) (m m' : DBManager) : ℕ × ℕ :=
  match m.calls[k]?, m'.calls[k]? with
  | some call, some call' => call.owing call'
  | _, _ => (0, 0)

/-- After a step of the manager.  The call that has made it does not sleep, or has woken up in between. -/
def follow (w : Wakeups) (m' : DBManager) : DB.Event → Wakeups
  | .next k _ =>
    { m := m'
      notified := w.notified.erase k
      ones := w.ones + (owing k w.m m').1
      alls := w.alls + (owing k w.m m').2 }
  | _ => { w with m := m' }

/-- Nothing happens after an assertion has failed. -/
def step (config : Config) (ndebug : Bool) (e : Event) (w : Wakeups) : Option Wakeups :=
  if ndebug = false ∧ w.m.failed = true then none
  else match e, w.ones, w.alls with
  | .manager e, _, _ => (w.m.step config ndebug e).map fun m' => w.follow m' e
  | .notifyOne (some k), ones + 1, _ =>
    if k ∈ w.unaware then some { w with ones := ones, notified := insert k w.notified } else none
  | .notifyOne none, ones + 1, _ => if w.unaware = ∅ then some { w with ones := ones } else none
  | .notifyAll, _, alls + 1 => some { w with alls := alls, notified := w.sleepers }
  | _, _, _ => none

/-- The steps of the manager in a run. -/
def Event.manager? : Event → Option DB.Event
  | .manager e => some e
  | _ => none

variable {config : Config} {ndebug : Bool} {w w' : Wakeups} {m₀ m m' : DBManager} {k : ℕ} {ok : Bool}
  {call call' : Call}

/-! ### The steps -/

inductive Step (config : Config) (ndebug : Bool) (w : Wakeups) : Event → Wakeups → Prop
  | manager {e : DB.Event} {m' : DBManager} (h : w.m.step config ndebug e = some m') :
      Step config ndebug w (.manager e) (w.follow m' e)
  | notifyOne {k ones : ℕ} (hones : w.ones = ones + 1) (hk : k ∈ w.unaware) :
      Step config ndebug w (.notifyOne (some k)) { w with ones := ones, notified := insert k w.notified }
  | notifyNone {ones : ℕ} (hones : w.ones = ones + 1) (hall : w.unaware = ∅) :
      Step config ndebug w (.notifyOne none) { w with ones := ones }
  | notifyAll {alls : ℕ} (halls : w.alls = alls + 1) :
      Step config ndebug w .notifyAll { w with alls := alls, notified := w.sleepers }

theorem step_eq_some {e : Event} (h : step config ndebug e w = some w') : Step config ndebug w e w' := by
  unfold step at h
  split at h
  · cases h
  · split at h
    · obtain ⟨m', hm, rfl⟩ := Option.map_eq_some_iff.1 h
      exact .manager hm
    · split at h
      · obtain rfl := Option.some.inj h
        exact .notifyOne ‹_› ‹_›
      · cases h
    · split at h
      · obtain rfl := Option.some.inj h
        exact .notifyNone ‹_› ‹_›
      · cases h
    · obtain rfl := Option.some.inj h
      exact .notifyAll ‹_›
    · cases h

/-- **The runs are those of the manager**, with notifications in between. -/
theorem manager_of_run {es : List Event} (h : tries (step config ndebug) es w = some w') :
    tries (DBManager.step config ndebug) (es.filterMap Event.manager?) w.m = some w'.m := by
  induction es generalizing w with
  | nil =>
    obtain rfl := Option.some.inj h
    rfl
  | cons e es ih =>
    obtain ⟨v, hv, h⟩ := tries_cons_eq_some.1 h
    have hrest := ih h
    cases step_eq_some hv with
    | @manager e m' hm =>
      refine tries_cons_eq_some.2 ⟨m', hm, ?_⟩
      have hfollow : (w.follow m' e).m = m' := by cases e <;> rfl
      rwa [hfollow] at hrest
    | notifyOne hones hk => exact hrest
    | notifyNone hones hall => exact hrest
    | notifyAll halls => exact hrest

/-! ### The calls that sleep -/

theorem mem_sleepers : k ∈ w.sleepers ↔ ∃ call, w.m.calls[k]? = some call ∧ call.sleeps = true := by
  rw [sleepers, Finset.mem_filter, Finset.mem_range, Option.any_eq_true]
  refine ⟨fun h => h.2, fun ⟨call, hk, hs⟩ => ⟨?_, call, hk, hs⟩⟩
  exact (List.getElem?_eq_some_iff.1 hk).1

theorem mem_unaware : k ∈ w.unaware ↔ k ∈ w.sleepers ∧ k ∉ w.notified := Finset.mem_sdiff

theorem sleepers_of_nil (h : w.m.calls = []) : w.sleepers = ∅ := by
  rw [sleepers, h, List.length_nil, Finset.range_zero, Finset.filter_empty]

/-- A call that begins does not sleep. -/
theorem sleepers_begin (hcalls : w'.m.calls = w.m.calls ++ [call]) (hs : call.sleeps = false) :
    w'.sleepers = w.sleepers := by
  ext k
  rw [mem_sleepers, mem_sleepers, hcalls, List.getElem?_append]
  split
  · rfl
  · rename_i hlt
    rw [List.getElem?_eq_none (by omega : w.m.calls.length ≤ k)]
    constructor
    · rintro ⟨a, ha, hsa⟩
      obtain rfl : a = call := by simpa using List.mem_of_getElem? ha
      rw [hs] at hsa
      cases hsa
    · rintro ⟨a, ha, -⟩
      cases ha

/-- After a step of the call `k`, the others sleep as before. -/
theorem mem_sleepers_set (hcalls : w'.m.calls = w.m.calls.set k call') {j : ℕ} (hjk : j ≠ k) :
    j ∈ w'.sleepers ↔ j ∈ w.sleepers := by
  rw [mem_sleepers, mem_sleepers, hcalls, List.getElem?_set_ne hjk.symm]

theorem mem_sleepers_self (hk : w.m.calls[k]? = some call) (hcalls : w'.m.calls = w.m.calls.set k call') :
    k ∈ w'.sleepers ↔ call'.sleeps = true := by
  rw [mem_sleepers, hcalls, List.getElem?_set_self (List.getElem?_eq_some_iff.1 hk).1]
  simp

/-- A call that is to go back to sleep has looked in vain. -/
theorem not_awaited_of_asleep {q : DBManager}
    (h : m.advance config k ok (.acquire .asleep) = some (.acquire .asleep, q)) :
    ¬ m.awaited := by
  intro ha
  simp only [DBManager.advance, DBManager.acquireConnection, if_pos ha] at h
  split at h <;> simp at h

/-- **What a call leaves in the pool.**  Where something is left, what it has added is owed a notification, and what it
was to look at itself has been taken or is looked at. -/
theorem advance_pool (h : m.advance config k ok call = some (call', m')) (hs : m'.shutdown = false) :
    m'.pool = [] ∨ m'.pool.length + call.looks.toNat + call.sleeps.toNat ≤
      m.pool.length + call'.looks.toNat + (call.owing call').1 := by
  have hpool : ¬ m.awaited → m.pool = [] := fun ha => by simpa using (not_or.1 ha).1
  cases DBManager.advance_eq_some h with
  | again hm => exact .inl (hpool (not_awaited_of_asleep h))
  | giveUp hm ha => exact .inl (hpool ha)
  | sleep ha => exact .inl (hpool ha)
  | empty hp => exact .inl hp
  | pop hp => exact .inr (by simp [hp, Call.looks, Call.sleeps, Call.owing])
  | topNull h' | wokenNull h' | late c h' => simp [h'] at hs
  | discard c hd | discarded c hd | dropping hd | dropped hd =>
    obtain ⟨total, failed, rfl⟩ := DBManager.discard_frame hd
    exact .inr (Nat.le_refl _)
  | push c hm => exact .inr (by simp [Call.looks, Call.sleeps, Call.owing])
  | drop hp => exact .inr (by simp [hp, Call.looks, Call.sleeps, Call.owing])
  | _ => exact .inr (by simp [Call.looks, Call.sleeps, Call.owing])

/-- A call goes to sleep before an empty pool. -/
theorem advance_sleeps (h : m.advance config k ok call = some (call', m')) (hs : call'.sleeps = true) :
    m'.pool = [] ∧ m'.shutdown = false := by
  have hawaited : ¬ m.awaited → m.pool = [] ∧ m.shutdown = false := fun ha => by simpa using not_or.1 ha
  cases DBManager.advance_eq_some h with
  | again hm => exact hawaited (not_awaited_of_asleep h)
  | sleep ha => exact hawaited ha
  | _ => cases hs

/-- The loop of `shutdown` ends with a notification. -/
theorem advance_closing (h : m.advance config k ok call = some (call', m')) (hc : call.closing = true) :
    call'.closing = true ∨ (call.owing call').2 = 1 := by
  cases DBManager.advance_eq_some h with
  | drained hp => exact .inr rfl
  | drop hp | dropping hd | dropped hd => exact .inl rfl
  | _ => cases hc

/-- Who sets `_shutdown` goes on with the loop. -/
theorem closing_of_shutdown (h : m.advance config k ok call = some (call', m')) (hs : m.shutdown = false)
    (hs' : m'.shutdown = true) : call'.closing = true := by
  cases DBManager.advance_eq_some h with
  | exchange he => rfl
  | discard c hd | discarded c hd | dropping hd | dropped hd =>
    obtain ⟨total, failed, rfl⟩ := DBManager.discard_frame hd
    exact absurd (hs.symm.trans hs') Bool.false_ne_true
  | _ => exact absurd (hs.symm.trans hs') Bool.false_ne_true

/-! ### No lost notifications -/

/-- As long as a call sleeps unaware, every idle connection has a call on its way to it, or a notification; and after
`_shutdown` was set a notification of all is to come. -/
structure Attentive (w : Wakeups) : Prop where
  known : w.notified ⊆ w.sleepers
  idle : w.m.shutdown = false → w.unaware.Nonempty →
    w.m.pool.length ≤ w.notified.card + w.ones + w.m.calls.countP Call.looks
  closing : w.m.shutdown = true → w.unaware.Nonempty → 0 < w.alls ∨ ∃ call ∈ w.m.calls, call.closing = true

/-- Nobody sleeps unaware who did not before. -/
theorem unaware_mono (hsleepers : w'.sleepers = w.sleepers) (hnotified : w.notified ⊆ w'.notified)
    (h : w'.unaware.Nonempty) : w.unaware.Nonempty := by
  obtain ⟨k, hk⟩ := h
  obtain ⟨hs, hn⟩ := mem_unaware.1 hk
  exact ⟨k, mem_unaware.2 ⟨hsleepers ▸ hs, fun h => hn (hnotified h)⟩⟩

/-- A call begins awake. -/
theorem step_begin {e : DB.Event} (h : m.step config ndebug e = some m') (hnext : ∀ k ok, e ≠ .next k ok)
    (hprefill : ∀ ok, e ≠ .prefill ok) :
    ∃ call : Call, call.sleeps = false ∧ call.looks = false ∧ call.closing = false ∧
      m'.calls = m.calls ++ [call] ∧ m'.pool = m.pool ∧ m'.shutdown = m.shutdown := by
  cases (DBManager.step_eq_some h).1 with
  | next hk h => exact absurd rfl (hnext _ _)
  | fill hi | skip hi => exact absurd rfl (hprefill _)
  | _ => exact ⟨_, rfl, rfl, rfl, rfl, rfl, rfl⟩

theorem Attentive.begin (h : w.Attentive) (hs : call.sleeps = false) (hl : call.looks = false)
    (hcalls : m'.calls = w.m.calls ++ [call]) (hpool : m'.pool = w.m.pool) (hshutdown : m'.shutdown = w.m.shutdown) :
    ({ w with m := m' } : Wakeups).Attentive := by
  have hsleepers : ({ w with m := m' } : Wakeups).sleepers = w.sleepers := sleepers_begin hcalls hs
  have hunaware : ({ w with m := m' } : Wakeups).unaware.Nonempty → w.unaware.Nonempty :=
    unaware_mono hsleepers Finset.Subset.rfl
  refine ⟨?_, fun hopen hne => ?_, fun hclosed hne => ?_⟩
  · rw [hsleepers]
    exact h.known
  · have := h.idle (hshutdown ▸ hopen) (hunaware hne)
    simpa [hcalls, hpool, hl] using this
  · rcases h.closing (hshutdown ▸ hclosed) (hunaware hne) with halls | ⟨a, ha, hc⟩
    · exact .inl halls
    · exact .inr ⟨a, by simp [hcalls, ha], hc⟩

/-- A step of the call `k`, from `call` to `call'`. -/
structure Follows (w w' : Wakeups) (k : ℕ) (call call' : Call) : Prop where
  before : w.m.calls[k]? = some call
  calls : w'.m.calls = w.m.calls.set k call'
  notified : w'.notified = w.notified.erase k
  ones : w'.ones = w.ones + (call.owing call').1
  alls : w'.alls = w.alls + (call.owing call').2

theorem follows_next (hk : w.m.calls[k]? = some call) (h : m'.calls = w.m.calls) :
    Follows w (w.follow (m'.become k call') (.next k ok)) k call call' := by
  have hcalls : (m'.become k call').calls = w.m.calls.set k call' := by rw [DBManager.become, h]
  have howing : owing k w.m (m'.become k call') = call.owing call' := by
    rw [owing, hk, hcalls, List.getElem?_set_self (List.getElem?_eq_some_iff.1 hk).1]
  constructor
  · exact hk
  · exact hcalls
  · rfl
  · rw [follow, howing]
  · rw [follow, howing]

theorem Follows.after (hf : Follows w w' k call call') : w'.m.calls[k]? = some call' := by
  rw [hf.calls, List.getElem?_set_self (List.getElem?_eq_some_iff.1 hf.before).1]

/-- Somebody sleeps unaware: it is the call itself, or one that did so before. -/
theorem Follows.unaware (hf : Follows w w' k call call') (h : w'.unaware.Nonempty) :
    call'.sleeps = true ∨ w.unaware.Nonempty := by
  obtain ⟨j, hj⟩ := h
  obtain ⟨hs, hn⟩ := mem_unaware.1 hj
  by_cases hjk : j = k
  · subst hjk
    exact .inl ((mem_sleepers_self hf.before hf.calls).1 hs)
  · refine .inr ⟨j, mem_unaware.2 ⟨(mem_sleepers_set hf.calls hjk).1 hs, fun hmem => hn ?_⟩⟩
    rw [hf.notified]
    exact Finset.mem_erase.2 ⟨hjk, hmem⟩

theorem Attentive.next_known (h : w.Attentive) (hf : Follows w w' k call call') : w'.notified ⊆ w'.sleepers := by
  intro j hj
  rw [hf.notified] at hj
  obtain ⟨hjk, hmem⟩ := Finset.mem_erase.1 hj
  exact (mem_sleepers_set hf.calls hjk).2 (h.known hmem)

/-- A call that was notified sleeps no longer. -/
theorem Attentive.card_notified (h : w.Attentive) (hf : Follows w w' k call call') :
    w.notified.card ≤ w'.notified.card + call.sleeps.toNat := by
  rw [hf.notified]
  by_cases hmem : k ∈ w.notified
  · obtain ⟨a, hka, hsa⟩ := mem_sleepers.1 (h.known hmem)
    obtain rfl := Option.some.inj (hf.before.symm.trans hka)
    rw [hsa]
    exact (Finset.card_erase_add_one hmem).ge
  · rw [Finset.erase_eq_of_notMem hmem]
    exact Nat.le_add_right _ _

theorem Attentive.next_idle (h : w.Attentive) (hf : Follows w w' k call call')
    (ha : w.m.advance config k ok call = some (call', m')) (hpool' : w'.m.pool = m'.pool) (hopen : m'.shutdown = false)
    (hne : w'.unaware.Nonempty) : w'.m.pool.length ≤ w'.notified.card + w'.ones + w'.m.calls.countP Call.looks := by
  have hempty : m'.pool = [] → w'.m.pool.length ≤ w'.notified.card + w'.ones + w'.m.calls.countP Call.looks := by
    intro hp
    rw [hpool', hp]
    exact Nat.zero_le _
  rcases hf.unaware hne with hs | hne
  · exact hempty (advance_sleeps ha hs).1
  have hopen₀ : w.m.shutdown = false := by
    rcases (DBManager.advance_eq_some ha).shutdown_eq with he | ⟨-, -, he⟩
    · exact he ▸ hopen
    · exact absurd (hopen.symm.trans he) Bool.false_ne_true
  rcases advance_pool ha hopen with hp | hp
  · exact hempty hp
  have hidle := h.idle hopen₀ hne
  have hcard := h.card_notified hf
  have hlooks := countP_set_add Call.looks (b := call') hf.before
  rw [← hf.calls] at hlooks
  rw [hpool', hf.ones]
  omega

theorem Attentive.next_closing (h : w.Attentive) (hf : Follows w w' k call call')
    (ha : w.m.advance config k ok call = some (call', m')) (hclosed : m'.shutdown = true)
    (hne : w'.unaware.Nonempty) : 0 < w'.alls ∨ ∃ a ∈ w'.m.calls, a.closing = true := by
  have hmem' : call' ∈ w'.m.calls := List.mem_of_getElem? hf.after
  cases hclosed₀ : w.m.shutdown with
  | false => exact .inr ⟨call', hmem', closing_of_shutdown ha hclosed₀ hclosed⟩
  | true =>
    have halls := hf.alls
    rcases hf.unaware hne with hs | hne
    · exact absurd ((advance_sleeps ha hs).2.symm.trans hclosed) Bool.false_ne_true
    rcases h.closing hclosed₀ hne with hpos | ⟨a, hmem, hc⟩
    · exact .inl (by omega)
    obtain ⟨j, hj⟩ := List.mem_iff_getElem?.1 hmem
    by_cases hjk : j = k
    · subst hjk
      obtain rfl := Option.some.inj (hf.before.symm.trans hj)
      rcases advance_closing ha hc with hc' | hone
      · exact .inr ⟨call', hmem', hc'⟩
      · exact .inl (by omega)
    · refine .inr ⟨a, List.mem_of_getElem? (i := j) ?_, hc⟩
      rw [hf.calls, List.getElem?_set_ne (Ne.symm hjk), hj]

/-- A step of the manager. -/
theorem Attentive.manager {e : DB.Event} (h : w.Attentive) (hm : w.m.step config ndebug e = some m')
    (hfresh : 0 < w.m.remaining → w.m.calls = []) : (w.follow m' e).Attentive := by
  have hstep := (DBManager.step_eq_some hm).1
  cases e with
  | next k ok =>
    obtain ⟨call, call', m₁, hk, ha, rfl⟩ := DBManager.step_next hm
    have hf : Follows w (w.follow (m₁.become k call') (.next k ok)) k call call' :=
      follows_next hk (DBManager.advance_eq_some ha).calls
    exact ⟨h.next_known hf, fun hopen hne => h.next_idle hf ha rfl hopen hne,
      fun hclosed hne => h.next_closing hf ha hclosed hne⟩
  | prefill ok =>
    -- the constructor has nobody who sleeps
    have hcalls : w.m.calls = [] ∧ m'.calls = [] := by
      cases hstep with
      | fill hi | skip hi => exact ⟨hfresh (by omega), hfresh (by omega)⟩
    have hsleepers : (w.follow m' (.prefill ok)).sleepers = ∅ := sleepers_of_nil hcalls.2
    have hunaware : ¬ (w.follow m' (.prefill ok)).unaware.Nonempty := by
      rw [unaware, hsleepers, Finset.empty_sdiff]
      exact Finset.not_nonempty_empty
    refine ⟨fun j hj => ?_, fun _ hne => absurd hne hunaware, fun _ hne => absurd hne hunaware⟩
    have hj' := h.known hj
    rw [sleepers_of_nil hcalls.1] at hj'
    cases hj'
  | _ =>
    obtain ⟨call, hs, hl, -, hcalls, hpool, hshutdown⟩ := step_begin hm (by simp) (by simp)
    exact h.begin hs hl hcalls hpool hshutdown

theorem Attentive.step {e : Event} (h : w.Attentive) (hs : step config ndebug e w = some w')
    (hfresh : 0 < w.m.remaining → w.m.calls = []) : w'.Attentive := by
  cases step_eq_some hs with
  | manager hm => exact h.manager hm hfresh
  | @notifyOne k ones hones hk =>
    obtain ⟨hks, hkn⟩ := mem_unaware.1 hk
    have hsleepers : ({ w with ones := ones, notified := insert k w.notified } : Wakeups).sleepers = w.sleepers := rfl
    have hunaware := unaware_mono hsleepers (Finset.subset_insert k w.notified)
    refine ⟨fun j hj => ?_, fun hopen hne => ?_, fun hclosed hne => h.closing hclosed (hunaware hne)⟩
    · rcases Finset.mem_insert.1 hj with rfl | hj
      · exact hks
      · exact h.known hj
    · have hidle := h.idle hopen (hunaware hne)
      have hcard : (insert k w.notified).card = w.notified.card + 1 := Finset.card_insert_of_notMem hkn
      dsimp only
      omega
  | @notifyNone ones hones hall =>
    have hunaware : ¬ ({ w with ones := ones } : Wakeups).unaware.Nonempty :=
      fun hne => Finset.nonempty_iff_ne_empty.1 hne hall
    exact ⟨h.known, fun _ hne => absurd hne hunaware, fun _ hne => absurd hne hunaware⟩
  | @notifyAll alls halls =>
    have hunaware : ¬ ({ w with alls := alls, notified := w.sleepers } : Wakeups).unaware.Nonempty := by
      rintro ⟨j, hj⟩
      obtain ⟨hs, hn⟩ := mem_unaware.1 hj
      exact hn hs
    exact ⟨Finset.Subset.rfl, fun _ hne => absurd hne hunaware, fun _ hne => absurd hne hunaware⟩

/-- What holds after a run. -/
structure Kept (config : Config) (w : Wakeups) : Prop where
  held : w.m.Held config
  fresh : 0 < w.m.remaining → w.m.calls = []
  attentive : w.Attentive

theorem kept_of_run {es : List Event} (h₀ : construct config = some m₀)
    (h : tries (step config ndebug) es { m := m₀ } = some w) : w.Kept config := by
  have hinv : (∃ des, tries (DBManager.step config ndebug) des m₀ = some w.m) ∧ w.Attentive := by
    refine tries_inv (I := fun w => (∃ des, tries (DBManager.step config ndebug) des m₀ = some w.m) ∧ w.Attentive)
      ?_ h ⟨⟨[], rfl⟩, ?_⟩
    · rintro w e w' ⟨⟨des, hdes⟩, hw⟩ hs
      have hkept := DBManager.kept_of_run h₀ hdes
      have hone : tries (step config ndebug) [e] w = some w' := tries_cons_eq_some.2 ⟨w', hs, rfl⟩
      exact ⟨⟨_, tries_append_eq_some.2 ⟨w.m, hdes, manager_of_run hone⟩⟩,
        hw.step hs fun hr => (hkept.books.fresh hr).1⟩
    · have hsleepers : ({ m := m₀ } : Wakeups).sleepers = ∅ :=
        sleepers_of_nil (DBManager.construct_spec h₀).2.2.2.1
      have hunaware : ¬ ({ m := m₀ } : Wakeups).unaware.Nonempty := by
        rw [unaware, hsleepers, Finset.empty_sdiff]
        exact Finset.not_nonempty_empty
      exact ⟨Finset.empty_subset _, fun _ hne => absurd hne hunaware, fun _ hne => absurd hne hunaware⟩
  obtain ⟨⟨des, hdes⟩, hw⟩ := hinv
  have hkept := DBManager.kept_of_run h₀ hdes
  exact ⟨hkept.held, fun hr => (hkept.books.fresh hr).1, hw⟩

/-- Nobody is on the way: every call has returned or sleeps unaware, and no notification is to come. -/
structure Resting (w : Wakeups) : Prop where
  calls : ∀ call ∈ w.m.calls, call.returned = true ∨ call.sleeps = true
  notified : w.notified = ∅
  ones : w.ones = 0

/-- **No notification is lost.**  Before the shutdown, as long as a call sleeps unaware, there are at most as many idle
connections as calls that were notified or are about to look at the pool and notifications to come.  So a call that
nobody is going to wake up has no connection to wake up for. -/
theorem no_lost_wakeup {es : List Event} (h₀ : construct config = some m₀)
    (h : tries (step config ndebug) es { m := m₀ } = some w) (hopen : w.m.shutdown = false)
    (hne : w.unaware.Nonempty) :
    w.m.pool.length ≤ w.notified.card + w.ones + w.m.calls.countP Call.looks ∧ (w.Resting → w.m.pool = []) := by
  have hidle := (kept_of_run h₀ h).attentive.idle hopen hne
  refine ⟨hidle, fun hrest => ?_⟩
  have hlooks : w.m.calls.countP Call.looks = 0 := by
    refine List.countP_eq_zero.2 fun call hcall hl => ?_
    rcases hrest.calls call hcall with hr | hr
    · cases call with
      | acquire a => cases a <;> cases hl <;> cases hr
      | _ => cases hl
    · cases call with
      | acquire a => cases a <;> cases hl <;> cases hr
      | _ => cases hl
  rw [hrest.notified, hrest.ones, hlooks] at hidle
  exact List.length_eq_zero_iff.1 (Nat.le_zero.1 hidle)

/-- The only connection is taken, a second call goes to sleep, and the connection is given back. -/
def handover : List Event :=
  List.map .manager
    (DBManager.growing 0 ++ DB.Event.acquire :: List.replicate 6 (.next 1 true) ++
      .release (some 0) :: List.replicate 4 (.next 2 true))

theorem lazy_handover :
    ∃ m₀ w, construct DBManager.lazy = some m₀ ∧ tries (step DBManager.lazy false) handover { m := m₀ } = some w ∧
      w.m.shutdown = false ∧ w.unaware.Nonempty ∧ w.m.pool = [0] ∧
      w.m.pool.length ≤ w.notified.card + w.ones + w.m.calls.countP Call.looks := by
  let m₀ := (construct DBManager.lazy).get rfl
  have hrun : (tries (step DBManager.lazy false) handover { m := m₀ }).map
      (fun w => (w.m.shutdown, decide w.unaware.Nonempty, w.m.pool)) = some (false, true, [0]) := by decide +kernel
  obtain ⟨w, hrun, hw⟩ := Option.map_eq_some_iff.1 hrun
  simp only [Prod.mk.injEq, decide_eq_true_eq] at hw
  obtain ⟨hopen, hne, hpool⟩ := hw
  exact ⟨m₀, w, rfl, hrun, hopen, hne, hpool, (no_lost_wakeup rfl hrun hopen hne).1⟩

/-! ### After the shutdown -/

/-- Some call of `shutdown` has set `_shutdown`, and the loops are over, their notifications sent. -/
structure Closed (w : Wakeups) : Prop where
  shutdown : w.m.shutdown = true
  alls : w.alls = 0
  calls : ∀ call ∈ w.m.calls, call.closing = false

/-- What is left to be done then. -/
def potential (w : Wakeups) : ℕ := (w.m.calls.map Call.potential).sum + w.ones

/-- A step of a call, or a notification. -/
def Event.moves : Event → Bool
  | .manager (.next _ _) | .notifyOne _ | .notifyAll => true
  | _ => false

/-- No call wakes up that was not notified, nor gives up. -/
def patientStep (config : Config) (ndebug : Bool) (e : Event) (w : Wakeups) : Option Wakeups :=
  match e with
  | .manager (.next k _) => if k ∈ w.unaware then none else step config ndebug e w
  | _ => step config ndebug e w

theorem patientStep_eq_some {e : Event} (h : patientStep config ndebug e w = some w') :
    step config ndebug e w = some w' := by
  unfold patientStep at h
  split at h
  · split at h
    · cases h
    · exact h
  · exact h

/-- Each step of a call lowers its potential. -/
theorem advance_potential (h : m.advance config k ok call = some (call', m')) (hs : m.shutdown = true)
    (hc : call.closing = false) : m'.shutdown = true ∧ call'.closing = false ∧ (call.owing call').2 = 0 ∧
      call'.potential + (call.owing call').1 + 1 ≤ call.potential := by
  have hawaited : m.awaited := .inr hs
  have hopen : m.shutdown = false → False := fun hf => Bool.false_ne_true (hf.symm.trans hs)
  have hshutdown : m'.shutdown = true := by
    rcases (DBManager.advance_eq_some h).shutdown_eq with he | ⟨-, -, he⟩
    · rw [he, hs]
    · exact he
  refine ⟨hshutdown, ?_⟩
  cases DBManager.advance_eq_some h with
  | again hm => exact absurd hawaited (not_awaited_of_asleep h)
  | giveUp hm ha | sleep ha => exact absurd hawaited ha
  | entry hs' | top hs' | woken hs' | keep c hs' | exchange hs' => exact (hopen hs').elim
  | @discard c d d' m' hd =>
    cases d with
    | compare total => cases hd
    | _ =>
      cases hd
      exact ⟨rfl, rfl, Nat.le_refl _⟩
  | @discarded c d m' hd =>
    cases d with
    | compare total => exact ⟨rfl, rfl, Nat.le_refl _⟩
    | _ => cases hd
  | drop hp | drained hp | dropping hd | dropped hd => cases hc
  | _ => exact ⟨rfl, rfl, by simp [Call.potential, Acquire.potential, Release.potential, Discard.potential,
      Shutdown.potential, Call.owing]⟩

theorem potential_le (call : Call) : call.potential ≤ 8 := by
  cases call with
  | acquire a => cases a <;> simp [Call.potential, Acquire.potential]
  | release r =>
    cases r with
    | discard c d => cases d <;> simp [Call.potential, Release.potential, Discard.potential]
    | _ => simp [Call.potential, Release.potential]
  | shutdown s => cases s <;> simp [Call.potential, Shutdown.potential]

theorem Follows.potential (hf : Follows w w' k call call') :
    w'.potential + call.potential = w.potential + call'.potential + (call.owing call').1 := by
  have hsum := sum_set_add Call.potential (b := call') hf.before
  rw [Wakeups.potential, Wakeups.potential, hf.calls, hf.ones]
  omega

theorem Closed.next (h : w.Closed) (hf : Follows w w' k call call')
    (ha : w.m.advance config k ok call = some (call', m')) (hm : w'.m.shutdown = m'.shutdown) :
    w'.Closed ∧ w'.potential + 1 ≤ w.potential := by
  have hmem : call ∈ w.m.calls := List.mem_of_getElem? hf.before
  obtain ⟨hs, hc, hnone, hlt⟩ := advance_potential ha h.shutdown (h.calls call hmem)
  refine ⟨⟨hm.trans hs, ?_, fun a hmem' => ?_⟩, ?_⟩
  · rw [hf.alls, h.alls, hnone]
  · rw [hf.calls] at hmem'
    rcases List.mem_or_eq_of_mem_set hmem' with hold | rfl
    · exact h.calls a hold
    · exact hc
  · have := hf.potential
    omega

theorem Closed.begin (h : w.Closed) (hc : call.closing = false) (hcalls : m'.calls = w.m.calls ++ [call])
    (hs : m'.shutdown = w.m.shutdown) :
    ({ w with m := m' } : Wakeups).Closed ∧ ({ w with m := m' } : Wakeups).potential ≤ w.potential + 8 := by
  refine ⟨⟨hs.trans h.shutdown, h.alls, fun a hmem => ?_⟩, ?_⟩
  · rw [hcalls] at hmem
    rcases List.mem_append.1 hmem with hold | hnew
    · exact h.calls a hold
    · rw [List.mem_singleton.1 hnew]
      exact hc
  · have hle := potential_le call
    simp only [potential, hcalls, List.map_append, List.map_cons, List.map_nil, List.sum_append, List.sum_singleton]
    omega

/-- A step leaves the manager closed.  A step of a call uses up some of the potential, and a call that begins adds to
it. -/
theorem Closed.step {e : Event} (h : w.Closed) (hs : patientStep config ndebug e w = some w') :
    w'.Closed ∧ (e.moves = true → w'.potential + 1 ≤ w.potential) ∧
      (e.moves = false → w'.potential ≤ w.potential + 8) := by
  cases step_eq_some (patientStep_eq_some hs) with
  | @notifyOne k ones hones hk =>
    refine ⟨⟨h.shutdown, h.alls, h.calls⟩, fun _ => ?_, nofun⟩
    simp only [potential, hones]
    omega
  | @notifyNone ones hones hall =>
    refine ⟨⟨h.shutdown, h.alls, h.calls⟩, fun _ => ?_, nofun⟩
    simp only [potential, hones]
    omega
  | notifyAll halls => exact absurd (h.alls.symm.trans halls) (Nat.zero_ne_add_one _)
  | @manager e m' hm =>
    cases e with
    | next k ok =>
      obtain ⟨call, call', m₁, hk, ha, rfl⟩ := DBManager.step_next hm
      obtain ⟨hclosed, hlt⟩ := h.next (follows_next hk (DBManager.advance_eq_some ha).calls) ha rfl
      exact ⟨hclosed, fun _ => hlt, nofun⟩
    | prefill ok =>
      have hframe : m'.calls = w.m.calls ∧ m'.shutdown = w.m.shutdown := by
        cases (DBManager.step_eq_some hm).1 with
        | fill hi | skip hi => exact ⟨rfl, rfl⟩
      refine ⟨⟨hframe.2.trans h.shutdown, h.alls, fun a hmem => h.calls a (hframe.1 ▸ hmem)⟩,
        nofun, fun _ => ?_⟩
      simp only [potential, follow, hframe.1]
      omega
    | _ =>
      obtain ⟨call, -, -, hc, hcalls, -, hshutdown⟩ := step_begin hm (by simp) (by simp)
      obtain ⟨hclosed, hle⟩ := h.begin hc hcalls hshutdown
      exact ⟨hclosed, nofun, fun _ => hle⟩

/-- A call that has not returned can go on, unless another one has the mutex. -/
theorem advance_isSome (hmutex : call.locked = true ∨ m.mutex = none) (hr : call.returned = false) :
    (m.advance config k ok call).isSome = true := by
  have hfree : call.locked = false → m.mutex = none := fun hl => by
    rcases hmutex with hl' | hm
    · exact absurd (hl.symm.trans hl') Bool.false_ne_true
    · exact hm
  cases call with
  | acquire a =>
    simp only [DBManager.advance, Option.isSome_map]
    cases a with
    | lock | relock =>
      rw [DBManager.acquireConnection, if_pos (hfree rfl)]
      rfl
    | asleep =>
      rw [DBManager.acquireConnection, if_pos (hfree rfl)]
      split
      · rfl
      · split <;> rfl
    | acquired c | null => cases hr
    | entry | validate c | invalid | read | mark c | marked c | compare c active | refused => rfl
    | top | examine | grow current | create | wait | woken =>
      simp only [DBManager.acquireConnection]
      split <;> rfl
  | release r =>
    simp only [DBManager.advance, Option.isSome_map]
    cases r with
    | push c =>
      rw [DBManager.releaseConnection, if_pos (hfree rfl)]
      rfl
    | done => cases hr
    | mark c | marked c | test c => rfl
    | discard c d =>
      simp only [DBManager.releaseConnection]
      split <;> rfl
  | shutdown s =>
    simp only [DBManager.advance, Option.isSome_map]
    cases s with
    | lock =>
      rw [DBManager.close, if_pos (hfree rfl)]
      rfl
    | done => cases hr
    | exchange | drain | discard d =>
      simp only [DBManager.close]
      split <;> rfl

theorem not_locked_of_returned (h : call.returned = true) : call.locked = false := by
  unfold Call.returned at h
  split at h
  · rfl
  · rfl
  · rfl
  · rfl
  · cases h

/-- Nobody sleeps unaware. -/
theorem Closed.unaware (h : w.Closed) (hw : w.Attentive) : w.unaware = ∅ := by
  by_contra hne
  rcases hw.closing h.shutdown (Finset.nonempty_iff_ne_empty.2 hne) with hpos | ⟨call, hmem, hc⟩
  · have := h.alls
    omega
  · exact absurd ((h.calls call hmem).symm.trans hc) Bool.false_ne_true

/-- When nothing moves any more, every call has returned. -/
theorem Closed.returned (h : w.Closed) (hw : w.Kept config) (hlive : ndebug = true ∨ w.m.failed = false)
    (hstuck : ∀ e : Event, e.moves = true → patientStep config ndebug e w = none) :
    (∀ call ∈ w.m.calls, call.returned = true) ∧ w.ones = 0 := by
  have hunaware := h.unaware hw.attentive
  have hguard : ¬ (ndebug = false ∧ w.m.failed = true) := by
    rintro ⟨hn, hf⟩
    rcases hlive with hn' | hf'
    · exact absurd (hn.symm.trans hn') Bool.false_ne_true
    · exact absurd (hf'.symm.trans hf) Bool.false_ne_true
  -- a call cannot go on only if another one has the mutex
  have hcall : ∀ (k : ℕ) (call : Call), w.m.calls[k]? = some call → call.locked = true ∨ w.m.mutex = none →
      call.returned = true := by
    intro k call hk hmutex
    by_contra hr
    have hsome : (w.m.advance config k true call).isSome = true := advance_isSome hmutex (Bool.eq_false_iff.2 hr)
    have hnone := hstuck (.manager (.next k true)) rfl
    rw [patientStep, hunaware, if_neg (Finset.notMem_empty k), Wakeups.step, if_neg hguard] at hnone
    simp only [DBManager.step, if_neg hguard, hk, Option.map_eq_none_iff] at hnone
    rw [hnone] at hsome
    cases hsome
  have hfree : w.m.mutex = none := by
    by_contra hm
    obtain ⟨k, hk⟩ := Option.ne_none_iff_exists'.1 hm
    obtain ⟨call, hcall', hl⟩ := hw.held.holder k hk
    rw [not_locked_of_returned (hcall k call hcall' (.inl hl))] at hl
    cases hl
  refine ⟨fun call hmem => ?_, ?_⟩
  · obtain ⟨k, hk⟩ := List.mem_iff_getElem?.1 hmem
    exact hcall k call hk (.inr hfree)
  · cases hones : w.ones with
    | zero => rfl
    | succ ones =>
      have hnone := hstuck (.notifyOne none) rfl
      simp only [patientStep, Wakeups.step, if_neg hguard, hones, if_pos hunaware] at hnone
      cases hnone

theorem advance_of_returned (h : call.returned = true) : m.advance config k ok call = none := by
  unfold Call.returned at h
  split at h
  · rfl
  · rfl
  · rfl
  · rfl
  · cases h

/-- When every call has returned, nothing moves any more. -/
theorem Closed.stuck (h : w.Closed) (hret : ∀ call ∈ w.m.calls, call.returned = true) (hones : w.ones = 0) {e : Event}
    (he : e.moves = true) : patientStep config ndebug e w = none := by
  by_contra hne
  obtain ⟨w', hw'⟩ := Option.ne_none_iff_exists'.1 hne
  cases step_eq_some (patientStep_eq_some hw') with
  | notifyOne hones' hk => exact absurd (hones.symm.trans hones') (Nat.zero_ne_add_one _)
  | notifyNone hones' hall => exact absurd (hones.symm.trans hones') (Nat.zero_ne_add_one _)
  | notifyAll halls => exact absurd (h.alls.symm.trans halls) (Nat.zero_ne_add_one _)
  | @manager e m' hm =>
    cases e with
    | next k ok =>
      obtain ⟨call, call', m₁, hk, ha, rfl⟩ := DBManager.step_next hm
      rw [advance_of_returned (hret call (List.mem_of_getElem? hk))] at ha
      cases ha
    | _ => cases he

/-- **Shutdown ends every call.**  Once a call of `shutdown` has gone through its loop and notified the others, a run in
which nobody wakes up by chance or by a timeout goes at most eight steps further for each call there is or that begins,
and it can go on until every call has returned. -/
theorem closing_ends {es fs : List Event} (h₀ : construct config = some m₀)
    (h : tries (step config ndebug) es { m := m₀ } = some w) (hclosed : w.Closed)
    (h' : tries (patientStep config ndebug) fs w = some w') :
    fs.countP Event.moves ≤ 8 * w.m.calls.length + w.ones + 8 * fs.countP (fun e => !e.moves) ∧
    ((ndebug = true ∨ w'.m.failed = false) →
      ((∀ e : Event, e.moves = true → patientStep config ndebug e w' = none) ↔
        (∀ call ∈ w'.m.calls, call.returned = true) ∧ w'.ones = 0)) := by
  have hrun : tries (step config ndebug) (es ++ fs) { m := m₀ } = some w' :=
    tries_append_eq_some.2 ⟨w, h, tries_mono (fun _ _ _ => patientStep_eq_some) h'⟩
  have hclosed' : w'.Closed := tries_inv (fun _ _ _ hv hs => (hv.step hs).1) h' hclosed
  refine ⟨?_, fun hlive => ⟨hclosed'.returned (kept_of_run h₀ hrun) hlive, fun h e => hclosed'.stuck h.1 h.2⟩⟩
  have hcount := tries_count (I := Closed) (μ := potential) (A := Event.moves)
    (g := fun e => if e.moves then 0 else 8) (fun _ _ _ hv hs => (hv.step hs).1)
    (fun _ _ _ hv hs => (hv.step hs).2.1)
    (fun v e v' hv hs he => by
      rw [if_neg (Bool.eq_false_iff.1 he)]
      exact (hv.step hs).2.2 he) h' hclosed
  have hsum := sum_map_le potential_le w.m.calls
  have hpot : w.potential = (w.m.calls.map Call.potential).sum + w.ones := rfl
  rw [gains_ite] at hcount
  omega

/-- `shutdown`, before the call that waits has been woken up. -/
def closingDown : List Event :=
  handover ++ .manager .shutdown :: List.replicate 8 (.manager (.next 3 true)) ++ [.notifyAll]

instance (w : Wakeups) : Decidable w.Closed :=
  decidable_of_iff (w.m.shutdown = true ∧ w.alls = 0 ∧ ∀ call ∈ w.m.calls, call.closing = false)
    ⟨fun h => ⟨h.1, h.2.1, h.2.2⟩, fun h => ⟨h.shutdown, h.alls, h.calls⟩⟩

/-- The call that waits comes back without a connection, and the notification of the release finds nobody. -/
def ending : List Event := [.manager (.next 1 true), .notifyOne none, .manager (.next 1 true)]

theorem lazy_ending :
    ∃ m₀ w w', construct DBManager.lazy = some m₀ ∧
      tries (step DBManager.lazy true) closingDown { m := m₀ } = some w ∧ w.Closed ∧
      tries (patientStep DBManager.lazy true) ending w = some w' ∧
      ∀ e : Event, e.moves = true → patientStep DBManager.lazy true e w' = none := by
  let m₀ := (construct DBManager.lazy).get rfl
  have hrun : (tries (step DBManager.lazy true) closingDown { m := m₀ }).any
      (fun w => decide w.Closed && (tries (patientStep DBManager.lazy true) ending w).any fun w' =>
        decide (∀ call ∈ w'.m.calls, call.returned = true) && decide (w'.ones = 0)) = true := by
    decide +kernel
  obtain ⟨w, hrun, hw⟩ := (Option.any_eq_true _ _).1 hrun
  obtain ⟨hclosed, hw⟩ := (Bool.and_eq_true _ _).mp hw
  obtain ⟨w', hend, hw'⟩ := (Option.any_eq_true _ _).1 hw
  obtain ⟨hret, hones⟩ := (Bool.and_eq_true _ _).mp hw'
  have hends := closing_ends rfl hrun (of_decide_eq_true hclosed) hend
  exact ⟨m₀, w, w', rfl, hrun, of_decide_eq_true hclosed, hend,
    (hends.2 (.inl rfl)).2 ⟨of_decide_eq_true hret, of_decide_eq_true hones⟩⟩

end Wakeups

end StreamGate.DB
