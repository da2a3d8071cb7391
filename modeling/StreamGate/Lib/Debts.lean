import StreamGate.Lib.Interleave

/-!
# What a thread owes

Some commands open a place of the shared state, and others close it.  A program that opens a place only to close
it with its next command may be interrupted in between, but in every interleaving each open place has a thread
that comes to close it (`exec_owed`); so nothing is open once all threads have returned.

A closing command that fails leaves the place open, and the program may return all the same: that is excluded for
the commands in `sure`, by the schedule.
-/

namespace StreamGate.Lib

namespace Prog

variable {E : Iface} {S α β K : Type}

/-- The program closes the place it owes with its next command, and returns without debts.  `opens` is the place
that a command may open. -/
def Settles (opens : E.Cmd → Option K) (closes : K → E.Cmd → Prop) (sure : E.Cmd → Prop) :
    Option K → Prog E α → Prop
  | owed, ret _ => owed = none
  | owed, call c k => (∀ x, owed = some x → closes x c) ∧ (∀ r, (k (some r)).Settles opens closes sure (opens c)) ∧
      (¬ sure c → (k none).Settles opens closes sure owed)
  | owed, exec c k => (∀ x, owed = some x → closes x c) ∧ ∀ r, (k r).Settles opens closes sure (opens c)

section Settles

variable {opens : E.Cmd → Option K} {closes : K → E.Cmd → Prop} {sure : E.Cmd → Prop} {owed : Option K}

/-- A program that opens nothing. -/
theorem Only.settles {p : Prog E α} (hp : p.Only fun c => opens c = none) : p.Settles opens closes sure none := by
  induction p with
  | ret a => rfl
  | call c k ih =>
    have hc : opens c = none := hp.1
    refine ⟨fun x hx => (by cases hx), fun r => ?_, fun _ => ih none hp.2.2⟩
    rw [hc]
    exact ih (some r) (hp.2.1 r trivial)
  | exec c k ih =>
    have hc : opens c = none := hp.1
    refine ⟨fun x hx => (by cases hx), fun r => ?_⟩
    rw [hc]
    exact ih r (hp.2 r trivial)

/-- The first program has settled when the second one starts. -/
theorem Settles.bind {p : Prog E α} {f : α → Prog E β} (hp : p.Settles opens closes sure owed)
    (hf : ∀ a, (f a).Settles opens closes sure none) : (p >>= f).Settles opens closes sure owed := by
  induction p generalizing owed with
  | ret a =>
    obtain rfl : owed = none := hp
    exact hf a
  | call c k ih => exact ⟨hp.1, fun r => ih (some r) (hp.2.1 r), fun hs => ih none (hp.2.2 hs)⟩
  | exec c k ih => exact ⟨hp.1, fun r => ih r (hp.2 r)⟩

/-- What is owed is closed by the command that comes next. -/
theorem Settles.head {p : Prog E α} {x : K} (hp : p.Settles opens closes sure (some x)) :
    ∃ c, p.head = some c ∧ closes x c := by
  cases p with
  | ret a => cases hp
  | call c k => exact ⟨c, rfl, hp.1 x rfl⟩
  | exec c k => exact ⟨c, rfl, hp.1 x rfl⟩

theorem Settles.next {h : (c : E.Cmd) → S → E.Reply c × S} {p q : Prog E α} {s s' : S}
    (hp : p.Settles opens closes sure owed) (hn : p.next h s = some (q, s')) :
    ∃ c, q.Settles opens closes sure (opens c) ∧ (∀ x, owed = some x → closes x c) ∧ s' = (h c s).2 := by
  cases p with
  | ret a => cases hn
  | call c k =>
    obtain ⟨rfl, rfl⟩ := Prod.mk.inj (Option.some.inj hn)
    exact ⟨c, hp.2.1 _, hp.1, rfl⟩
  | exec c k =>
    obtain ⟨rfl, rfl⟩ := Prod.mk.inj (Option.some.inj hn)
    exact ⟨c, hp.2 _, hp.1, rfl⟩

theorem Settles.fail {p q : Prog E α} (hp : p.Settles opens closes sure owed) (hn : p.fail = some q)
    (hs : ∀ c, p.head = some c → ¬ sure c) : q.Settles opens closes sure owed := by
  cases p with
  | call c k =>
    obtain rfl := Option.some.inj hn
    exact hp.2.2 (hs c rfl)
  | _ => cases hn

end Settles

end Prog

namespace Conf

variable {E : Iface} {S Env ι α K : Type} [DecidableEq ι] {M : Machine E S Env}

variable (M) in
/-- A command that satisfies `D` has failed. -/
def HasFailed (D : E.Cmd → Prop) (c : Conf E S ι α) (es : List (Ev ι Env)) : Prop :=
  ∃ past i rest m cmd, es = past ++ .fail i :: rest ∧ c.exec M past = some m ∧ (m.thr i).head = some cmd ∧ D cmd

/-- The event is the failure of a command with `d`. -/
def failsAt (d : E.Cmd → Bool) (c : Conf E S ι α) : Ev ι Env → Bool
  | .fail i => (c.thr i).head.any d
  | _ => false

variable (M) in
/-- `HasFailed`, computed. -/
def everFailed (d : E.Cmd → Bool) : Conf E S ι α → List (Ev ι Env) → Bool
  | _, [] => false
  | c, e :: es => failsAt d c e || (c.step M e).any fun c' => everFailed d c' es

/-- Where the computation finds nothing, no such command has failed. -/
theorem not_hasFailed {D : E.Cmd → Prop} {d : E.Cmd → Bool} (hd : ∀ cmd, D cmd → d cmd = true) {c : Conf E S ι α}
    {es : List (Ev ι Env)} (h : everFailed M d c es = false) : ¬ HasFailed M D c es := by
  induction es generalizing c with
  | nil =>
    rintro ⟨past, i, rest, m, cmd, he, -⟩
    simp at he
  | cons e es ih =>
    rw [everFailed, Bool.or_eq_false_iff] at h
    rintro ⟨_ | ⟨e', past⟩, i, rest, m, cmd, he, hm, hcmd, hD⟩
    · obtain ⟨rfl, -⟩ := List.cons.inj he
      obtain rfl := Option.some.inj hm
      simp [failsAt, hcmd, hd cmd hD] at h
    · obtain ⟨rfl, rfl⟩ := List.cons.inj he
      obtain ⟨c', hc', hpast⟩ := exec_cons_eq_some.1 hm
      exact ih (by simpa [hc'] using h.2) ⟨past, i, rest, m, cmd, rfl, hpast, hcmd, hD⟩

/-- Every open place is owed by a thread. -/
def Owed (opens : E.Cmd → Option K) (closes : K → E.Cmd → Prop) (sure : E.Cmd → Prop) (Open : K → S → Prop)
    (c : Conf E S ι α) : Prop :=
  ∃ owed : ι → Option K, (∀ i, (c.thr i).Settles opens closes sure (owed i)) ∧
    ∀ x, Open x c.st → ∃ i, owed i = some x

section Owed

variable {opens : E.Cmd → Option K} {closes : K → E.Cmd → Prop} {sure : E.Cmd → Prop} {Open : K → S → Prop}
  {c c' c₀ : Conf E S ι α} {es : List (Ev ι Env)}

/-- A served command opens at most its own place, and closes what its thread has owed. -/
theorem Owed.run {i : ι}
    (hopen : ∀ cmd s x, Open x (M.handle cmd s).2 → opens cmd = some x ∨ (Open x s ∧ ¬ closes x cmd))
    (h : c.Owed opens closes sure Open) (hs : c.step M (.run i) = some c') : c'.Owed opens closes sure Open := by
  obtain ⟨owed, hthr, hst⟩ := h
  obtain ⟨q, s', hq, rfl⟩ := step_run.1 hs
  obtain ⟨cmd, hsettles, hcloses, rfl⟩ := (hthr i).next hq
  refine ⟨Function.update owed i (opens cmd), fun j => ?_, fun x hx => ?_⟩
  · by_cases hj : j = i
    · subst hj
      simpa using hsettles
    · simpa [Function.update_of_ne hj] using hthr j
  · rcases hopen cmd c.st x hx with ho | ⟨ho, hnot⟩
    · exact ⟨i, by rw [Function.update_self, ho]⟩
    · obtain ⟨j, hj⟩ := hst x ho
      have hne : j ≠ i := fun e => hnot (hcloses x (e ▸ hj))
      exact ⟨j, by rw [Function.update_of_ne hne, hj]⟩

/-- A failed command leaves its thread with its debt. -/
theorem Owed.fail {i : ι} (hsure : ∀ cmd, (c.thr i).head = some cmd → ¬ sure cmd)
    (h : c.Owed opens closes sure Open) (hs : c.step M (.fail i) = some c') : c'.Owed opens closes sure Open := by
  obtain ⟨owed, hthr, hst⟩ := h
  obtain ⟨q, hq, rfl⟩ := Option.map_eq_some_iff.1 hs
  refine ⟨owed, fun j => ?_, hst⟩
  by_cases hj : j = i
  · subst hj
    simpa using (hthr j).fail hq hsure
  · simpa [Function.update_of_ne hj] using hthr j

/-- **Debts in every interleaving.**  Each open place is the next one that some thread closes. -/
theorem exec_owed (hopen : ∀ cmd s x, Open x (M.handle cmd s).2 → opens cmd = some x ∨ (Open x s ∧ ¬ closes x cmd))
    (henv : ∀ e s x, Open x (M.env e s) → Open x s) (hthr : ∀ i, (c₀.thr i).Settles opens closes sure none)
    (hst : ∀ x, ¬ Open x c₀.st) (hsure : ¬ HasFailed M sure c₀ es) (hrun : c₀.exec M es = some c) {x : K}
    (hx : Open x c.st) : ∃ i cmd, (c.thr i).head = some cmd ∧ closes x cmd := by
  have howed : c.Owed opens closes sure Open := by
    refine exec_induction (fun _ c => c.Owed opens closes sure Open) ?_ ?_ hrun
    · exact ⟨fun _ => none, hthr, fun x hx => absurd hx (hst x)⟩
    intro past e m m' hpre hpast hI hs
    cases e with
    | run i => exact hI.run hopen hs
    | fail i =>
      refine hI.fail (fun cmd hcmd hD => hsure ?_) hs
      obtain ⟨rest, hrest⟩ := hpre
      exact ⟨past, i, rest, m, cmd, by simpa using hrest.symm, hpast, hcmd, hD⟩
    | env x =>
      obtain rfl := Option.some.inj hs
      obtain ⟨owed, hthr, hst⟩ := hI
      exact ⟨owed, hthr, fun y hy => hst y (henv x m.st y hy)⟩
  obtain ⟨owed, hsettles, hcover⟩ := howed
  obtain ⟨i, hi⟩ := hcover x hx
  have hthread : (c.thr i).Settles opens closes sure (some x) := hi ▸ hsettles i
  obtain ⟨cmd, hcmd, hcloses⟩ := hthread.head
  exact ⟨i, cmd, hcmd, hcloses⟩

end Owed

end Conf

end StreamGate.Lib
