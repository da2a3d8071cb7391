import Mathlib.Data.Set.BooleanAlgebra
import Mathlib.Order.CompletePartialOrder
import StreamGate.Lib.Knowledge

/-!
# What one thread has seen

A thread knows of the shared state what its own commands have told it, each in the state in which it was served.  A
program that tracks this knowledge, whatever it is told, keeps to it in every interleaving (`exec_seen`).  A program
that has sent a command after which it returns only certain results returns one of them (`leaves_of_wasServed`).
-/

namespace StreamGate.Lib

variable {E : Iface} {S Env ι α β : Type}

/-- A reply that was given to the command in a state that was seen. -/
def Heard (M : Machine E S Env) (x : Set (E.Cmd × S)) (cmd : E.Cmd) (r : E.Reply cmd) : Prop :=
  ∃ s, (cmd, s) ∈ x ∧ (M.handle cmd s).1 = r

/-! ### Commands that settle the result -/

namespace Prog

/-- Once a command that satisfies `D` was served, the results satisfy `P`. -/
def Seals (D : E.Cmd → Prop) (P : α → Prop) : Prog E α → Prop
  | ret _ => True
  | call c k => (∀ r, D c → (k (some r)).Leaves P) ∧ ∀ r, (k r).Seals D P
  | exec c k => ∀ r, (D c → (k r).Leaves P) ∧ (k r).Seals D P

variable {D : E.Cmd → Prop} {P : β → Prop}

/-- A first part without such a command. -/
theorem Seals.bind {p : Prog E α} {f : α → Prog E β} (hp : p.Only fun c => ¬ D c) (hf : ∀ a, (f a).Seals D P) :
    (p >>= f).Seals D P := by
  induction p with
  | ret a => exact hf a
  | call c k ih =>
    refine ⟨fun r hc => absurd hc hp.1, fun r => ?_⟩
    cases r with
    | none => exact ih none hp.2.2
    | some r => exact ih _ (hp.2.1 r trivial)
  | exec c k ih => exact fun r => ⟨fun hc => absurd hc hp.1, ih r (hp.2 r trivial)⟩

/-- A last part without such a command, which takes the results along. -/
theorem Seals.bind_only {P' : α → Prop} {p : Prog E α} {f : α → Prog E β} (hp : p.Seals D P')
    (hf : ∀ a, (f a).Seals D P) (hleaves : ∀ a, P' a → (f a).Leaves P) : (p >>= f).Seals D P := by
  induction p with
  | ret a => exact hf a
  | call c k ih => exact ⟨fun r hc => (hp.1 r hc).bind hleaves, fun r => ih r (hp.2 r)⟩
  | exec c k ih => exact fun r => ⟨fun hc => ((hp r).1 hc).bind hleaves, ih r (hp r).2⟩

theorem Seals.next {S : Type} {P : α → Prop} {h : (c : E.Cmd) → S → E.Reply c × S} {p q : Prog E α} {s s' : S}
    (hp : p.Seals D P) (hn : p.next h s = some (q, s')) :
    q.Seals D P ∧ ∀ c, p.head = some c → D c → q.Leaves P := by
  cases p with
  | ret a => cases hn
  | call c k =>
    obtain ⟨rfl, -⟩ := Prod.mk.inj (Option.some.inj hn)
    exact ⟨hp.2 _, fun c' hc => by obtain rfl := Option.some.inj hc; exact hp.1 _⟩
  | exec c k =>
    obtain ⟨rfl, -⟩ := Prod.mk.inj (Option.some.inj hn)
    exact ⟨(hp _).2, fun c' hc => by obtain rfl := Option.some.inj hc; exact (hp _).1⟩

theorem Seals.fail {P : α → Prop} {p q : Prog E α} (hp : p.Seals D P) (hf : p.fail = some q) : q.Seals D P := by
  cases p with
  | call c k =>
    obtain rfl := Option.some.inj hf
    exact hp.2 none
  | _ => cases hf

end Prog

/-! ### Threads -/

namespace Conf

variable [DecidableEq ι] {M : Machine E S Env} {c₀ c : Conf E S ι α} {es : List (Ev ι Env)} {i : ι}

variable (M) in
/-- The commands that were served to the thread `i`, each with the state in which it was. -/
def Seen (c₀ : Conf E S ι α) (i : ι) (es : List (Ev ι Env)) : Set (E.Cmd × S) :=
  {x | ∃ past rest m, es = past ++ .run i :: rest ∧ c₀.exec M past = some m ∧ (m.thr i).head = some x.1 ∧ m.st = x.2}

theorem seen_nil (c₀ : Conf E S ι α) (i : ι) : Seen M c₀ i [] = ∅ := by
  refine Set.eq_empty_of_forall_notMem ?_
  rintro x ⟨past, rest, m, he, -⟩
  exact absurd he.symm (by simp)

theorem seen_mono (c₀ : Conf E S ι α) (i : ι) (es : List (Ev ι Env)) (e : Ev ι Env) :
    Seen M c₀ i es ⊆ Seen M c₀ i (es ++ [e]) := by
  rintro x ⟨past, rest, m, rfl, hm, hx⟩
  exact ⟨past, rest ++ [e], m, by simp, hm, hx⟩

/-- **A thread keeps to what it has seen.** -/
theorem exec_seen {G : Set (E.Cmd × S) → E.Cmd → Prop} {Q : Set (E.Cmd × S) → α → Prop}
    (h0 : (c₀.thr i).Tracks (Heard M) G Q ∅) (hrun : c₀.exec M es = some c) :
    (c.thr i).Tracks (Heard M) G Q (Seen M c₀ i es) := by
  refine exec_induction (fun past c => (c.thr i).Tracks (Heard M) G Q (Seen M c₀ i past)) ?_ ?_ hrun
  · rwa [seen_nil]
  rintro past e m m' - hpast hm hs
  have hle := seen_mono (M := M) c₀ i past e
  by_cases he : EventOf i e
  · rcases he with rfl | rfl
    · obtain ⟨q, s', hq, rfl⟩ := step_run.1 hs
      dsimp only
      rw [Function.update_self]
      -- the command is seen by the time its reply comes
      have hnew : ∀ cmd, (m.thr i).head = some cmd → (cmd, m.st) ∈ Seen M c₀ i (past ++ [.run i]) := fun cmd hcmd =>
        ⟨past, [], m, rfl, hpast, hcmd, rfl⟩
      cases hp : m.thr i with
      | ret a =>
        rw [hp] at hq
        cases hq
      | call cmd k =>
        rw [hp] at hq hm hnew
        obtain ⟨rfl, rfl⟩ := Prod.mk.inj (Option.some.inj hq)
        exact (hm _ hle).2.1 _ ⟨m.st, hnew cmd rfl, rfl⟩
      | exec cmd k =>
        rw [hp] at hq hm hnew
        obtain ⟨rfl, rfl⟩ := Prod.mk.inj (Option.some.inj hq)
        exact (hm _ hle).2 _ ⟨m.st, hnew cmd rfl, rfl⟩
    · obtain ⟨q, hq, rfl⟩ := Option.map_eq_some_iff.1 hs
      dsimp only
      rw [Function.update_self]
      cases hp : m.thr i with
      | call cmd k =>
        rw [hp] at hq hm
        obtain rfl := Option.some.inj hq
        exact (hm _ hle).2.2
      | _ =>
        rw [hp] at hq
        cases hq
  · rw [step_not_eventOf he hs]
    exact hm.mono hle

/-- Every command of the thread is one that what it has seen permits. -/
theorem exec_seen_head {G : Set (E.Cmd × S) → E.Cmd → Prop} {Q : Set (E.Cmd × S) → α → Prop}
    (h0 : (c₀.thr i).Tracks (Heard M) G Q ∅) (hrun : c₀.exec M es = some c) {cmd : E.Cmd}
    (hcmd : (c.thr i).head = some cmd) : G (Seen M c₀ i es) cmd := by
  have h := exec_seen h0 hrun
  cases hp : c.thr i with
  | ret a =>
    rw [hp] at hcmd
    cases hcmd
  | call cmd' k =>
    rw [hp] at hcmd h
    obtain rfl := Option.some.inj hcmd
    exact (h _ le_rfl).1
  | exec cmd' k =>
    rw [hp] at hcmd h
    obtain rfl := Option.some.inj hcmd
    exact (h _ le_rfl).1

/-- A command that settles the result. -/
theorem leaves_of_wasServed {D : E.Cmd → Prop} {P : α → Prop} (h : (c₀.thr i).Seals D P)
    (hserved : WasServed M D c₀ i es) (hrun : c₀.exec M es = some c) : (c.thr i).Leaves P := by
  obtain ⟨past, rest, m, cmd, rfl, hm, hcmd, hD⟩ := hserved
  obtain ⟨m', hm', hrest⟩ := exec_append_eq_some.1 hrun
  obtain rfl := Option.some.inj (hm.symm.trans hm')
  obtain ⟨m₁, hs, hrest⟩ := exec_cons_eq_some.1 hrest
  obtain ⟨q, s', hq, rfl⟩ := step_run.1 hs
  have hseals : (m.thr i).Seals D P := exec_thr (P := fun p => p.Seals D P) (fun _ _ _ _ hp hn => (hp.next hn).1)
    (fun _ _ hp hf => hp.fail hf) h hm
  refine exec_thr (P := fun p => p.Leaves P) (fun _ _ _ _ hp hn => hp.next hn) (fun _ _ hp hf => hp.fail hf) ?_ hrest
  dsimp only
  rw [Function.update_self]
  exact (hseals.next hq).2 cmd hcmd hD

/-! ### The commands that were served -/

/-- The command that an event serves. -/
def logged (c : Conf E S ι α) : Ev ι Env → List E.Cmd
  | .run i => (c.thr i).head.toList
  | _ => []

variable (M) in
/-- The commands that a schedule serves, of all threads and in their order. -/
def log (c : Conf E S ι α) : List (Ev ι Env) → List E.Cmd
  | [] => []
  | e :: es => c.logged e ++ ((c.step M e).map fun c' => log c' es).getD []

theorem log_concat (hrun : c₀.exec M es = some c) (e : Ev ι Env) :
    log M c₀ (es ++ [e]) = log M c₀ es ++ c.logged e := by
  induction es generalizing c₀ with
  | nil =>
    obtain rfl := Option.some.inj hrun
    cases hs : c₀.step M e <;> simp [log, hs]
  | cons e' es ih =>
    obtain ⟨m, hm, hrun⟩ := exec_cons_eq_some.1 hrun
    rw [List.cons_append, log, log, hm, Option.map_some, Option.map_some, Option.getD_some, Option.getD_some, ih hrun,
      List.append_assoc]

end Conf

end StreamGate.Lib
