import StreamGate.Lib.Prog
import Mathlib.Data.Nat.Notation

/-!
# Interleaved programs

Any number of programs over one shared state.  A schedule says, event by event, whose command is
served next, whose command fails, and what the surroundings do to the state in between.  A
property of every interleaving is a property of every schedule: `exec_induction` is the rule for
invariants that may look at the schedule so far.
-/

namespace StreamGate.Lib

/-- How a shared state answers commands, and what can happen to it by itself. -/
structure Machine (E : Iface) (S Env : Type) where
  handle : (c : E.Cmd) → S → E.Reply c × S
  env : Env → S → S

/-- One event of a schedule: the next command of `i` is served, or fails, or the surroundings
act. -/
inductive Ev (ι Env : Type) where
  | run (i : ι)
  | fail (i : ι)
  | env (e : Env)
  deriving DecidableEq

/-- No command of the schedule fails. -/
def NoErrors {ι Env : Type} (es : List (Ev ι Env)) : Prop := ∀ i, Ev.fail i ∉ es

section Served

variable {ι Env : Type} [DecidableEq ι] [DecidableEq Env]

/-- How many commands of `i` a schedule serves. -/
def served (i : ι) (es : List (Ev ι Env)) : ℕ := es.count (Ev.run i)

@[simp] theorem served_nil (i : ι) : served i ([] : List (Ev ι Env)) = 0 := rfl

@[simp] theorem served_append_run (es : List (Ev ι Env)) (i j : ι) :
    served j (es ++ [Ev.run i]) = served j es + if i = j then 1 else 0 := by
  rw [served, List.count_append, List.count_singleton]
  by_cases h : i = j <;> simp [served, h]

@[simp] theorem served_append_env (es : List (Ev ι Env)) (i : ι) (e : Env) :
    served i (es ++ [Ev.env e]) = served i es := by
  rw [served, List.count_append, List.count_singleton]
  simp [served]

end Served

/-- The shared state and what is left of every program. -/
structure Conf (E : Iface) (S ι α : Type) where
  st : S
  thr : ι → Prog E α

namespace Conf

variable {E : Iface} {S Env ι α : Type} [DecidableEq ι] (M : Machine E S Env)

/-- One event.  A program that has returned takes no further event. -/
def step (c : Conf E S ι α) : Ev ι Env → Option (Conf E S ι α)
  | .run i => ((c.thr i).next M.handle c.st).map fun q => ⟨q.2, Function.update c.thr i q.1⟩
  | .fail i => (c.thr i).fail.map fun q => ⟨c.st, Function.update c.thr i q⟩
  | .env e => some ⟨M.env e c.st, c.thr⟩

/-- A whole schedule. -/
def exec (c : Conf E S ι α) : List (Ev ι Env) → Option (Conf E S ι α)
  | [] => some c
  | e :: es => (c.step M e).bind fun c' => exec c' es

variable {M}

@[simp] theorem exec_nil (c : Conf E S ι α) : c.exec M [] = some c := rfl

theorem exec_cons (c : Conf E S ι α) (e : Ev ι Env) (es : List (Ev ι Env)) :
    c.exec M (e :: es) = (c.step M e).bind fun c' => c'.exec M es := rfl

theorem exec_append (c : Conf E S ι α) (es fs : List (Ev ι Env)) :
    c.exec M (es ++ fs) = (c.exec M es).bind fun c' => c'.exec M fs := by
  induction es generalizing c with
  | nil => rfl
  | cons e es ih =>
    rw [List.cons_append, exec_cons, exec_cons, Option.bind_assoc]
    exact congrArg _ (funext fun c' => ih c')

theorem exec_append_eq_some {c d : Conf E S ι α} {es fs : List (Ev ι Env)} :
    c.exec M (es ++ fs) = some d ↔ ∃ m, c.exec M es = some m ∧ m.exec M fs = some d := by
  rw [exec_append, Option.bind_eq_some_iff]

theorem exec_cons_eq_some {c d : Conf E S ι α} {e : Ev ι Env} {es : List (Ev ι Env)} :
    c.exec M (e :: es) = some d ↔ ∃ m, c.step M e = some m ∧ m.exec M es = some d := by
  rw [exec_cons, Option.bind_eq_some_iff]

/-- A served command: whose it is, and what it does to the state and to its program. -/
theorem step_run {c d : Conf E S ι α} {i : ι} :
    c.step M (.run i) = some d ↔
      ∃ q s', (c.thr i).next M.handle c.st = some (q, s') ∧ d = ⟨s', Function.update c.thr i q⟩ := by
  simp only [step, Option.map_eq_some_iff, Prod.exists]
  exact ⟨fun ⟨q, s', h, e⟩ => ⟨q, s', h, e.symm⟩, fun ⟨q, s', h, e⟩ => ⟨q, s', h, e.symm⟩⟩

@[simp] theorem step_env {c : Conf E S ι α} {e : Env} :
    c.step M (.env e) = some ⟨M.env e c.st, c.thr⟩ := rfl

/-- **Invariants of interleavings.**  `P past c` may speak of the events so far, and `c` is where
they lead.  If it holds at the start and every event of the schedule keeps it, it holds at the
end. -/
theorem exec_induction {c₀ c : Conf E S ι α} {es : List (Ev ι Env)}
    (P : List (Ev ι Env) → Conf E S ι α → Prop) (h0 : P [] c₀)
    (hstep : ∀ past e c c', past ++ [e] <+: es → c₀.exec M past = some c → P past c →
      c.step M e = some c' → P (past ++ [e]) c')
    (hrun : c₀.exec M es = some c) : P es c := by
  suffices ∀ (fs past : List (Ev ι Env)) (d : Conf E S ι α), past ++ fs = es →
      c₀.exec M past = some d → P past d → d.exec M fs = some c → P es c from
    this es [] c₀ rfl rfl h0 hrun
  intro fs
  induction fs with
  | nil =>
    intro past d he _ hP hd
    obtain rfl : d = c := by simpa using hd
    simpa [← he] using hP
  | cons e fs ih =>
    intro past d he hpast hP hd
    obtain ⟨m, hm, hd'⟩ := exec_cons_eq_some.1 hd
    refine ih (past ++ [e]) m (by simpa using he) ?_ (hstep past e d m ?_ hpast hP hm) hd'
    · exact exec_append_eq_some.2 ⟨d, hpast, by rw [exec_cons, hm]; rfl⟩
    · exact ⟨fs, by simpa using he⟩

/-- An invariant that does not look at the schedule. -/
theorem exec_invariant {c₀ c : Conf E S ι α} {es : List (Ev ι Env)} (P : Conf E S ι α → Prop)
    (h0 : P c₀) (hstep : ∀ e ∈ es, ∀ c c', P c → c.step M e = some c' → P c')
    (hrun : c₀.exec M es = some c) : P c := by
  refine exec_induction (fun _ => P) h0 ?_ hrun
  intro past e c c' hpre _ hP hs
  exact hstep e (hpre.subset (by simp)) c c' hP hs

/-- A thread that runs alone, to its end. -/
theorem exec_alone (c : Conf E S ι α) (i : ι) :
    ∃ n fin, c.exec M (List.replicate n (.run i)) = some fin ∧ fin.st = ((c.thr i).run M.handle c.st).2 := by
  obtain ⟨s, thr⟩ := c
  show ∃ n fin, exec M ⟨s, thr⟩ (List.replicate n (.run i)) = some fin ∧ fin.st = ((thr i).run M.handle s).2
  generalize hp : thr i = p
  induction p generalizing s thr with
  | ret a => exact ⟨0, _, rfl, rfl⟩
  | call cmd k ih =>
    obtain ⟨n, fin, hrun, hst⟩ := ih _ (M.handle cmd s).2 (Function.update thr i (k (some (M.handle cmd s).1)))
      (Function.update_self ..)
    refine ⟨n + 1, fin, ?_, hst⟩
    rw [List.replicate_succ, exec_cons, step]
    simp only [hp, Prog.next_call, Option.map_some, Option.bind_some]
    exact hrun
  | exec cmd k ih =>
    obtain ⟨n, fin, hrun, hst⟩ := ih _ (M.handle cmd s).2 (Function.update thr i (k (M.handle cmd s).1))
      (Function.update_self ..)
    refine ⟨n + 1, fin, ?_, hst⟩
    rw [List.replicate_succ, exec_cons, step]
    simp only [hp, Prog.next_exec, Option.map_some, Option.bind_some]
    exact hrun

/-- What an event is: a served command, a command that fails, or the surroundings. -/
theorem step_cases {c c' : Conf E S ι α} {e : Ev ι Env} (hs : c.step M e = some c') :
    (∃ i cmd, e = .run i ∧ (c.thr i).head = some cmd ∧ c'.st = (M.handle cmd c.st).2) ∨
      (∃ i, e = .fail i ∧ c'.st = c.st) ∨ ∃ x, e = .env x ∧ c'.st = M.env x c.st := by
  cases e with
  | run i =>
    obtain ⟨q, s', hq, rfl⟩ := step_run.1 hs
    obtain ⟨cmd, hcmd, rfl⟩ := Prog.next_head hq
    exact .inl ⟨i, cmd, rfl, hcmd, rfl⟩
  | fail i =>
    obtain ⟨q, -, rfl⟩ := Option.map_eq_some_iff.1 hs
    exact .inr (.inl ⟨i, rfl, rfl⟩)
  | env x =>
    obtain rfl := Option.some.inj hs
    exact .inr (.inr ⟨x, rfl, rfl⟩)

/-! ### What a thread has sent -/

/-- An event of the thread `i`. -/
def EventOf (i : ι) (e : Ev ι Env) : Prop := e = .run i ∨ e = .fail i

/-- A thread takes part in a schedule. -/
def TakesPart (j : ι) (es : List (Ev ι Env)) : Prop := ∃ e ∈ es, EventOf j e

variable (M) in
/-- The thread `i` has sent a command that satisfies `D`. -/
def Sent (D : E.Cmd → Prop) (c : Conf E S ι α) (i : ι) (es : List (Ev ι Env)) : Prop :=
  ∃ past e rest m cmd, es = past ++ e :: rest ∧ EventOf i e ∧ c.exec M past = some m ∧
    (m.thr i).head = some cmd ∧ D cmd

variable (M) in
/-- Every command that the thread `i` has sent satisfies `D`. -/
def OnlySent (D : E.Cmd → Prop) (c : Conf E S ι α) (i : ι) (es : List (Ev ι Env)) : Prop :=
  ∀ past e m, past ++ [e] <+: es → EventOf i e → c.exec M past = some m →
    ∃ cmd, (m.thr i).head = some cmd ∧ D cmd

/-- An event of the thread `i` is its next command, served or failed. -/
theorem step_eventOf {c c' : Conf E S ι α} {i : ι} {e : Ev ι Env} (he : EventOf i e)
    (hs : c.step M e = some c') :
    (∃ s', (c.thr i).next M.handle c.st = some (c'.thr i, s')) ∨ (c.thr i).fail = some (c'.thr i) := by
  rcases he with rfl | rfl
  · obtain ⟨q, s', hq, rfl⟩ := step_run.1 hs
    exact .inl ⟨s', by simpa using hq⟩
  · obtain ⟨q, hq, rfl⟩ := Option.map_eq_some_iff.1 hs
    exact .inr (by simpa using hq)

/-- Every other event leaves the thread where it is. -/
theorem step_not_eventOf {c c' : Conf E S ι α} {i : ι} {e : Ev ι Env} (he : ¬ EventOf i e)
    (hs : c.step M e = some c') : c'.thr i = c.thr i := by
  cases e with
  | run j =>
    obtain ⟨q, s', -, rfl⟩ := step_run.1 hs
    have hij : i ≠ j := fun e => he (.inl (e ▸ rfl))
    exact Function.update_of_ne hij _ _
  | fail j =>
    obtain ⟨q, -, rfl⟩ := Option.map_eq_some_iff.1 hs
    have hij : i ≠ j := fun e => he (.inr (e ▸ rfl))
    exact Function.update_of_ne hij _ _
  | env x =>
    obtain rfl := Option.some.inj hs
    rfl

/-- A thread that has returned takes no further event. -/
theorem step_ret {c c' : Conf E S ι α} {i : ι} {a : α} (hi : c.thr i = .ret a) {e : Ev ι Env} (he : EventOf i e) :
    c.step M e ≠ some c' := by
  rcases he with rfl | rfl <;> simp [step, hi, Prog.fail]

/-- What the next command of a thread keeps, served here or failed, every event keeps. -/
theorem step_thr {c c' : Conf E S ι α} {i : ι} {e : Ev ι Env} {P : Prog E α → Prop}
    (hnext : ∀ q s', (c.thr i).next M.handle c.st = some (q, s') → P q) (hfail : ∀ q, (c.thr i).fail = some q → P q)
    (hP : P (c.thr i)) (hs : c.step M e = some c') : P (c'.thr i) := by
  by_cases he : EventOf i e
  · rcases step_eventOf he hs with ⟨s', hn⟩ | hf
    · exact hnext _ _ hn
    · exact hfail _ hf
  · rw [step_not_eventOf he hs]
    exact hP

theorem step_obeys {V : (c : E.Cmd) → E.Reply c → Prop} {G : E.Cmd → Prop} {c c' : Conf E S ι α} {i : ι} {e : Ev ι Env}
    (hV : ∀ cmd, V cmd (M.handle cmd c.st).1) (h : (c.thr i).Obeys V G) (hs : c.step M e = some c') :
    (c'.thr i).Obeys V G :=
  step_thr (fun _ _ hn => (h.next hV hn).1) (fun _ hf => h.fail hf) h hs

/-- What one thread keeps in its own commands, served or failed, it keeps in every schedule. -/
theorem exec_thr {c₀ c : Conf E S ι α} {es : List (Ev ι Env)} {i : ι} {P : Prog E α → Prop}
    (hnext : ∀ p q s s', P p → p.next M.handle s = some (q, s') → P q)
    (hfail : ∀ p q, P p → p.fail = some q → P q) (h0 : P (c₀.thr i)) (hrun : c₀.exec M es = some c) :
    P (c.thr i) := by
  refine exec_invariant (fun c => P (c.thr i)) h0 ?_ hrun
  intro e _ c c' hP hs
  exact step_thr (fun _ _ hn => hnext _ _ _ _ hP hn) (fun _ hf => hfail _ _ hP hf) hP hs

theorem exec_only {c₀ c : Conf E S ι α} {es : List (Ev ι Env)} {i : ι} {G : E.Cmd → Prop} (h : (c₀.thr i).Only G)
    (hrun : c₀.exec M es = some c) : (c.thr i).Only G :=
  exec_thr (fun _ _ _ _ h hn => (h.next (fun _ => trivial) hn).1) (fun _ _ h hf => h.fail hf) h hrun

theorem exec_after {c₀ c : Conf E S ι α} {es : List (Ev ι Env)} {i : ι} {D Q : E.Cmd → Prop} (h : (c₀.thr i).After D Q)
    (hrun : c₀.exec M es = some c) : (c.thr i).After D Q :=
  exec_thr (fun _ _ _ _ h hn => (h.next hn).1) (fun _ _ h hf => (h.fail hf).1) h hrun

variable (M) in
/-- A command that satisfies `D` was served to the thread `i`. -/
def WasServed (D : E.Cmd → Prop) (c : Conf E S ι α) (i : ι) (es : List (Ev ι Env)) : Prop :=
  ∃ past rest m cmd, es = past ++ .run i :: rest ∧ c.exec M past = some m ∧ (m.thr i).head = some cmd ∧ D cmd

variable (M) in
/-- A command of the kind `D` was served to `i`, and later one of the kind `D'` to `j`. -/
def Precedes (D : E.Cmd → Prop) (i : ι) (D' : E.Cmd → Prop) (j : ι) (c : Conf E S ι α) (es : List (Ev ι Env)) : Prop :=
  ∃ past rest, es = past ++ rest ∧ WasServed M D c i past ∧
    ∃ m, c.exec M past = some m ∧ WasServed M D' m j rest

theorem WasServed.sent {D : E.Cmd → Prop} {c : Conf E S ι α} {i : ι} {es : List (Ev ι Env)} (h : WasServed M D c i es) :
    Sent M D c i es := by
  obtain ⟨past, rest, m, cmd, he, hm, hcmd, hD⟩ := h
  exact ⟨past, .run i, rest, m, cmd, he, .inl rfl, hm, hcmd, hD⟩

theorem WasServed.append {D : E.Cmd → Prop} {c : Conf E S ι α} {i : ι} {es : List (Ev ι Env)} (h : WasServed M D c i es)
    (fs : List (Ev ι Env)) : WasServed M D c i (es ++ fs) := by
  obtain ⟨past, rest, m, cmd, rfl, hm, hcmd, hD⟩ := h
  exact ⟨past, rest ++ fs, m, cmd, by simp, hm, hcmd, hD⟩

theorem WasServed.prepend {D : E.Cmd → Prop} {c m : Conf E S ι α} {i : ι} {es fs : List (Ev ι Env)}
    (hm : c.exec M es = some m) (h : WasServed M D m i fs) : WasServed M D c i (es ++ fs) := by
  obtain ⟨past, rest, n, cmd, rfl, hn, hcmd, hD⟩ := h
  exact ⟨es ++ past, rest, n, cmd, by simp, exec_append_eq_some.2 ⟨m, hm, hn⟩, hcmd, hD⟩

theorem exec_snoc {c m d : Conf E S ι α} {es : List (Ev ι Env)} {e : Ev ι Env} (hm : c.exec M es = some m)
    (hs : m.step M e = some d) : c.exec M (es ++ [e]) = some d := by
  rw [exec_append, hm]
  exact exec_cons_eq_some.2 ⟨d, hs, rfl⟩

theorem Sent.append {D : E.Cmd → Prop} {c : Conf E S ι α} {i : ι} {es : List (Ev ι Env)} (h : Sent M D c i es)
    (fs : List (Ev ι Env)) : Sent M D c i (es ++ fs) := by
  obtain ⟨past, e, rest, m, cmd, rfl, he, hm, hcmd, hD⟩ := h
  exact ⟨past, e, rest ++ fs, m, cmd, by simp, he, hm, hcmd, hD⟩

/-- A command that was served in a schedule was served in its first part or in its second. -/
theorem wasServed_append {D : E.Cmd → Prop} {c m : Conf E S ι α} {i : ι} {es fs : List (Ev ι Env)}
    (hm : c.exec M es = some m) (h : WasServed M D c i (es ++ fs)) : WasServed M D c i es ∨ WasServed M D m i fs := by
  obtain ⟨past, rest, n, cmd, he, hn, hcmd, hD⟩ := h
  rcases List.append_eq_append_iff.1 he with ⟨as, rfl, hfs⟩ | ⟨bs, hes, hrest⟩
  · obtain ⟨m', hm', has⟩ := exec_append_eq_some.1 hn
    obtain rfl := Option.some.inj (hm.symm.trans hm')
    exact .inr ⟨as, rest, n, cmd, hfs, has, hcmd, hD⟩
  · cases bs with
    | nil =>
      rw [List.append_nil] at hes
      subst hes
      obtain rfl := Option.some.inj (hm.symm.trans hn)
      exact .inr ⟨[], rest, m, cmd, hrest.symm, rfl, hcmd, hD⟩
    | cons e bs =>
      obtain ⟨rfl, -⟩ := List.cons.inj hrest
      exact .inl ⟨past, bs, n, cmd, hes, hn, hcmd, hD⟩

/-- Right after the later command: the earlier one has been sent, and the later one has just been served. -/
theorem Precedes.after {D D' : E.Cmd → Prop} {c fin : Conf E S ι α} {i j : ι} {es : List (Ev ι Env)}
    (h : Precedes M D i D' j c es) (hrun : c.exec M es = some fin) :
    ∃ past rest m, es = past ++ rest ∧ c.exec M past = some m ∧ m.exec M rest = some fin ∧ Sent M D c i past ∧
      ∃ cmd s, D' cmd ∧ m.st = (M.handle cmd s).2 := by
  obtain ⟨p₁, q, rfl, hD, m, hm, p₂, p₃, m₁, cmd, rfl, hm₁, hcmd, hD'⟩ := h
  have hpast : c.exec M (p₁ ++ p₂) = some m₁ := exec_append_eq_some.2 ⟨m, hm, hm₁⟩
  rw [← List.append_assoc] at hrun
  obtain ⟨m', hm', hrest⟩ := exec_append_eq_some.1 hrun
  obtain rfl := Option.some.inj (hpast.symm.trans hm')
  obtain ⟨m₂, hstep, hrest⟩ := exec_cons_eq_some.1 hrest
  refine ⟨p₁ ++ p₂ ++ [.run j], p₃, m₂, by simp, exec_snoc hpast hstep, hrest, (hD.sent.append p₂).append _, cmd, m₁.st,
    hD', ?_⟩
  rcases step_cases hstep with ⟨_, cmd', ⟨⟩, hcmd', hst⟩ | ⟨_, ⟨⟩, _⟩ | ⟨_, ⟨⟩, _⟩
  obtain rfl := Option.some.inj (hcmd.symm.trans hcmd')
  exact hst

section Computed

variable [DecidableEq Env] {D D' : E.Cmd → Prop} {d d' : E.Cmd → Bool} {i j : ι}

variable (M) in
/-- `WasServed`, computed. -/
def everServed (d : E.Cmd → Bool) (i : ι) : Conf E S ι α → List (Ev ι Env) → Bool
  | _, [] => false
  | c, e :: es =>
    (decide (e = .run i) && (c.thr i).head.any d) || (c.step M e).any fun c' => everServed d i c' es

variable (M) in
/-- `Precedes`, computed. -/
def everPrecedes (d : E.Cmd → Bool) (i : ι) (d' : E.Cmd → Bool) (j : ι) : Conf E S ι α → List (Ev ι Env) → Bool
  | _, [] => false
  | c, e :: es =>
    ((decide (e = .run i) && (c.thr i).head.any d) && (c.step M e).any fun c' => everServed M d' j c' es) ||
      (c.step M e).any fun c' => everPrecedes d i d' j c' es

omit [DecidableEq Env] in
theorem wasServed_cons {c : Conf E S ι α} {e : Ev ι Env} {es : List (Ev ι Env)} : WasServed M D c i (e :: es) ↔
    (e = .run i ∧ ∃ cmd, (c.thr i).head = some cmd ∧ D cmd) ∨ ∃ c', c.step M e = some c' ∧ WasServed M D c' i es := by
  constructor
  · rintro ⟨_ | ⟨e', past⟩, rest, m, cmd, he, hm, hcmd, hD⟩
    · obtain rfl := Option.some.inj hm
      exact .inl ⟨(List.cons.inj he).1, cmd, hcmd, hD⟩
    · obtain ⟨rfl, rfl⟩ := List.cons.inj he
      obtain ⟨c', hc', hm⟩ := exec_cons_eq_some.1 hm
      exact .inr ⟨c', hc', past, rest, m, cmd, rfl, hm, hcmd, hD⟩
  · rintro (⟨rfl, cmd, hcmd, hD⟩ | ⟨c', hc', past, rest, m, cmd, rfl, hm, hcmd, hD⟩)
    · exact ⟨[], es, c, cmd, rfl, rfl, hcmd, hD⟩
    · exact ⟨e :: past, rest, m, cmd, rfl, exec_cons_eq_some.2 ⟨c', hc', hm⟩, hcmd, hD⟩

theorem everServed_iff (hd : ∀ cmd, d cmd = true ↔ D cmd) {c : Conf E S ι α} {es : List (Ev ι Env)} :
    everServed M d i c es = true ↔ WasServed M D c i es := by
  induction es generalizing c with
  | nil =>
    refine ⟨fun h => Bool.noConfusion h, ?_⟩
    rintro ⟨past, rest, m, cmd, he, -⟩
    simp at he
  | cons e es ih => simp [everServed, wasServed_cons, ih, hd, Option.any_eq_true]

/-- Where the computation finds nothing, the order does not occur. -/
theorem not_precedes (hd : ∀ cmd, d cmd = true ↔ D cmd) (hd' : ∀ cmd, d' cmd = true ↔ D' cmd) {c : Conf E S ι α}
    {es : List (Ev ι Env)} (h : everPrecedes M d i d' j c es = false) : ¬ Precedes M D i D' j c es := by
  induction es generalizing c with
  | nil =>
    rintro ⟨past, rest, he, ⟨p, q, m, cmd, rfl, -⟩, -⟩
    simp at he
  | cons e es ih =>
    simp only [everPrecedes, Bool.or_eq_false_iff, Bool.and_eq_false_imp] at h
    rintro ⟨_ | ⟨e', past⟩, rest, he, hserved, m, hm, hrest⟩
    · obtain ⟨p, q, _, _, he, -⟩ := hserved
      simp at he
    · obtain ⟨rfl, rfl⟩ := List.cons.inj he
      obtain ⟨c', hc', hpast⟩ := exec_cons_eq_some.1 hm
      have htail : ¬ Precedes M D i D' j c' (past ++ rest) := ih (by simpa [hc'] using h.2)
      rcases wasServed_cons.1 hserved with ⟨rfl, cmd, hcmd, hD⟩ | ⟨c'', hc'', hs⟩
      · have hnone := h.1 (by simp [hcmd, (hd cmd).2 hD])
        rw [hc', Option.any_some] at hnone
        have hsome : everServed M d' j c' (past ++ rest) = true := (everServed_iff hd').2 (hrest.prepend hpast)
        exact absurd (hnone.symm.trans hsome) Bool.false_ne_true
      · obtain rfl := Option.some.inj (hc'.symm.trans hc'')
        exact htail ⟨past, rest, rfl, hs, m, hpast, hrest⟩

end Computed

/-- Up to its first served command of the kind `D` a thread sends only what it may send before it. -/
theorem wasServed_or_until {c₀ c : Conf E S ι α} {es : List (Ev ι Env)} {i : ι} {D Q : E.Cmd → Prop}
    (h : (c₀.thr i).Until D Q) (hrun : c₀.exec M es = some c) : WasServed M D c₀ i es ∨ (c.thr i).Until D Q := by
  refine exec_induction (fun past c => WasServed M D c₀ i past ∨ (c.thr i).Until D Q) (.inr h) ?_ hrun
  rintro past e m m' - hpast hI hs
  rcases hI with ⟨p, rest, n, cmd, rfl, hn, hcmd, hD⟩ | hU
  · exact .inl ⟨p, rest ++ [e], n, cmd, by simp, hn, hcmd, hD⟩
  by_cases he : EventOf i e
  · rcases he with rfl | rfl
    · obtain ⟨q, s', hq, rfl⟩ := step_run.1 hs
      dsimp only
      rw [Function.update_self]
      exact (hU.next hq).imp_left fun ⟨cmd, hcmd, hD⟩ => ⟨past, [], m, cmd, rfl, hpast, hcmd, hD⟩
    · obtain ⟨q, hq, rfl⟩ := Option.map_eq_some_iff.1 hs
      dsimp only
      rw [Function.update_self]
      exact .inr (hU.fail hq)
  · rw [step_not_eventOf he hs]
    exact .inr hU

/-- **What a result has taken** was served on the way to it. -/
theorem wasServed_of_earns {c₀ c : Conf E S ι α} {es : List (Ev ι Env)} {i : ι} {D : E.Cmd → Prop} {P : α → Prop}
    (h : (c₀.thr i).Earns D P) (hrun : c₀.exec M es = some c) {a : α} (ha : (c.thr i).result = some a) (hP : P a) :
    WasServed M D c₀ i es := by
  have hinv : WasServed M D c₀ i es ∨ (c.thr i).Earns D P := by
    refine exec_induction (fun past c => WasServed M D c₀ i past ∨ (c.thr i).Earns D P) (.inr h) ?_ hrun
    rintro past e m m' - hpast hI hs
    rcases hI with ⟨p, rest, n, cmd, rfl, hn, hcmd, hD⟩ | hE
    · exact .inl ⟨p, rest ++ [e], n, cmd, by simp, hn, hcmd, hD⟩
    by_cases he : EventOf i e
    · rcases he with rfl | rfl
      · obtain ⟨q, s', hq, rfl⟩ := step_run.1 hs
        dsimp only
        rw [Function.update_self]
        cases hp : m.thr i with
        | ret a =>
          rw [hp] at hq
          cases hq
        | call cmd k =>
          rw [hp] at hq hE
          obtain ⟨rfl, rfl⟩ := Prod.mk.inj (Option.some.inj hq)
          exact (hE.1 _).imp_left fun hD => ⟨past, [], m, cmd, rfl, hpast, by rw [hp]; rfl, hD⟩
        | exec cmd k =>
          rw [hp] at hq hE
          obtain ⟨rfl, rfl⟩ := Prod.mk.inj (Option.some.inj hq)
          exact (hE _).imp_left fun hD => ⟨past, [], m, cmd, rfl, hpast, by rw [hp]; rfl, hD⟩
      · obtain ⟨q, hq, rfl⟩ := Option.map_eq_some_iff.1 hs
        dsimp only
        rw [Function.update_self]
        cases hp : m.thr i with
        | call cmd k =>
          rw [hp] at hq hE
          obtain rfl := Option.some.inj hq
          exact .inr hE.2
        | _ =>
          rw [hp] at hq
          cases hq
    · rw [step_not_eventOf he hs]
      exact .inr hE
  refine hinv.resolve_right fun hE => ?_
  rw [Prog.result_eq_some.1 ha] at hE
  exact hE hP

/-- A thread that takes no part stays where it is. -/
theorem exec_not_takesPart {c₀ c : Conf E S ι α} {es : List (Ev ι Env)} {i : ι}
    (hi : ¬ TakesPart i es) (hrun : c₀.exec M es = some c) : c.thr i = c₀.thr i := by
  refine exec_invariant (fun c => c.thr i = c₀.thr i) rfl ?_ hrun
  intro e he c c' hc hs
  rw [step_not_eventOf (fun h => hi ⟨e, he, h⟩) hs]
  exact hc

/-- What a thread can send depends on the replies that it has got: they come from the states of the schedule. -/
theorem exec_thr_obeys {V : (c : E.Cmd) → E.Reply c → Prop} {G : E.Cmd → Prop} {c₀ c : Conf E S ι α}
    {es : List (Ev ι Env)} {i : ι}
    (hV : ∀ past m, past <+: es → c₀.exec M past = some m → ∀ c, V c (M.handle c m.st).1)
    (hthr : (c₀.thr i).Obeys V G) (hrun : c₀.exec M es = some c) : (c.thr i).Obeys V G := by
  refine exec_induction (fun _ c => (c.thr i).Obeys V G) hthr ?_ hrun
  intro past e d d' hpre hpast hd hstep
  exact step_obeys (hV past d ((List.prefix_append _ _).trans hpre) hpast) hd hstep

/-- **Guarantees.**  Each thread `i` that may take part (`A i`) sends only commands of its own kind `G i`, as long as
the replies satisfy `V`.  Together they keep what each of these commands and the surroundings keep. -/
theorem exec_guarantees {J : S → Prop} {V : (c : E.Cmd) → E.Reply c → Prop} {A : ι → Prop} {G : ι → E.Cmd → Prop}
    {c₀ c : Conf E S ι α} {es : List (Ev ι Env)} (hV : ∀ c s, J s → V c (M.handle c s).1)
    (hG : ∀ i c s, A i → G i c → J s → J (M.handle c s).2) (henv : ∀ e, Ev.env e ∈ es → ∀ s, J s → J (M.env e s))
    (hA : ∀ i, TakesPart i es → A i) (hthr : ∀ i, A i → (c₀.thr i).Obeys V (G i)) (hJ : J c₀.st)
    (hrun : c₀.exec M es = some c) : (∀ i, A i → (c.thr i).Obeys V (G i)) ∧ J c.st := by
  refine exec_invariant (fun d => (∀ i, A i → (d.thr i).Obeys V (G i)) ∧ J d.st) ⟨hthr, hJ⟩ ?_ hrun
  rintro e he d d' ⟨hthr, hd⟩ hstep
  refine ⟨fun i hi => step_obeys (fun c => hV c d.st hd) (hthr i hi) hstep, ?_⟩
  · rcases step_cases hstep with ⟨i, cmd, rfl, hcmd, hst⟩ | ⟨i, rfl, hst⟩ | ⟨x, rfl, hst⟩
    · have hi : A i := hA i ⟨_, he, .inl rfl⟩
      rw [hst]
      exact hG i cmd d.st hi ((hthr i hi).head hcmd) hd
    · rw [hst]
      exact hd
    · rw [hst]
      exact henv x he d.st hd

/-- Threads that all send only commands of the kind `G`. -/
theorem exec_obeys {J : S → Prop} {V : (c : E.Cmd) → E.Reply c → Prop} {G : E.Cmd → Prop}
    {c₀ c : Conf E S ι α} {es : List (Ev ι Env)} (hV : ∀ c s, J s → V c (M.handle c s).1)
    (hG : ∀ c s, G c → J s → J (M.handle c s).2) (henv : ∀ e, Ev.env e ∈ es → ∀ s, J s → J (M.env e s))
    (hthr : ∀ i, (c₀.thr i).Obeys V G) (hJ : J c₀.st) (hrun : c₀.exec M es = some c) :
    (∀ i, (c.thr i).Obeys V G) ∧ J c.st := by
  obtain ⟨hpart, hst⟩ := exec_guarantees (A := fun _ => True) (G := fun _ => G) hV (fun _ c s _ => hG c s) henv
    (fun _ _ => trivial) (fun i _ => hthr i) hJ hrun
  exact ⟨fun i => hpart i trivial, hst⟩

/-- Without errors, what is left of a thread depends on how many of its commands were served, and on the replies. -/
theorem exec_served [DecidableEq Env] {c₀ c : Conf E S ι α} {es : List (Ev ι Env)} {i : ι} (P : ℕ → Prog E α → Prop)
    (hok : NoErrors es) (h0 : P 0 (c₀.thr i))
    (hnext : ∀ past m n q s', past <+: es → c₀.exec M past = some m → P n (m.thr i) →
      (m.thr i).next M.handle m.st = some (q, s') → P (n + 1) q)
    (hrun : c₀.exec M es = some c) : P (served i es) (c.thr i) := by
  refine exec_induction (fun past c => P (served i past) (c.thr i)) h0 ?_ hrun
  intro past e m m' hpre hpast hP hs
  cases e with
  | run j =>
    obtain ⟨q, s', hq, rfl⟩ := step_run.1 hs
    rw [served_append_run]
    by_cases hji : j = i
    · subst hji
      rw [if_pos rfl]
      simpa using hnext past m _ q s' ((List.prefix_append _ _).trans hpre) hpast hP hq
    · rw [if_neg hji]
      simpa [Function.update_of_ne (Ne.symm hji)] using hP
  | fail j => exact absurd (hpre.subset (by simp)) (hok j)
  | env x =>
    obtain rfl := Option.some.inj hs
    simpa using hP

/-- What a thread has sent and what it sends from then on. -/
theorem only_of_sent {D Q : E.Cmd → Prop} {c₀ c : Conf E S ι α} {es : List (Ev ι Env)} {i : ι}
    (hA : (c₀.thr i).After D Q) (hsent : Sent M D c₀ i es) (hrun : c₀.exec M es = some c) :
    (c.thr i).Only Q := by
  obtain ⟨past, e, rest, m, cmd, rfl, he, hm, hcmd, hD⟩ := hsent
  obtain ⟨m', hm', hrest⟩ := exec_append_eq_some.1 hrun
  obtain rfl : m = m' := Option.some.inj (hm.symm.trans hm')
  obtain ⟨m₁, hs, hrest⟩ := exec_cons_eq_some.1 hrest
  have hAm : (m.thr i).After D Q := exec_after hA hm
  have honly : (m₁.thr i).Only Q := by
    rcases step_eventOf he hs with ⟨s', hn⟩ | hf
    · exact (hAm.next hn).2 cmd hcmd hD
    · exact (hAm.fail hf).2 cmd hcmd hD
  exact exec_only honly hrest

theorem upto_of_onlySent {D : E.Cmd → Prop} {P : Prog E α → Prop} {c₀ c : Conf E S ι α}
    {es : List (Ev ι Env)} {i : ι} (hU : (c₀.thr i).Upto D P) (hsent : OnlySent M D c₀ i es)
    (hrun : c₀.exec M es = some c) : (c.thr i).Upto D P := by
  refine exec_induction (fun _ c => (c.thr i).Upto D P) hU ?_ hrun
  intro past e c c' hpre hpast hP hs
  by_cases he : EventOf i e
  · obtain ⟨cmd, hcmd, hD⟩ := hsent past e c hpre he hpast
    rcases step_eventOf he hs with ⟨s', hn⟩ | hf
    · exact hP.next hcmd hD hn
    · exact hP.fail hcmd hD hf
  · rw [step_not_eventOf he hs]
    exact hP

end Conf

end StreamGate.Lib
