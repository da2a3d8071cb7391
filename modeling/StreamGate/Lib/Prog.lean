import Mathlib.Logic.Function.Basic
import Mathlib.Data.Nat.Notation

/-!
# Programs that talk to a shared service

A program is a tree of commands: at each node it sends one command and goes on with the reply.
The same tree is read in three ways: run alone (`Prog.run`, and `Prog.runWith` when some commands
fail), one command at a time (`Prog.next`, the steps that `Lib.Interleave` interleaves), and as a set of
commands and results whatever the replies are (`Prog.Obeys`, `Prog.Only`, `Prog.Leaves`).

A command sent by `call` may fail, and the program sees that (`none`).  A command sent by `exec`
is part of a batch whose first command went through, so it has a reply.
-/

namespace StreamGate.Lib

/-- The commands a program may send, and the type of the reply to each. -/
structure Iface where
  Cmd : Type
  Reply : Cmd → Type

/-- A program over the interface `E` that returns an `α`. -/
inductive Prog (E : Iface) (α : Type) : Type
  | ret (a : α)
  | call (c : E.Cmd) (k : Option (E.Reply c) → Prog E α)
  | exec (c : E.Cmd) (k : E.Reply c → Prog E α)

namespace Prog

variable {E : Iface} {S α β : Type}

/-- Sequential composition. -/
def bind : Prog E α → (α → Prog E β) → Prog E β
  | ret a, f => f a
  | call c k, f => call c fun r => (k r).bind f
  | exec c k, f => exec c fun r => (k r).bind f

instance : Monad (Prog E) where
  pure := ret
  bind := bind

@[simp] theorem pure_eq (a : α) : (pure a : Prog E α) = ret a := rfl
@[simp] theorem ret_bind (a : α) (f : α → Prog E β) : (ret a >>= f) = f a := rfl
@[simp] theorem call_bind (c : E.Cmd) (k : Option (E.Reply c) → Prog E α) (f : α → Prog E β) :
    (call c k >>= f) = call c fun r => k r >>= f := rfl
@[simp] theorem exec_bind (c : E.Cmd) (k : E.Reply c → Prog E α) (f : α → Prog E β) :
    (exec c k >>= f) = exec c fun r => k r >>= f := rfl

theorem bind_assoc {γ : Type} (p : Prog E α) (f : α → Prog E β) (g : β → Prog E γ) :
    (p >>= f >>= g) = p >>= fun a => f a >>= g := by
  induction p with
  | ret a => rfl
  | call c k ih => exact congrArg (call c) (funext fun r => ih r)
  | exec c k ih => exact congrArg (exec c) (funext fun r => ih r)

theorem bind_ret (p : Prog E α) : (p >>= ret) = p := by
  induction p with
  | ret a => rfl
  | call c k ih => exact congrArg (call c) (funext fun r => ih r)
  | exec c k ih => exact congrArg (exec c) (funext fun r => ih r)

/-- The program as a part of one over a larger interface: `c` is sent as `f c` there, and `g` reads the
reply. -/
def embed {F : Iface} (f : E.Cmd → F.Cmd) (g : (c : E.Cmd) → F.Reply (f c) → E.Reply c) : Prog E α → Prog F α
  | ret a => ret a
  | call c k => call (f c) fun r => (k (r.map (g c))).embed f g
  | exec c k => exec (f c) fun r => (k (g c r)).embed f g

/-! ### Running alone -/

/-- The run of a program alone, every command answered by `h`: its result and the state after. -/
def run (h : (c : E.Cmd) → S → E.Reply c × S) : Prog E α → S → α × S
  | ret a, s => (a, s)
  | call c k, s => (k (some (h c s).1)).run h (h c s).2
  | exec c k, s => (k (h c s).1).run h (h c s).2

section Run

variable (h : (c : E.Cmd) → S → E.Reply c × S)

@[simp] theorem run_ret (a : α) (s : S) : (ret a : Prog E α).run h s = (a, s) := rfl
@[simp] theorem run_call (c : E.Cmd) (k : Option (E.Reply c) → Prog E α) (s : S) :
    (call c k).run h s = (k (some (h c s).1)).run h (h c s).2 := rfl
@[simp] theorem run_exec (c : E.Cmd) (k : E.Reply c → Prog E α) (s : S) :
    (exec c k).run h s = (k (h c s).1).run h (h c s).2 := rfl

@[simp] theorem run_bind (p : Prog E α) (f : α → Prog E β) (s : S) :
    (p >>= f).run h s = (f (p.run h s).1).run h (p.run h s).2 := by
  induction p generalizing s with
  | ret a => rfl
  | call c k ih => exact ih _ _
  | exec c k ih => exact ih _ _

end Run

/-- The run of a program alone in which the commands of the pattern `fails` fail: the `i`-th of those
that may fail does if `fails i`, and leaves the state as it is. -/
def runWith (h : (c : E.Cmd) → S → E.Reply c × S) : Prog E α → (ℕ → Bool) → S → α × S
  | ret a, _, s => (a, s)
  | call c k, fails, s =>
    if fails 0 then (k none).runWith h (fun i => fails (i + 1)) s
    else (k (some (h c s).1)).runWith h (fun i => fails (i + 1)) (h c s).2
  | exec c k, fails, s => (k (h c s).1).runWith h fails (h c s).2

/-- The commands that such a run sends, in their order. -/
def sentWith (h : (c : E.Cmd) → S → E.Reply c × S) : Prog E α → (ℕ → Bool) → S → List E.Cmd
  | ret _, _, _ => []
  | call c k, fails, s =>
    c :: if fails 0 then (k none).sentWith h (fun i => fails (i + 1)) s
      else (k (some (h c s).1)).sentWith h (fun i => fails (i + 1)) (h c s).2
  | exec c k, fails, s => c :: (k (h c s).1).sentWith h fails (h c s).2

section RunWith

variable (h : (c : E.Cmd) → S → E.Reply c × S)

theorem runWith_failed {c : E.Cmd} {k : Option (E.Reply c) → Prog E α} {fails : ℕ → Bool}
    (hf : fails 0 = true) (s : S) :
    (call c k).runWith h fails s = (k none).runWith h (fun i => fails (i + 1)) s := by
  rw [runWith, if_pos hf]

theorem runWith_served {c : E.Cmd} {k : Option (E.Reply c) → Prog E α} {fails : ℕ → Bool}
    (hf : fails 0 = false) (s : S) :
    (call c k).runWith h fails s = (k (some (h c s).1)).runWith h (fun i => fails (i + 1)) (h c s).2 := by
  rw [runWith, if_neg (by rw [hf]; exact Bool.false_ne_true)]

theorem sentWith_failed {c : E.Cmd} {k : Option (E.Reply c) → Prog E α} {fails : ℕ → Bool}
    (hf : fails 0 = true) (s : S) :
    (call c k).sentWith h fails s = c :: (k none).sentWith h (fun i => fails (i + 1)) s := by
  rw [sentWith, if_pos hf]

theorem sentWith_served {c : E.Cmd} {k : Option (E.Reply c) → Prog E α} {fails : ℕ → Bool}
    (hf : fails 0 = false) (s : S) :
    (call c k).sentWith h fails s =
      c :: (k (some (h c s).1)).sentWith h (fun i => fails (i + 1)) (h c s).2 := by
  rw [sentWith, if_neg (by rw [hf]; exact Bool.false_ne_true)]

/-- A last command whose reply does not matter is sent whether it fails or not. -/
theorem sentWith_last (c : E.Cmd) (a : α) (fails : ℕ → Bool) (s : S) :
    (call c fun _ => ret a : Prog E α).sentWith h fails s = [c] := by
  simp only [sentWith, ite_self]

/-- Nothing fails. -/
theorem runWith_none (p : Prog E α) (s : S) : p.runWith h (fun _ => false) s = p.run h s := by
  induction p generalizing s with
  | ret a => rfl
  | call c k ih =>
    rw [runWith_served h rfl]
    exact ih (some (h c s).1) (h c s).2
  | exec c k ih => exact ih (h c s).1 (h c s).2

end RunWith

/-! ### One command at a time -/

/-- The next command of a program, if it has not returned: what is left of it, and the state
after the command. -/
def next (h : (c : E.Cmd) → S → E.Reply c × S) : Prog E α → S → Option (Prog E α × S)
  | ret _, _ => none
  | call c k, s => some (k (some (h c s).1), (h c s).2)
  | exec c k, s => some (k (h c s).1, (h c s).2)

/-- The result of a program that has returned. -/
def result : Prog E α → Option α
  | ret a => some a
  | _ => none

theorem result_eq_some {p : Prog E α} {a : α} : p.result = some a ↔ p = ret a := by
  cases p <;> simp [result]

/-- What is left of a program whose next command fails: the state is as it was. -/
def fail : Prog E α → Option (Prog E α)
  | call _ k => some (k none)
  | _ => none

section Next

variable (h : (c : E.Cmd) → S → E.Reply c × S)

@[simp] theorem next_ret (a : α) (s : S) : (ret a : Prog E α).next h s = none := rfl
@[simp] theorem next_call (c : E.Cmd) (k : Option (E.Reply c) → Prog E α) (s : S) :
    (call c k).next h s = some (k (some (h c s).1), (h c s).2) := rfl
@[simp] theorem next_exec (c : E.Cmd) (k : E.Reply c → Prog E α) (s : S) :
    (exec c k).next h s = some (k (h c s).1, (h c s).2) := rfl

end Next

/-! ### What holds whatever the replies are -/

/-- Every result the program can return satisfies `P`. -/
def Leaves (P : α → Prop) : Prog E α → Prop
  | ret a => P a
  | call _ k => ∀ r, (k r).Leaves P
  | exec _ k => ∀ r, (k r).Leaves P

/-- Every command the program can send satisfies `Q`, as long as the replies satisfy `V`. -/
def Obeys (V : (c : E.Cmd) → E.Reply c → Prop) (Q : E.Cmd → Prop) : Prog E α → Prop
  | ret _ => True
  | call c k => Q c ∧ (∀ r, V c r → (k (some r)).Obeys V Q) ∧ (k none).Obeys V Q
  | exec c k => Q c ∧ ∀ r, V c r → (k r).Obeys V Q

/-- Every command the program can send satisfies `Q`, whatever the replies are. -/
abbrev Only (Q : E.Cmd → Prop) : Prog E α → Prop := Obeys (fun _ _ => True) Q

section Static

variable {h : (c : E.Cmd) → S → E.Reply c × S} {P : α → Prop} {Q : E.Cmd → Prop}
  {V : (c : E.Cmd) → E.Reply c → Prop}

theorem Leaves.next {p q : Prog E α} {s s' : S} (hp : p.Leaves P) (hn : p.next h s = some (q, s')) :
    q.Leaves P := by
  cases p with
  | ret a => simp at hn
  | call c k =>
    obtain ⟨rfl, -⟩ : k (some (h c s).1) = q ∧ (h c s).2 = s' := by simpa using hn
    exact hp _
  | exec c k =>
    obtain ⟨rfl, -⟩ : k (h c s).1 = q ∧ (h c s).2 = s' := by simpa using hn
    exact hp _

theorem Leaves.fail {p q : Prog E α} (hp : p.Leaves P) (hn : p.fail = some q) : q.Leaves P := by
  cases p with
  | call c k =>
    obtain rfl := Option.some.inj hn
    exact hp none
  | _ => cases hn

theorem Leaves.bind {Pa : α → Prop} {Pb : β → Prop} {p : Prog E α} {f : α → Prog E β}
    (hp : p.Leaves Pa) (hf : ∀ a, Pa a → (f a).Leaves Pb) : (p >>= f).Leaves Pb := by
  induction p with
  | ret a => exact hf a hp
  | call c k ih => exact fun r => ih r (hp r)
  | exec c k ih => exact fun r => ih r (hp r)

theorem leaves_true (p : Prog E α) : p.Leaves fun _ => True := by
  induction p with
  | ret a => trivial
  | call c k ih => exact ih
  | exec c k ih => exact ih

theorem Obeys.mono {V' : (c : E.Cmd) → E.Reply c → Prop} {Q' : E.Cmd → Prop}
    (hV : ∀ c r, V' c r → V c r) (hQ : ∀ c, Q c → Q' c) {p : Prog E α} (hp : p.Obeys V Q) :
    p.Obeys V' Q' := by
  induction p with
  | ret a => trivial
  | call c k ih => exact ⟨hQ c hp.1, fun r hr => ih _ (hp.2.1 r (hV c r hr)), ih _ hp.2.2⟩
  | exec c k ih => exact ⟨hQ c hp.1, fun r hr => ih _ (hp.2 r (hV c r hr))⟩

theorem only_true (p : Prog E α) : p.Only fun _ => True := by
  induction p with
  | ret a => trivial
  | call c k ih => exact ⟨trivial, fun _ _ => ih _, ih _⟩
  | exec c k ih => exact ⟨trivial, fun _ _ => ih _⟩

theorem Obeys.bind {p : Prog E α} {f : α → Prog E β} (hp : p.Obeys V Q) (hf : ∀ a, (f a).Obeys V Q) :
    (p >>= f).Obeys V Q := by
  induction p with
  | ret a => exact hf a
  | call c k ih => exact ⟨hp.1, fun r hr => ih _ (hp.2.1 r hr), ih _ hp.2.2⟩
  | exec c k ih => exact ⟨hp.1, fun r hr => ih _ (hp.2 r hr)⟩

/-- The second program may rely on what the first returns. -/
theorem Obeys.bind_leaves {p : Prog E α} {f : α → Prog E β} (hp : p.Obeys V Q) (hl : p.Leaves P)
    (hf : ∀ a, P a → (f a).Obeys V Q) : (p >>= f).Obeys V Q := by
  induction p with
  | ret a => exact hf a hl
  | call c k ih => exact ⟨hp.1, fun r hr => ih _ (hp.2.1 r hr) (hl _), ih _ hp.2.2 (hl _)⟩
  | exec c k ih => exact ⟨hp.1, fun r hr => ih _ (hp.2 r hr) (hl _)⟩

/-- A served command of a program that obeys, in a state whose replies are as assumed. -/
theorem Obeys.next {p q : Prog E α} {s s' : S} (hp : p.Obeys V Q) (hs : ∀ c, V c (h c s).1)
    (hn : p.next h s = some (q, s')) : q.Obeys V Q ∧ ∃ c, Q c ∧ s' = (h c s).2 := by
  cases p with
  | ret a => simp at hn
  | call c k =>
    obtain ⟨rfl, rfl⟩ := Prod.mk.inj (Option.some.inj hn)
    exact ⟨hp.2.1 _ (hs c), c, hp.1, rfl⟩
  | exec c k =>
    obtain ⟨rfl, rfl⟩ := Prod.mk.inj (Option.some.inj hn)
    exact ⟨hp.2 _ (hs c), c, hp.1, rfl⟩

theorem Obeys.fail {p q : Prog E α} (hp : p.Obeys V Q) (hn : p.fail = some q) : q.Obeys V Q := by
  cases p with
  | ret a => simp [Prog.fail] at hn
  | call c k =>
    obtain rfl := Option.some.inj hn
    exact hp.2.2
  | exec c k => simp [Prog.fail] at hn

/-- What every command satisfying `Q` keeps, a run of such commands keeps. -/
theorem Only.run_keeps {I : S → Prop} (hI : ∀ c s, Q c → I s → I (h c s).2) {p : Prog E α}
    (hp : p.Only Q) {s : S} (hs : I s) : I (p.run h s).2 := by
  induction p generalizing s with
  | ret a => exact hs
  | call c k ih => exact ih _ (hp.2.1 _ trivial) (hI c s hp.1 hs)
  | exec c k ih => exact ih _ (hp.2 _ trivial) (hI c s hp.1 hs)

end Static

/-! ### What a result has taken -/

/-- A result that satisfies `P` comes only after a served command that satisfies `D`. -/
def Earns (D : E.Cmd → Prop) (P : α → Prop) : Prog E α → Prop
  | ret a => ¬ P a
  | call c k => (∀ r, D c ∨ (k (some r)).Earns D P) ∧ (k none).Earns D P
  | exec c k => ∀ r, D c ∨ (k r).Earns D P

section Earned

variable {D : E.Cmd → Prop} {P : α → Prop} {P' : β → Prop}

/-- The first program has taken it, or the second one takes it. -/
theorem Earns.bind {p : Prog E α} {f : α → Prog E β} (hp : p.Earns D P) (hf : ∀ a, ¬ P a → (f a).Earns D P') :
    (p >>= f).Earns D P' := by
  induction p with
  | ret a => exact hf a hp
  | call c k ih => exact ⟨fun r => (hp.1 r).imp_right (ih (some r)), ih none hp.2⟩
  | exec c k ih => exact fun r => (hp r).imp_right (ih r)

theorem Earns.bind_right (p : Prog E α) {f : α → Prog E β} (hf : ∀ a, (f a).Earns D P') : (p >>= f).Earns D P' := by
  induction p with
  | ret a => exact hf a
  | call c k ih => exact ⟨fun r => .inr (ih (some r)), ih none⟩
  | exec c k ih => exact fun r => .inr (ih r)

theorem Earns.mono {D' : E.Cmd → Prop} {P' : α → Prop} {p : Prog E α} (hp : p.Earns D P) (hD : ∀ c, D c → D' c)
    (hP : ∀ a, P' a → P a) : p.Earns D' P' := by
  induction p with
  | ret a => exact fun ha => hp (hP a ha)
  | call c k ih => exact ⟨fun r => (hp.1 r).imp (hD c) (ih (some r)), ih none hp.2⟩
  | exec c k ih => exact fun r => (hp r).imp (hD c) (ih r)

end Earned

/-! ### Results, as long as the replies are as expected -/

/-- Every result the program can return satisfies `P`, as long as the replies satisfy `V`. -/
def Gives (V : (c : E.Cmd) → E.Reply c → Prop) (P : α → Prop) : Prog E α → Prop
  | ret a => P a
  | call c k => (∀ r, V c r → (k (some r)).Gives V P) ∧ (k none).Gives V P
  | exec c k => ∀ r, V c r → (k r).Gives V P

section Given

variable {h : (c : E.Cmd) → S → E.Reply c × S} {V : (c : E.Cmd) → E.Reply c → Prop} {Q : E.Cmd → Prop}
  {P : α → Prop} {P' : β → Prop}

theorem Leaves.gives {p : Prog E α} (hp : p.Leaves P) : p.Gives V P := by
  induction p with
  | ret a => exact hp
  | call c k ih => exact ⟨fun r _ => ih _ (hp _), ih _ (hp _)⟩
  | exec c k ih => exact fun r _ => ih _ (hp r)

theorem Gives.bind {p : Prog E α} {f : α → Prog E β} (hp : p.Gives V P) (hf : ∀ a, P a → (f a).Gives V P') :
    (p >>= f).Gives V P' := by
  induction p with
  | ret a => exact hf a hp
  | call c k ih => exact ⟨fun r hr => ih _ (hp.1 r hr), ih _ hp.2⟩
  | exec c k ih => exact fun r hr => ih _ (hp r hr)

/-- The second program may rely on what the first returns if the replies are as expected. -/
theorem Obeys.bind_gives {p : Prog E α} {f : α → Prog E β} (hp : p.Obeys V Q) (hg : p.Gives V P)
    (hf : ∀ a, P a → (f a).Obeys V Q) : (p >>= f).Obeys V Q := by
  induction p with
  | ret a => exact hf a hg
  | call c k ih => exact ⟨hp.1, fun r hr => ih _ (hp.2.1 r hr) (hg.1 r hr), ih _ hp.2.2 hg.2⟩
  | exec c k ih => exact ⟨hp.1, fun r hr => ih _ (hp.2 r hr) (hg r hr)⟩

end Given

/-! ### Before and after a command -/

/-- The command the program sends next. -/
def head : Prog E α → Option E.Cmd
  | ret _ => none
  | call c _ => some c
  | exec c _ => some c

/-- A served command is the one that was to be sent. -/
theorem next_head {h : (c : E.Cmd) → S → E.Reply c × S} {p q : Prog E α} {s s' : S}
    (hn : p.next h s = some (q, s')) : ∃ c, p.head = some c ∧ s' = (h c s).2 := by
  cases p with
  | ret a => cases hn
  | call c k => exact ⟨c, rfl, (Prod.mk.inj (Option.some.inj hn)).2.symm⟩
  | exec c k => exact ⟨c, rfl, (Prod.mk.inj (Option.some.inj hn)).2.symm⟩

theorem Obeys.head {V : (c : E.Cmd) → E.Reply c → Prop} {Q : E.Cmd → Prop} {p : Prog E α} {c : E.Cmd}
    (hp : p.Obeys V Q) (hc : p.head = some c) : Q c := by
  cases p with
  | ret a => cases hc
  | call c' k => exact Option.some.inj hc ▸ hp.1
  | exec c' k => exact Option.some.inj hc ▸ hp.1

/-- Once the program has sent a command that satisfies `D`, it sends only commands that
satisfy `Q`. -/
def After (D Q : E.Cmd → Prop) : Prog E α → Prop
  | ret _ => True
  | call c k => ∀ r, (D c → (k r).Only Q) ∧ (k r).After D Q
  | exec c k => ∀ r, (D c → (k r).Only Q) ∧ (k r).After D Q

/-- `P` holds of what is left of the program when it comes to its first command outside `D`. -/
def Upto (D : E.Cmd → Prop) (P : Prog E α → Prop) : Prog E α → Prop
  | ret a => P (ret a)
  | call c k => (D c → ∀ r, (k r).Upto D P) ∧ (¬ D c → P (call c k))
  | exec c k => (D c → ∀ r, (k r).Upto D P) ∧ (¬ D c → P (exec c k))

/-- Until it has been served a command that satisfies `D`, the program sends only commands that satisfy `Q`. -/
def Until (D Q : E.Cmd → Prop) : Prog E α → Prop
  | ret _ => True
  | call c k => Q c ∧ (∀ r, D c ∨ (k (some r)).Until D Q) ∧ (k none).Until D Q
  | exec c k => Q c ∧ ∀ r, D c ∨ (k r).Until D Q

section Phases

variable {h : (c : E.Cmd) → S → E.Reply c × S} {D Q : E.Cmd → Prop} {P : Prog E α → Prop}

theorem Only.after {p : Prog E α} (hp : p.Only Q) : p.After D Q := by
  induction p with
  | ret a => trivial
  | call c k ih =>
    rintro (_ | r)
    · exact ⟨fun _ => hp.2.2, ih _ hp.2.2⟩
    · exact ⟨fun _ => hp.2.1 r trivial, ih _ (hp.2.1 r trivial)⟩
  | exec c k ih => exact fun r => ⟨fun _ => hp.2 r trivial, ih _ (hp.2 r trivial)⟩

/-- A first part without such a command. -/
theorem After.bind {p : Prog E β} {f : β → Prog E α} (hp : p.Only fun c => ¬ D c)
    (hf : ∀ b, (f b).After D Q) : (p >>= f).After D Q := by
  induction p with
  | ret a => exact hf a
  | call c k ih =>
    rintro (_ | r)
    · exact ⟨fun hc => absurd hc hp.1, ih _ hp.2.2⟩
    · exact ⟨fun hc => absurd hc hp.1, ih _ (hp.2.1 r trivial)⟩
  | exec c k ih => exact fun r => ⟨fun hc => absurd hc hp.1, ih _ (hp.2 r trivial)⟩

/-- A last part that sends only commands of the second kind. -/
theorem After.bind_only {p : Prog E β} {f : β → Prog E α} (hp : p.After D Q) (hf : ∀ b, (f b).Only Q) :
    (p >>= f).After D Q := by
  induction p with
  | ret a => exact (hf a).after
  | call c k ih => exact fun r => ⟨fun hc => ((hp r).1 hc).bind hf, ih r (hp r).2⟩
  | exec c k ih => exact fun r => ⟨fun hc => ((hp r).1 hc).bind hf, ih r (hp r).2⟩

theorem After.next {p q : Prog E α} {s s' : S} (hp : p.After D Q) (hn : p.next h s = some (q, s')) :
    q.After D Q ∧ ∀ c, p.head = some c → D c → q.Only Q := by
  cases p with
  | ret a => simp at hn
  | call c k =>
    obtain ⟨rfl, -⟩ := Prod.mk.inj (Option.some.inj hn)
    exact ⟨(hp _).2, fun c' hc => by obtain rfl := Option.some.inj hc; exact (hp _).1⟩
  | exec c k =>
    obtain ⟨rfl, -⟩ := Prod.mk.inj (Option.some.inj hn)
    exact ⟨(hp _).2, fun c' hc => by obtain rfl := Option.some.inj hc; exact (hp _).1⟩

theorem After.fail {p q : Prog E α} (hp : p.After D Q) (hn : p.fail = some q) :
    q.After D Q ∧ ∀ c, p.head = some c → D c → q.Only Q := by
  cases p with
  | ret a => simp [Prog.fail] at hn
  | call c k =>
    obtain rfl := Option.some.inj hn
    exact ⟨(hp _).2, fun c' hc => by obtain rfl := Option.some.inj hc; exact (hp _).1⟩
  | exec c k => simp [Prog.fail] at hn

theorem Only.until {p : Prog E α} (hp : p.Only Q) : p.Until D Q := by
  induction p with
  | ret a => trivial
  | call c k ih => exact ⟨hp.1, fun r => .inr (ih _ (hp.2.1 r trivial)), ih _ hp.2.2⟩
  | exec c k ih => exact ⟨hp.1, fun r => .inr (ih _ (hp.2 r trivial))⟩

theorem Until.bind {p : Prog E β} {f : β → Prog E α} (hp : p.Until D Q) (hf : ∀ b, (f b).Until D Q) :
    (p >>= f).Until D Q := by
  induction p with
  | ret b => exact hf b
  | call c k ih => exact ⟨hp.1, fun r => (hp.2.1 r).imp_right (ih _), ih _ hp.2.2⟩
  | exec c k ih => exact ⟨hp.1, fun r => (hp.2 r).imp_right (ih _)⟩

/-- The first part returns what goes on only after it has been served such a command. -/
theorem Until.bind_earns {P' : β → Prop} {p : Prog E β} {f : β → Prog E α} (hp : p.Until D Q) (hl : p.Earns D P')
    (hf : ∀ b, ¬ P' b → (f b).Until D Q) : (p >>= f).Until D Q := by
  induction p with
  | ret b => exact hf b hl
  | call c k ih =>
    refine ⟨hp.1, fun r => ?_, ih none hp.2.2 hl.2⟩
    rcases hp.2.1 r with hD | hU
    · exact .inl hD
    · exact (hl.1 r).imp_right (ih _ hU)
  | exec c k ih =>
    refine ⟨hp.1, fun r => ?_⟩
    rcases hp.2 r with hD | hU
    · exact .inl hD
    · exact (hl r).imp_right (ih _ hU)

theorem Until.next {p q : Prog E α} {s s' : S} (hp : p.Until D Q) (hn : p.next h s = some (q, s')) :
    (∃ c, p.head = some c ∧ D c) ∨ q.Until D Q := by
  cases p with
  | ret a => cases hn
  | call c k =>
    obtain ⟨rfl, -⟩ := Prod.mk.inj (Option.some.inj hn)
    exact (hp.2.1 _).imp_left fun hD => ⟨c, rfl, hD⟩
  | exec c k =>
    obtain ⟨rfl, -⟩ := Prod.mk.inj (Option.some.inj hn)
    exact (hp.2 _).imp_left fun hD => ⟨c, rfl, hD⟩

theorem Until.fail {p q : Prog E α} (hp : p.Until D Q) (hn : p.fail = some q) : q.Until D Q := by
  cases p with
  | call c k =>
    obtain rfl := Option.some.inj hn
    exact hp.2.2
  | _ => cases hn

theorem Until.head {p : Prog E α} (hp : p.Until D Q) {c : E.Cmd} (hc : p.head = some c) : Q c := by
  cases p with
  | ret a => cases hc
  | call c' k => exact Option.some.inj hc ▸ hp.1
  | exec c' k => exact Option.some.inj hc ▸ hp.1

theorem Upto.bind {P' : Prog E β → Prop} {p : Prog E β} {f : β → Prog E α} (hp : p.Upto D P')
    (hP : ∀ p, P' p → P (p >>= f)) (hf : ∀ b, P (f b) → (f b).Upto D P) : (p >>= f).Upto D P := by
  induction p with
  | ret b => exact hf b (hP _ hp)
  | call c k ih => exact ⟨fun hc r => ih r (hp.1 hc r), fun hc => hP _ (hp.2 hc)⟩
  | exec c k ih => exact ⟨fun hc r => ih r (hp.1 hc r), fun hc => hP _ (hp.2 hc)⟩

theorem Upto.next {p q : Prog E α} {s s' : S} (hp : p.Upto D P) {c : E.Cmd} (hc : p.head = some c)
    (hD : D c) (hn : p.next h s = some (q, s')) : q.Upto D P := by
  cases p with
  | ret a => simp at hn
  | call c' k =>
    obtain rfl := Option.some.inj hc
    obtain ⟨rfl, -⟩ := Prod.mk.inj (Option.some.inj hn)
    exact hp.1 hD _
  | exec c' k =>
    obtain rfl := Option.some.inj hc
    obtain ⟨rfl, -⟩ := Prod.mk.inj (Option.some.inj hn)
    exact hp.1 hD _

theorem Upto.fail {p q : Prog E α} (hp : p.Upto D P) {c : E.Cmd} (hc : p.head = some c) (hD : D c)
    (hn : p.fail = some q) : q.Upto D P := by
  cases p with
  | ret a => simp [Prog.fail] at hn
  | call c' k =>
    obtain rfl := Option.some.inj hc
    obtain rfl := Option.some.inj hn
    exact hp.1 hD _
  | exec c' k => simp [Prog.fail] at hn

/-- A property of programs that a first part with commands of the kind `G`, and a last part with commands of the kind
`Q`, do not take away. -/
structure Phase (G Q : E.Cmd → Prop) (P : {α : Type} → Prog E α → Prop) : Prop where
  ret : ∀ {α : Type} (a : α), P (ret a)
  before : ∀ {α β : Type} {p : Prog E β} {f : β → Prog E α}, p.Only G → (∀ b, P (f b)) → P (p >>= f)
  after : ∀ {α β : Type} {p : Prog E β} {f : β → Prog E α}, P p → (∀ b, (f b).Only Q) → P (p >>= f)

theorem After.phase (D Q : E.Cmd → Prop) : Phase (fun c => ¬ D c) Q (After D Q) where
  ret _ := trivial
  before := After.bind
  after := After.bind_only

theorem Obeys.phase (V : (c : E.Cmd) → E.Reply c → Prop) (Q : E.Cmd → Prop) : Phase Q Q (Obeys V Q) where
  ret _ := trivial
  before hp hf := (hp.mono (fun _ _ _ => trivial) fun _ => id).bind hf
  after hp hf := hp.bind fun b => (hf b).mono (fun _ _ _ => trivial) fun _ => id

theorem Until.phase (D Q : E.Cmd → Prop) : Phase Q Q (Until D Q) where
  ret _ := trivial
  before hp hf := hp.until.bind hf
  after hp hf := hp.bind fun b => (hf b).until

end Phases

end Prog

end StreamGate.Lib
