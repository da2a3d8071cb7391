import StreamGate.Lib.Knowledge

/-!
# Two services

Programs that talk to two services: the sum of their interfaces and the machine of their states side by side.  A
program of one of the two keeps to what is known (`Prog.Tracks`) as a part of a program of both.
-/

namespace StreamGate.Lib

variable {E F : Iface} {S T Env Env' α H : Type}

/-- The commands of both. -/
def Iface.sum (E F : Iface) : Iface where
  Cmd := E.Cmd ⊕ F.Cmd
  Reply := Sum.elim E.Reply F.Reply

/-- A program of the first service. -/
def Prog.inl : Prog E α → Prog (E.sum F) α := embed (F := E.sum F) Sum.inl fun _ r => r

/-- A program of the second service. -/
def Prog.inr : Prog F α → Prog (E.sum F) α := embed (F := E.sum F) Sum.inr fun _ r => r

/-- Each command goes to its service. -/
def Machine.prod (M : Machine E S Env) (N : Machine F T Env') : Machine (E.sum F) (S × T) (Env ⊕ Env') where
  handle
    | .inl c, s => ((M.handle c s.1).1, (M.handle c s.1).2, s.2)
    | .inr c, s => ((N.handle c s.2).1, s.1, (N.handle c s.2).2)
  env
    | .inl e, s => (M.env e s.1, s.2)
    | .inr e, s => (s.1, N.env e s.2)

/-! ### What is known -/

section Known

variable (V : H → (c : E.Cmd) → E.Reply c → Prop) (G : H → E.Cmd → Prop)

/-- Only the replies of the first service say something. -/
def possibleLeft : H → (c : (E.sum F).Cmd) → (E.sum F).Reply c → Prop
  | x, .inl c, r => V x c r
  | _, .inr _, _ => True

/-- Every command of the second service is permitted. -/
def permittedLeft : H → (E.sum F).Cmd → Prop
  | x, .inl c => G x c
  | _, .inr _ => True

variable [Preorder H] {V G}

theorem Prog.Tracks.inl {p : Prog E α} {Q : H → α → Prop} {x : H} (h : p.Tracks V G Q x) :
    (Prog.inl p : Prog (E.sum F) α).Tracks (possibleLeft V) (permittedLeft G) Q x := by
  induction p generalizing x with
  | ret a => exact h
  | call c k ih =>
    intro y hy
    obtain ⟨hc, hr, hn⟩ := h y hy
    exact ⟨hc, fun r hV => ih (some r) (hr r hV), ih none hn⟩
  | exec c k ih =>
    intro y hy
    obtain ⟨hc, hr⟩ := h y hy
    exact ⟨hc, fun r hV => ih r (hr r hV)⟩

/-- A program of the second service returns what it returns whatever the replies are. -/
theorem Prog.Leaves.inr {p : Prog F α} {P : α → Prop} {Q : H → α → Prop} {x : H} (h : p.Leaves P)
    (hQ : ∀ y a, x ≤ y → P a → Q y a) :
    (Prog.inr p : Prog (E.sum F) α).Tracks (possibleLeft V) (permittedLeft G) Q x := by
  induction p generalizing x with
  | ret a => exact fun y hy => hQ y a hy h
  | call c k ih =>
    intro y hy
    have hQ' : ∀ z a, y ≤ z → P a → Q z a := fun z a hz => hQ z a (hy.trans hz)
    exact ⟨trivial, fun r _ => ih (some r) (h (some r)) hQ', ih none (h none) hQ'⟩
  | exec c k ih =>
    intro y hy
    exact ⟨trivial, fun r _ => ih r (h r) fun z a hz => hQ z a (hy.trans hz)⟩

end Known

theorem Prog.Leaves.right {P : α → Prop} {p : Prog F α} (h : p.Leaves P) :
    (Prog.inr p : Prog (E.sum F) α).Leaves P := by
  induction p with
  | ret a => exact h
  | call c k ih => exact fun r => ih (r.map fun r => r) (h _)
  | exec c k ih => exact fun r => ih r (h r)

/-- The commands of the second service that satisfy `D`. -/
def onRight (D : F.Cmd → Prop) : (E.sum F).Cmd → Prop
  | .inl _ => False
  | .inr c => D c

theorem Prog.Earns.inr {D : F.Cmd → Prop} {P : α → Prop} {p : Prog F α} (h : p.Earns D P) :
    (Prog.inr p : Prog (E.sum F) α).Earns (onRight D) P := by
  induction p with
  | ret a => exact h
  | call c k ih => exact ⟨fun r => (h.1 r).imp_right (ih (some r)), ih none h.2⟩
  | exec c k ih => exact fun r => (h r).imp_right (ih r)

end StreamGate.Lib
