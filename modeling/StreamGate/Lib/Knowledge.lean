import Mathlib.Order.Basic
import StreamGate.Lib.Interleave

/-!
# Programs and what is known

Threads that share a state also share what has happened to it, and this only grows.  `Tracks V G Q
p x`: from the moment at which `x` is known, the program `p` sends only commands that what is known
by then permits (`G`), and returns only what is then justified (`Q`), as long as every reply is one
that is possible with what is known when it comes (`V`).  `Conf.exec_tracks` is the connection to
interleavings: if the permitted commands keep a property `J` of the state that makes the replies
possible, every thread that tracks keeps tracking.
-/

namespace StreamGate.Lib

variable {E : Iface} {S α β H : Type} [Preorder H]

namespace Prog

section Rules

variable (V : H → (c : E.Cmd) → E.Reply c → Prop) (G : H → E.Cmd → Prop)

/-- The program keeps to what is known, from `x` on. -/
def Tracks : Prog E α → (H → α → Prop) → H → Prop
  | ret a, Q, x => ∀ y, x ≤ y → Q y a
  | call c k, Q, x => ∀ y, x ≤ y → G y c ∧ (∀ r, V y c r → Tracks (k (some r)) Q y) ∧ Tracks (k none) Q y
  | exec c k, Q, x => ∀ y, x ≤ y → G y c ∧ ∀ r, V y c r → Tracks (k r) Q y

variable {V G}

theorem Tracks.mono {p : Prog E α} {Q : H → α → Prop} {x y : H} (hp : p.Tracks V G Q x) (hxy : x ≤ y) :
    p.Tracks V G Q y := by
  cases p with
  | ret a => exact fun z hz => hp z (hxy.trans hz)
  | call c k => exact fun z hz => hp z (hxy.trans hz)
  | exec c k => exact fun z hz => hp z (hxy.trans hz)

/-- What is justified may be weakened. -/
theorem Tracks.imp {p : Prog E α} {Q Q' : H → α → Prop} {x : H} (hp : p.Tracks V G Q x)
    (hQ : ∀ y a, x ≤ y → Q y a → Q' y a) : p.Tracks V G Q' x := by
  induction p generalizing x with
  | ret a => exact fun y hy => hQ y a hy (hp y hy)
  | call c k ih =>
    intro y hy
    obtain ⟨hc, hr, hn⟩ := hp y hy
    have hQ' : ∀ z a, y ≤ z → Q z a → Q' z a := fun z a hz => hQ z a (hy.trans hz)
    exact ⟨hc, fun r hV => ih _ (hr r hV) hQ', ih _ hn hQ'⟩
  | exec c k ih =>
    intro y hy
    obtain ⟨hc, hr⟩ := hp y hy
    exact ⟨hc, fun r hV => ih _ (hr r hV) fun z a hz => hQ z a (hy.trans hz)⟩

/-- Sequential composition. -/
theorem Tracks.bind {p : Prog E α} {f : α → Prog E β} {Q : H → α → Prop} {Q' : H → β → Prop} {x : H}
    (hp : p.Tracks V G Q x) (hf : ∀ y a, x ≤ y → Q y a → (f a).Tracks V G Q' y) :
    (p >>= f).Tracks V G Q' x := by
  induction p generalizing x with
  | ret a => exact hf x a le_rfl (hp x le_rfl)
  | call c k ih =>
    intro y hy
    obtain ⟨hc, hr, hn⟩ := hp y hy
    have hf' : ∀ z a, y ≤ z → Q z a → (f a).Tracks V G Q' z := fun z a hz => hf z a (hy.trans hz)
    exact ⟨hc, fun r hV => ih _ (hr r hV) hf', ih _ hn hf'⟩
  | exec c k ih =>
    intro y hy
    obtain ⟨hc, hr⟩ := hp y hy
    exact ⟨hc, fun r hV => ih _ (hr r hV) fun z a hz => hf z a (hy.trans hz)⟩

end Rules

end Prog

/-! ### Threads -/

namespace Conf

variable {Env ι : Type} [DecidableEq ι] {M : Machine E S Env}
  {V : H → (c : E.Cmd) → E.Reply c → Prop} {G : H → E.Cmd → Prop}

/-- **Threads that keep to what is known.**  `know past` is what is known after the events `past`. -/
theorem exec_tracks (know : List (Ev ι Env) → H) (J : H → S → Prop) {Q : ι → H → α → Prop}
    {c₀ c : Conf E S ι α} {es : List (Ev ι Env)} (hmono : ∀ past e, know past ≤ know (past ++ [e]))
    (hJ : ∀ x y s, x ≤ y → J x s → J y s) (hV : ∀ x cmd s, J x s → V x cmd (M.handle cmd s).1)
    (hG : ∀ x cmd s, G x cmd → J x s → J x (M.handle cmd s).2)
    (henv : ∀ past e c, c₀.exec M past = some c → J (know past) c.st →
      J (know (past ++ [Ev.env e])) (M.env e c.st))
    (h0 : J (know []) c₀.st) (hthr : ∀ i, (c₀.thr i).Tracks V G (Q i) (know []))
    (hrun : c₀.exec M es = some c) :
    J (know es) c.st ∧ ∀ i, (c.thr i).Tracks V G (Q i) (know es) := by
  refine exec_induction
    (fun past c => J (know past) c.st ∧ ∀ i, (c.thr i).Tracks V G (Q i) (know past)) ⟨h0, hthr⟩ ?_ hrun
  rintro past e c c' - hpast ⟨hJc, htc⟩ hs
  have hle := hmono past e
  -- the threads that the event leaves where they are, and the one it moves
  have hrest : ∀ (j : ι) (q : Prog E α), q.Tracks V G (Q j) (know past) →
      ∀ i, (Function.update c.thr j q i).Tracks V G (Q i) (know (past ++ [e])) := by
    intro j q hq i
    by_cases hij : i = j
    · subst hij
      simpa using hq.mono hle
    · simpa [Function.update_of_ne hij] using (htc i).mono hle
  cases e with
  | run j =>
    obtain ⟨q, s', hq, rfl⟩ := step_run.1 hs
    suffices J (know past) s' ∧ q.Tracks V G (Q j) (know past) from
      ⟨hJ _ _ _ hle this.1, hrest j q this.2⟩
    have hj := htc j
    cases hp : c.thr j with
    | ret a => simp [hp] at hq
    | call cmd k =>
      rw [hp] at hj hq
      obtain ⟨rfl, rfl⟩ := Prod.mk.inj (Option.some.inj hq)
      obtain ⟨hc, hr, -⟩ := hj _ le_rfl
      exact ⟨hG _ _ _ hc hJc, hr _ (hV _ _ _ hJc)⟩
    | exec cmd k =>
      rw [hp] at hj hq
      obtain ⟨rfl, rfl⟩ := Prod.mk.inj (Option.some.inj hq)
      obtain ⟨hc, hr⟩ := hj _ le_rfl
      exact ⟨hG _ _ _ hc hJc, hr _ (hV _ _ _ hJc)⟩
  | fail j =>
    obtain ⟨q, hq, rfl⟩ := Option.map_eq_some_iff.1 hs
    refine ⟨hJ _ _ _ hle hJc, hrest j q ?_⟩
    have hj := htc j
    cases hp : c.thr j with
    | ret a => simp [hp, Prog.fail] at hq
    | call cmd k =>
      rw [hp] at hj hq
      obtain rfl := Option.some.inj hq
      exact (hj _ le_rfl).2.2
    | exec cmd k => simp [hp, Prog.fail] at hq
  | env x =>
    obtain rfl := Option.some.inj hs
    exact ⟨henv past x c hpast hJc, fun i => (htc i).mono hle⟩

omit [DecidableEq ι] in
/-- What a thread that has returned is justified by. -/
theorem tracks_result {c : Conf E S ι α} {i : ι} {Q : H → α → Prop} {x : H}
    (ht : (c.thr i).Tracks V G Q x) {a : α} (ha : (c.thr i).result = some a) : Q x a := by
  rw [Prog.result_eq_some.1 ha] at ht
  exact ht x le_rfl

end Conf

end StreamGate.Lib
