import StreamGate.Lib.Interleave

/-!
# Programs under interference

`wp h R p Q s`: the program `p`, started at `s`, ends in `Q` whatever of its commands fail, if
between any two of its commands the state moves only along the relation `R`.  The rules follow the
program (`wp_bind`, `Leaves.wp`, `Obeys.wp`, `Upto.wp`).  `Conf.exec_wp` is the connection to
interleavings: a thread keeps its `wp` while the steps of the others stay within `R`.
-/

namespace StreamGate.Lib

variable {E : Iface} {S α β : Type}

namespace Prog

section Rules

variable (h : (c : E.Cmd) → S → E.Reply c × S) (R : S → S → Prop)

/-- Every result under interference `R`, together with the state in which it is seen,
satisfies `Q`. -/
def wp : Prog E α → (α → S → Prop) → S → Prop
  | ret a, Q, s => ∀ s', R s s' → Q a s'
  | call c k, Q, s => ∀ s', R s s' → wp (k (some (h c s').1)) Q (h c s').2 ∧ wp (k none) Q s'
  | exec c k, Q, s => ∀ s', R s s' → wp (k (h c s').1) Q (h c s').2

variable {h R}

theorem wp_mono {Q Q' : α → S → Prop} (hQ : ∀ a s, Q a s → Q' a s) {p : Prog E α} {s : S}
    (hp : wp h R p Q s) : wp h R p Q' s := by
  induction p generalizing s with
  | ret a => exact fun s' hs => hQ a s' (hp s' hs)
  | call c k ih => exact fun s' hs => ⟨ih _ (hp s' hs).1, ih _ (hp s' hs).2⟩
  | exec c k ih => exact fun s' hs => ih _ (hp s' hs)

/-- Sequential composition: the second program starts where the first ends. -/
theorem wp_bind (hrefl : ∀ s, R s s) {Q : β → S → Prop} {p : Prog E α} {f : α → Prog E β} {s : S}
    (hp : wp h R p (fun a s => wp h R (f a) Q s) s) : wp h R (p >>= f) Q s := by
  induction p generalizing s with
  | ret a => exact hp s (hrefl s)
  | call c k ih => exact fun s' hs => ⟨ih _ (hp s' hs).1, ih _ (hp s' hs).2⟩
  | exec c k ih => exact fun s' hs => ih _ (hp s' hs)

/-- Interference before the first command. -/
theorem wp_stable (htrans : ∀ s s' s'', R s s' → R s' s'' → R s s'') {Q : α → S → Prop}
    {p : Prog E α} {s s' : S} (hp : wp h R p Q s) (hs : R s s') : wp h R p Q s' := by
  cases p with
  | ret a => exact fun s'' hs' => hp s'' (htrans _ _ _ hs hs')
  | call c k => exact fun s'' hs' => hp s'' (htrans _ _ _ hs hs')
  | exec c k => exact fun s'' hs' => hp s'' (htrans _ _ _ hs hs')

/-- What every possible result satisfies. -/
theorem Leaves.wp {P : α → Prop} {Q : α → S → Prop} {p : Prog E α} (hp : p.Leaves P)
    (hQ : ∀ a s, P a → Q a s) (s : S) : p.wp h R Q s := by
  induction p generalizing s with
  | ret a => exact fun s' _ => hQ a s' hp
  | call c k ih => exact fun s' _ => ⟨ih _ (hp _) _, ih _ (hp _) _⟩
  | exec c k ih => exact fun s' _ => ih _ (hp _) _

/-- One command of a program, served or failed. -/
theorem wp_next (hrefl : ∀ s, R s s) {Q : α → S → Prop} {p q : Prog E α} {s s' : S}
    (hp : wp h R p Q s) (hn : p.next h s = some (q, s')) : wp h R q Q s' := by
  cases p with
  | ret a => simp at hn
  | call c k =>
    obtain ⟨rfl, rfl⟩ := Prod.mk.inj (Option.some.inj hn)
    exact (hp s (hrefl s)).1
  | exec c k =>
    obtain ⟨rfl, rfl⟩ := Prod.mk.inj (Option.some.inj hn)
    exact hp s (hrefl s)

theorem wp_fail (hrefl : ∀ s, R s s) {Q : α → S → Prop} {p q : Prog E α} {s : S}
    (hp : wp h R p Q s) (hn : p.fail = some q) : wp h R q Q s := by
  cases p with
  | ret a => simp [fail] at hn
  | call c k =>
    obtain rfl := Option.some.inj hn
    exact (hp s (hrefl s)).2
  | exec c k => simp [fail] at hn

/-- A program whose first part only reads: what is left after it needs to be known only for the
states that the interference can lead to. -/
theorem Upto.wp {D : E.Cmd → Prop} {I : S → Prop} {Q : α → S → Prop} (hD : ∀ c s, D c → (h c s).2 = s)
    (hI : ∀ s s', R s s' → I s → I s') {p : Prog E α}
    (hp : p.Upto D fun p => ∀ s, I s → p.wp h R Q s) {s : S} (hs : I s) : p.wp h R Q s := by
  induction p generalizing s with
  | ret a => exact hp s hs
  | call c k ih =>
    by_cases hc : D c
    · intro s' hs'
      have hs'' := hI s s' hs' hs
      exact ⟨by rw [hD c s' hc]; exact ih _ (hp.1 hc _) hs'', ih _ (hp.1 hc _) hs''⟩
    · exact hp.2 hc s hs
  | exec c k ih =>
    by_cases hc : D c
    · intro s' hs'
      rw [hD c s' hc]
      exact ih _ (hp.1 hc _) (hI s s' hs' hs)
    · exact hp.2 hc s hs

/-- What the commands of the program and the interference keep, the program keeps. -/
theorem Obeys.wp {V : (c : E.Cmd) → E.Reply c → Prop} {G : E.Cmd → Prop} {J : S → Prop}
    (hG : ∀ c s, G c → J s → J (h c s).2) (hV : ∀ c s, J s → V c (h c s).1)
    (hR : ∀ s s', R s s' → J s → J s') {p : Prog E α} (hp : p.Obeys V G) {s : S} (hs : J s) :
    p.wp h R (fun _ s => J s) s := by
  induction p generalizing s with
  | ret a => exact fun s' hs' => hR s s' hs' hs
  | call c k ih =>
    intro s' hs'
    have hJ := hR s s' hs' hs
    exact ⟨ih _ (hp.2.1 _ (hV c s' hJ)) (hG c s' hp.1 hJ), ih _ hp.2.2 hJ⟩
  | exec c k ih =>
    intro s' hs'
    have hJ := hR s s' hs' hs
    exact ih _ (hp.2 _ (hV c s' hJ)) (hG c s' hp.1 hJ)

end Rules

end Prog

/-! ### Threads -/

namespace Conf

variable {Env ι : Type} [DecidableEq ι] {M : Machine E S Env}

/-- **A thread among others.**  As long as every event that is not one of the thread `i` moves the state along `R`, the
thread keeps its `wp`. -/
theorem exec_wp {R : S → S → Prop} {c fin : Conf E S ι α} {es : List (Ev ι Env)} {i : ι} {Q : α → S → Prop}
    (hrefl : ∀ s, R s s) (htrans : ∀ s s' s'', R s s' → R s' s'' → R s s'')
    (hrely : ∀ past e m m', past ++ [e] <+: es → c.exec M past = some m → ¬ EventOf i e → m.step M e = some m' →
      R m.st m'.st)
    (hwp : (c.thr i).wp M.handle R Q c.st) (hrun : c.exec M es = some fin) :
    (fin.thr i).wp M.handle R Q fin.st := by
  refine exec_induction (fun _ d => (d.thr i).wp M.handle R Q d.st) hwp ?_ hrun
  intro past e d d' hpre hpast hd hstep
  by_cases he : EventOf i e
  · rcases he with rfl | rfl
    · obtain ⟨q, s', hq, rfl⟩ := step_run.1 hstep
      simpa using Prog.wp_next hrefl hd hq
    · obtain ⟨q, hq, rfl⟩ := Option.map_eq_some_iff.1 hstep
      simpa using Prog.wp_fail hrefl hd hq
  · rw [step_not_eventOf he hstep]
    exact Prog.wp_stable htrans hd (hrely past e d d' hpre hpast he hstep)

omit [DecidableEq ι] in
/-- What a thread that has returned ends in. -/
theorem wp_result {R : S → S → Prop} {fin : Conf E S ι α} {i : ι} {Q : α → S → Prop}
    (hrefl : ∀ s, R s s) (hwp : (fin.thr i).wp M.handle R Q fin.st) {a : α}
    (ha : (fin.thr i).result = some a) : Q a fin.st := by
  rw [Prog.result_eq_some.1 ha] at hwp
  exact hwp fin.st (hrefl _)

end Conf

end StreamGate.Lib
