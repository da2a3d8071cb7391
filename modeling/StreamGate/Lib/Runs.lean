/-!
# Sequential runs

Operations applied one after the other, and the rule for properties of all states that runs reach:
a property that holds at the start, and that every operation keeps under a condition on the state
it finds, holds at the end of every run along which the condition is met.  Operations that may be
refused have runs too (`tries`): those in which none is.
-/

namespace StreamGate.Lib

variable {S O : Type}

/-- A run: the operations one after the other. -/
def runs (step : O → S → S) (os : List O) (s : S) : S := os.foldl (fun s o => step o s) s

/-- Every operation of a run meets the condition `C` in the state it finds. -/
def Along (step : O → S → S) (C : S → O → Prop) : List O → S → Prop
  | [], _ => True
  | o :: os, s => C s o ∧ Along step C os (step o s)

variable {step : O → S → S} {C : S → O → Prop}

@[simp] theorem runs_nil (s : S) : runs step [] s = s := rfl

@[simp] theorem runs_cons (o : O) (os : List O) (s : S) :
    runs step (o :: os) s = runs step os (step o s) := rfl

theorem runs_append (os os' : List O) (s : S) :
    runs step (os ++ os') s = runs step os' (runs step os s) := List.foldl_append

/-- What every operation keeps. -/
theorem runs_inv {I : S → Prop} (hstep : ∀ s o, I s → I (step o s)) {os : List O} {s : S} (hs : I s) :
    I (runs step os s) := by
  induction os generalizing s with
  | nil => exact hs
  | cons o os ih => exact ih (hstep s o hs)

/-- **Invariants of runs.** -/
theorem Along.inv {I : S → Prop} (hstep : ∀ s o, I s → C s o → I (step o s)) {os : List O} {s : S}
    (h : Along step C os s) (hs : I s) : I (runs step os s) := by
  induction os generalizing s with
  | nil => exact hs
  | cons o os ih => exact ih h.2 (hstep s o hs h.1)

/-- **Simulation.**  Two systems do the same operations, and every operation keeps the relation between their states
under the condition on the first. -/
theorem Along.sim {T : Type} {step' : O → T → T} {R : S → T → Prop}
    (hstep : ∀ s t o, R s t → C s o → R (step o s) (step' o t)) {os : List O} {s : S} {t : T} (h : Along step C os s)
    (hs : R s t) : R (runs step os s) (runs step' os t) := by
  induction os generalizing s t with
  | nil => exact hs
  | cons o os ih => exact ih h.2 (hstep s t o hs h.1)

theorem Along.of_append {os os' : List O} {s : S} (h : Along step C (os ++ os') s) :
    Along step C os s ∧ Along step C os' (runs step os s) := by
  induction os generalizing s with
  | nil => exact ⟨trivial, h⟩
  | cons o os ih =>
    obtain ⟨h1, h2⟩ := ih h.2
    exact ⟨⟨h.1, h1⟩, h2⟩

/-- **A condition that is exact.**  If every operation keeps `I` exactly under the condition it meets,
then `I` holds in all states of a run exactly if all its operations meet the condition. -/
theorem Along.iff_inv {I : S → Prop} (hstep : ∀ s o, I s → (I (step o s) ↔ C s o)) {os : List O} {s : S}
    (hs : I s) : Along step C os s ↔ ∀ pre, pre <+: os → I (runs step pre s) := by
  induction os generalizing s with
  | nil =>
    constructor
    · rintro - pre hpre
      obtain rfl := List.prefix_nil.1 hpre
      exact hs
    · exact fun _ => trivial
  | cons o os ih =>
    constructor
    · rintro ⟨ho, h⟩ pre hpre
      cases pre with
      | nil => exact hs
      | cons o' pre =>
        obtain ⟨rfl, htail⟩ := List.cons_prefix_cons.1 hpre
        exact (ih ((hstep s o' hs).2 ho)).1 h pre htail
    · intro h
      have ho : I (step o s) := h [o] ⟨os, rfl⟩
      refine ⟨(hstep s o hs).1 ho, (ih ho).2 fun pre hpre => ?_⟩
      exact h (o :: pre) (List.cons_prefix_cons.2 ⟨rfl, hpre⟩)

/-! ### Operations that may be refused -/

/-- A run of operations none of which is refused. -/
def tries (step : O → S → Option S) (os : List O) (s : S) : Option S :=
  os.foldlM (fun s o => step o s) s

section Tries

variable {step : O → S → Option S}

@[simp] theorem tries_nil (s : S) : tries step [] s = some s := rfl

theorem tries_cons_eq_some {o : O} {os : List O} {s s' : S} :
    tries step (o :: os) s = some s' ↔ ∃ m, step o s = some m ∧ tries step os m = some s' := by
  rw [tries, List.foldlM_cons]
  exact Option.bind_eq_some_iff

theorem tries_append_eq_some {os os' : List O} {s s' : S} :
    tries step (os ++ os') s = some s' ↔ ∃ m, tries step os s = some m ∧ tries step os' m = some s' := by
  rw [tries, List.foldlM_append]
  exact Option.bind_eq_some_iff

/-- **Invariants of such runs.** -/
theorem tries_inv {I : S → Prop} (hstep : ∀ s o s', I s → step o s = some s' → I s') {os : List O}
    {s s' : S} (h : tries step os s = some s') (hs : I s) : I s' := by
  induction os generalizing s with
  | nil =>
    obtain rfl := Option.some.inj h
    exact hs
  | cons o os ih =>
    obtain ⟨m, hm, h⟩ := tries_cons_eq_some.1 h
    exact ih h (hstep s o m hs hm)

/-- What the operations of a run keep, each of which meets a condition. -/
theorem tries_inv_of_forall {I : S → Prop} {D : O → Prop} (hstep : ∀ s o s', D o → I s → step o s = some s' → I s')
    {os : List O} (hos : ∀ o ∈ os, D o) {s s' : S} (h : tries step os s = some s') (hs : I s) : I s' := by
  induction os generalizing s with
  | nil =>
    obtain rfl := Option.some.inj h
    exact hs
  | cons o os ih =>
    obtain ⟨m, hm, h⟩ := tries_cons_eq_some.1 h
    obtain ⟨ho, hos⟩ := List.forall_mem_cons.1 hos
    exact ih hos h (hstep s o m ho hs hm)

/-- A run of operations that are refused less often. -/
theorem tries_mono {step' : O → S → Option S} (hstep : ∀ s o s', step o s = some s' → step' o s = some s') {os : List O}
    {s s' : S} (h : tries step os s = some s') : tries step' os s = some s' := by
  induction os generalizing s with
  | nil => exact h
  | cons o os ih =>
    obtain ⟨m, hm, h⟩ := tries_cons_eq_some.1 h
    exact tries_cons_eq_some.2 ⟨m, hstep s o m hm, ih h⟩

/-- Invariants that speak of the operations so far as well. -/
theorem tries_history {I : List O → S → Prop}
    (hstep : ∀ os s o s', I os s → step o s = some s' → I (os ++ [o]) s') {os : List O} {s s' : S}
    (h : tries step os s = some s') (hs : I [] s) : I os s' := by
  have hrun : ∀ (os pre : List O) (s : S), I pre s → tries step os s = some s' → I (pre ++ os) s' := by
    intro os
    induction os with
    | nil =>
      intro pre s hs h
      obtain rfl := Option.some.inj h
      rw [List.append_nil]
      exact hs
    | cons o os ih =>
      intro pre s hs h
      obtain ⟨m, hm, h⟩ := tries_cons_eq_some.1 h
      have := ih (pre ++ [o]) m (hstep pre s o m hs hm) h
      rwa [List.append_assoc] at this
  exact hrun os [] s hs h

/-- What the operations add together. -/
def gains (g : O → Nat) : List O → Nat
  | [] => 0
  | o :: os => g o + gains g os

theorem gains_zero (os : List O) : gains (fun _ => 0) os = 0 := by
  induction os with
  | nil => rfl
  | cons o os ih => rw [gains, ih]

/-- The same gain for every operation that is not of a kind. -/
theorem gains_ite (A : O → Bool) (c : Nat) (os : List O) :
    gains (fun o => if A o then 0 else c) os = c * os.countP (fun o => !A o) := by
  induction os with
  | nil => rfl
  | cons o os ih =>
    rw [gains, ih, List.countP_cons]
    cases A o <;> simp [Nat.mul_add, Nat.add_comm]

/-- **Counting steps.**  If the operations of the kind `A` use up some of `μ`, and every operation `o` adds at
most `g o`, then a run has no more operations of that kind than `μ` and the gains allow. -/
theorem tries_count {I : S → Prop} {μ : S → Nat} {A : O → Bool} {g : O → Nat}
    (hinv : ∀ s o s', I s → step o s = some s' → I s')
    (huse : ∀ s o s', I s → step o s = some s' → A o = true → μ s' + 1 ≤ μ s)
    (hgain : ∀ s o s', I s → step o s = some s' → A o = false → μ s' ≤ μ s + g o) {os : List O} {s s' : S}
    (h : tries step os s = some s') (hs : I s) : os.countP A + μ s' ≤ μ s + gains g os := by
  induction os generalizing s with
  | nil =>
    obtain rfl := Option.some.inj h
    exact Nat.le_of_eq (Nat.zero_add (μ s))
  | cons o os ih =>
    obtain ⟨m, hm, h⟩ := tries_cons_eq_some.1 h
    have hrest := ih h (hinv s o m hs hm)
    rw [List.countP_cons, gains]
    cases hA : A o with
    | true =>
      have := huse s o m hs hm hA
      simp only [if_true]
      omega
    | false =>
      have := hgain s o m hs hm hA
      simp only [Bool.false_eq_true, if_false]
      omega

/-- **Counting steps until something is done.**  Until `D` holds, and it holds for ever then, the operations of the
kind `A` use up some of `μ`, and the others add nothing. -/
theorem tries_count_until {I D : S → Prop} {μ : S → Nat} {A : O → Bool}
    (hstep : ∀ s o s', I s → step o s = some s' → D s' ∨ (I s' ∧ μ s' + (A o).toNat ≤ μ s))
    (hdone : ∀ s o s', D s → step o s = some s' → D s') {os : List O} {s s' : S} (h : tries step os s = some s')
    (hs : I s) : D s' ∨ (I s' ∧ os.countP A + μ s' ≤ μ s) := by
  induction os generalizing s with
  | nil =>
    obtain rfl := Option.some.inj h
    exact .inr ⟨hs, Nat.le_of_eq (Nat.zero_add (μ s))⟩
  | cons o os ih =>
    obtain ⟨m, hm, h⟩ := tries_cons_eq_some.1 h
    rcases hstep s o m hs hm with hD | ⟨hI, hle⟩
    · exact .inl (tries_inv hdone h hD)
    · rcases ih h hI with hD | ⟨hI', hrest⟩
      · exact .inl hD
      · refine .inr ⟨hI', ?_⟩
        have hcount : (o :: os).countP A = os.countP A + (A o).toNat := by
          rw [List.countP_cons]
          cases A o <;> rfl
        omega

end Tries

end StreamGate.Lib
