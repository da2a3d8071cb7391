import Mathlib.Algebra.Order.Group.Int
import Mathlib.Algebra.Group.Nat.Defs
import Mathlib.Algebra.GroupWithZero.Nat
import Mathlib.Data.List.Basic

/-!
# Counters

A list of parties of which one moves at a time, with how many of them are in a place; and counters of a fixed
width, as images of the integers they stand for.
-/

namespace StreamGate.Lib

/-! ### How many of a list -/

section Places

variable {α : Type} (P : α → Bool)

/-- One member changes. -/
theorem countP_set_add {l : List α} {k : ℕ} {a b : α} (h : l[k]? = some a) :
    (l.set k b).countP P + (P a).toNat = l.countP P + (P b).toNat := by
  induction l generalizing k with
  | nil => simp at h
  | cons x l ih =>
    cases k with
    | zero =>
      obtain rfl : x = a := by simpa using h
      rw [List.set_cons_zero, List.countP_cons, List.countP_cons]
      cases P x <;> cases P b <;> simp
    | succ k =>
      have := @ih k (by simpa using h)
      rw [List.set_cons_succ, List.countP_cons, List.countP_cons]
      omega

/-- The same for a sum over the members. -/
theorem sum_set_add (f : α → ℕ) {l : List α} {k : ℕ} {a b : α} (h : l[k]? = some a) :
    ((l.set k b).map f).sum + f a = (l.map f).sum + f b := by
  induction l generalizing k with
  | nil => simp at h
  | cons x l ih =>
    cases k with
    | zero =>
      obtain rfl : x = a := by simpa using h
      rw [List.set_cons_zero, List.map_cons, List.map_cons, List.sum_cons, List.sum_cons]
      omega
    | succ k =>
      have := @ih k (by simpa using h)
      rw [List.set_cons_succ, List.map_cons, List.map_cons, List.sum_cons, List.sum_cons]
      omega

theorem sum_map_le {f : α → ℕ} {c : ℕ} (h : ∀ a, f a ≤ c) (l : List α) : (l.map f).sum ≤ c * l.length := by
  induction l with
  | nil => exact Nat.le_refl _
  | cons x l ih =>
    have := h x
    rw [List.map_cons, List.sum_cons, List.length_cons, Nat.mul_succ]
    omega

/-- What holds of every member, and of the one that comes instead, holds afterwards. -/
theorem forall_set {Q : ℕ → α → Prop} {l : List α} {k : ℕ} {b : α} (h : ∀ j a, j ≠ k → l[j]? = some a → Q j a)
    (hb : Q k b) {j : ℕ} {a : α} (hj : (l.set k b)[j]? = some a) : Q j a := by
  by_cases hjk : j = k
  · subst hjk
    rw [List.getElem?_set] at hj
    split at hj
    · split at hj
      · obtain rfl := Option.some.inj hj
        exact hb
      · cases hj
    · exact absurd rfl ‹_›
  · rw [List.getElem?_set_ne (Ne.symm hjk)] at hj
    exact h j a hjk hj

/-- The same for one more member at the end. -/
theorem forall_append {Q : ℕ → α → Prop} {l : List α} {b : α} (h : ∀ j a, l[j]? = some a → Q j a)
    (hb : Q l.length b) {j : ℕ} {a : α} (hj : (l ++ [b])[j]? = some a) : Q j a := by
  rw [List.getElem?_append] at hj
  split at hj
  · exact h j a hj
  · rename_i hlt
    rcases Nat.lt_or_ge (j - l.length) 1 with h1 | h1
    · have hjl : j = l.length := by omega
      subst hjl
      obtain rfl : b = a := by simpa using hj
      exact hb
    · rw [List.getElem?_eq_none (by simpa using h1)] at hj
      cases hj

end Places

/-! ### Counters of 32 bits -/

theorem ofInt_add_one (n : ℤ) : Int32.ofInt n + 1 = Int32.ofInt (n + 1) := (Int32.ofInt_add n 1).symm

theorem ofInt_sub_one (n : ℤ) : Int32.ofInt n - 1 = Int32.ofInt (n - 1) := (Int32.ofInt_sub n 1).symm

theorem ofInt_sub_two (n : ℤ) : Int32.ofInt n - 1 - 1 = Int32.ofInt (n - 2) := by
  rw [ofInt_sub_one, ofInt_sub_one, Int.sub_sub]
  rfl

/-- The image of what is too large by less than `2 ^ 32`. -/
theorem toInt_ofInt_of_ge {x : ℤ} (h : 2 ^ 31 ≤ x) (hx : x < 2 ^ 32) : (Int32.ofInt x).toInt = x - 2 ^ 32 := by
  have hwrap : Int32.ofInt (x - 2 ^ 32) = Int32.ofInt x := by
    rw [Int32.ofInt_sub, show Int32.ofInt (2 ^ 32) = 0 from rfl, Int32.sub_zero]
  rw [← hwrap, Int32.toInt_ofInt_of_le (by omega) (by omega)]

/-- Two integers that are less than `2 ^ 32` apart and have the same image are equal. -/
theorem eq_of_ofInt_eq {x y : ℤ} (h : Int32.ofInt x = Int32.ofInt y) (hlt : x - y < 2 ^ 32)
    (hgt : y - x < 2 ^ 32) : x = y := by
  have hmod := congrArg Int32.toInt h
  rw [Int32.toInt_ofInt, Int32.toInt_ofInt, Int.bmod_eq_bmod_iff_bmod_sub_eq_zero, ← Int.dvd_iff_bmod_eq_zero] at hmod
  obtain ⟨q, hq⟩ := hmod
  rw [Int32.size] at hq
  omega

end StreamGate.Lib
