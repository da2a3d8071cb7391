import Mathlib.Data.BitVec
import Mathlib.Data.Finset.Basic
import Mathlib.Data.Finset.Range

/-!
# Words as sets of bits

A machine word stands for the set of the numbers of its set bits.
-/

namespace StreamGate.Lib

variable {w i j : ℕ} {x : BitVec w}

def setBits (x : BitVec w) : Finset ℕ := {i ∈ Finset.range w | x.getLsbD i = true}

theorem mem_setBits : i ∈ setBits x ↔ x.getLsbD i = true := by
  rw [setBits, Finset.mem_filter, Finset.mem_range]
  exact and_iff_right_of_imp BitVec.lt_of_getLsbD

theorem lt_of_mem_setBits (h : i ∈ setBits x) : i < w := BitVec.lt_of_getLsbD (mem_setBits.1 h)

@[simp] theorem setBits_zero : setBits 0#w = ∅ := by
  refine Finset.eq_empty_of_forall_notMem fun i hi => ?_
  simp [mem_setBits] at hi

theorem setBits_eq_empty : setBits x = ∅ ↔ x = 0 := by
  constructor
  · intro h
    refine BitVec.eq_of_getLsbD_eq fun i _ => ?_
    have hi : i ∉ setBits x := by simp [h]
    rw [mem_setBits] at hi
    simpa using hi
  · rintro rfl
    exact setBits_zero

theorem setBits_or_twoPow (x : BitVec w) (hi : i < w) : setBits (x ||| BitVec.twoPow w i) = insert i (setBits x) := by
  ext j
  rw [Finset.mem_insert, mem_setBits, mem_setBits, BitVec.getLsbD_or, BitVec.getLsbD_twoPow, Bool.or_eq_true]
  simp only [hi, decide_true, Bool.true_and, decide_eq_true_eq]
  rw [or_comm, eq_comm]

theorem setBits_and_not_twoPow (x : BitVec w) (i : ℕ) :
    setBits (x &&& ~~~BitVec.twoPow w i) = (setBits x).erase i := by
  ext j
  rw [Finset.mem_erase, mem_setBits, mem_setBits, BitVec.getLsbD_and, BitVec.getLsbD_not, BitVec.getLsbD_twoPow]
  by_cases hj : j < w
  · by_cases hij : i = j
    · simp [hj, hij]
    · have hij' : j ≠ i := Ne.symm hij
      simp [hj, hij, hij']
  · simp [BitVec.getLsbD_of_ge x j (by omega)]

theorem and_twoPow_eq_zero (hi : i < w) : x &&& BitVec.twoPow w i = 0 ↔ i ∉ setBits x := by
  rw [BitVec.and_twoPow, mem_setBits]
  split
  · rename_i h
    refine iff_of_false (fun hzero => ?_) (not_not_intro h)
    have hbit := congrArg (fun y => BitVec.getLsbD y i) hzero
    simp [hi] at hbit
  · rename_i h
    exact iff_of_true rfl h

/-- The lowest set bit. -/
theorem ctz_mem_setBits (h : x ≠ 0) : x.ctz.toNat ∈ setBits x :=
  mem_setBits.2 (BitVec.getLsbD_true_ctz_of_ne_zero h)

/-- To clear a set bit makes the word smaller. -/
theorem toNat_clear_lt (hi : i ∈ setBits x) : (x &&& ~~~BitVec.twoPow w i).toNat < x.toNat := by
  have hle : (x &&& ~~~BitVec.twoPow w i).toNat ≤ x.toNat := by
    rw [BitVec.toNat_and]
    exact Nat.and_le_left
  refine lt_of_le_of_ne hle fun heq => ?_
  have herase := setBits_and_not_twoPow x i
  rw [BitVec.eq_of_toNat_eq heq] at herase
  rw [herase] at hi
  exact Finset.notMem_erase i _ hi

end StreamGate.Lib
