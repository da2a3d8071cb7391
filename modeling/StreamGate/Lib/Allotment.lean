import Mathlib.Data.Finset.Basic
import Mathlib.Logic.Function.Basic

/-!
# Allotments

Resources of which each has at most one owner, and the record of those that have one.
-/

namespace StreamGate.Lib

variable {ι α : Type}

/-- `taken` records what is owned, and nothing is owned twice. -/
structure Allotted (owned : ι → Finset α) (taken : Finset α) : Prop where
  covers : ∀ a, a ∈ taken ↔ ∃ i, a ∈ owned i
  exclusive : ∀ i j a, a ∈ owned i → a ∈ owned j → i = j

namespace Allotted

variable {owned : ι → Finset α} {taken : Finset α}

theorem empty : Allotted (fun _ : ι => (∅ : Finset α)) ∅ := ⟨by simp, by simp⟩

variable [DecidableEq ι] [DecidableEq α]

/-- A resource that no one has is taken. -/
theorem claim (h : Allotted owned taken) (i : ι) {a : α} (ha : a ∉ taken) :
    Allotted (Function.update owned i (insert a (owned i))) (insert a taken) := by
  have hmem : ∀ j b, b ∈ Function.update owned i (insert a (owned i)) j ↔ j = i ∧ b = a ∨ b ∈ owned j := by
    intro j b
    rcases eq_or_ne j i with rfl | hne
    · rw [Function.update_self, Finset.mem_insert, and_iff_right rfl]
    · rw [Function.update_of_ne hne, or_iff_right (fun hb => hne hb.1)]
  have hfree : ∀ j, a ∉ owned j := fun j hj => ha ((h.covers a).2 ⟨j, hj⟩)
  refine ⟨fun b => ?_, fun j j' b hj hj' => ?_⟩
  · rw [Finset.mem_insert, h.covers b]
    constructor
    · rintro (rfl | ⟨j, hj⟩)
      · exact ⟨i, (hmem i b).2 (.inl ⟨rfl, rfl⟩)⟩
      · exact ⟨j, (hmem j b).2 (.inr hj)⟩
    · rintro ⟨j, hj⟩
      exact ((hmem j b).1 hj).imp And.right fun hj => ⟨j, hj⟩
  · rcases (hmem j b).1 hj with ⟨hj, hb⟩ | hb <;> rcases (hmem j' b).1 hj' with ⟨hj', hb'⟩ | hb'
    · rw [hj, hj']
    · exact absurd (hb ▸ hb') (hfree j')
    · exact absurd (hb' ▸ hb) (hfree j)
    · exact h.exclusive j j' b hb hb'

/-- Its owner gives a resource back. -/
theorem free (h : Allotted owned taken) {i : ι} {a : α} (ha : a ∈ owned i) :
    Allotted (Function.update owned i ((owned i).erase a)) (taken.erase a) := by
  have hmem : ∀ j b, b ∈ Function.update owned i ((owned i).erase a) j ↔ b ≠ a ∧ b ∈ owned j := by
    intro j b
    rcases eq_or_ne j i with rfl | hne
    · rw [Function.update_self, Finset.mem_erase]
    · rw [Function.update_of_ne hne]
      refine (and_iff_right_of_imp fun hj => ?_).symm
      rintro rfl
      exact hne (h.exclusive j i b hj ha)
  refine ⟨fun b => ?_, fun j j' b hj hj' => ?_⟩
  · rw [Finset.mem_erase, h.covers b]
    constructor
    · rintro ⟨hb, j, hj⟩
      exact ⟨j, (hmem j b).2 ⟨hb, hj⟩⟩
    · rintro ⟨j, hj⟩
      exact ⟨((hmem j b).1 hj).1, j, ((hmem j b).1 hj).2⟩
  · exact h.exclusive j j' b ((hmem j b).1 hj).2 ((hmem j' b).1 hj').2

end Allotted

/-- What an owner may do in one step: nothing, claim a resource that no one has, or give one back. -/
inductive Moves [DecidableEq α] (mine taken : Finset α) : Finset α → Finset α → Prop
  | keep : Moves mine taken mine taken
  | claim {a : α} (ha : a ∉ taken) : Moves mine taken (insert a mine) (insert a taken)
  | free {a : α} (ha : a ∈ mine) : Moves mine taken (mine.erase a) (taken.erase a)

theorem Allotted.moves [DecidableEq ι] [DecidableEq α] {owned : ι → Finset α} {taken mine' taken' : Finset α}
    (h : Allotted owned taken) {i : ι} (hm : Moves (owned i) taken mine' taken') :
    Allotted (Function.update owned i mine') taken' := by
  cases hm with
  | keep =>
    rw [Function.update_eq_self]
    exact h
  | claim ha => exact h.claim i ha
  | free ha => exact h.free ha

end StreamGate.Lib
