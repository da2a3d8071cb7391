import Mathlib.Data.List.Basic
import Mathlib.Data.List.DropRight
import Mathlib.Data.List.TakeWhile
import Mathlib.Logic.Function.Basic

/-!
# Assignments, separators and blanks

Maps that are made by assignments one after the other, of which the last to a key counts, lists that are split at a
separator, and lists that lose what is blank at their ends.
-/

namespace StreamGate.Lib

/-! ### Assignments -/

section Assign

variable {κ ν : Type} [DecidableEq κ]

/-- A map after assignments. -/
def assign (as : List (κ × ν)) (m : κ → Option ν) : κ → Option ν :=
  as.foldl (fun m a => Function.update m a.1 (some a.2)) m

/-- The value of the last assignment to a key. -/
def lastAssigned (as : List (κ × ν)) (k : κ) : Option ν := (as.reverse.find? fun a => a.1 = k).map Prod.snd

@[simp] theorem assign_nil (m : κ → Option ν) : assign [] m = m := rfl

@[simp] theorem assign_cons (a : κ × ν) (as : List (κ × ν)) (m : κ → Option ν) :
    assign (a :: as) m = assign as (Function.update m a.1 (some a.2)) := rfl

@[simp] theorem lastAssigned_nil (k : κ) : lastAssigned ([] : List (κ × ν)) k = none := rfl

theorem lastAssigned_append (as bs : List (κ × ν)) (k : κ) :
    lastAssigned (as ++ bs) k = (lastAssigned bs k).or (lastAssigned as k) := by
  unfold lastAssigned
  rw [List.reverse_append, List.find?_append, Option.map_or]

theorem lastAssigned_cons (a : κ × ν) (as : List (κ × ν)) (k : κ) :
    lastAssigned (a :: as) k = (lastAssigned as k).or (if a.1 = k then some a.2 else none) := by
  have h := lastAssigned_append [a] as k
  rw [List.singleton_append] at h
  rw [h]
  congr 1
  by_cases ha : a.1 = k
  · simp [lastAssigned, ha]
  · simp [lastAssigned, ha]

/-- **The last assignment counts**, and where there is none the map is as it was. -/
theorem assign_apply (as : List (κ × ν)) (m : κ → Option ν) (k : κ) :
    assign as m k = (lastAssigned as k).or (m k) := by
  induction as generalizing m with
  | nil => rfl
  | cons a as ih =>
    rw [assign_cons, ih, lastAssigned_cons, Option.or_assoc]
    congr 1
    by_cases ha : a.1 = k
    · subst ha
      rw [Function.update_self, if_pos rfl]
      rfl
    · rw [Function.update_of_ne (Ne.symm ha), if_neg ha]
      rfl

theorem lastAssigned_eq_none {as : List (κ × ν)} {k : κ} (h : ∀ a ∈ as, a.1 ≠ k) : lastAssigned as k = none := by
  unfold lastAssigned
  rw [Option.map_eq_none_iff, List.find?_eq_none]
  intro a ha
  simpa using h a (List.mem_reverse.1 ha)

end Assign

/-! ### Separators -/

section Split

variable {α : Type} [DecidableEq α] {a c : α} {l : List α}

@[simp] theorem splitOn_nil : ([] : List α).splitOn a = [[]] := by
  rw [List.splitOn_eq_splitOnP, List.splitOnP_eq_singleton (by simp)]

theorem splitOn_ne_nil : l.splitOn a ≠ [] := by
  rw [List.splitOn_eq_splitOnP]
  exact List.splitOnP_ne_nil _ _

/-- A list without the separator is one piece. -/
theorem splitOn_of_not_mem (h : a ∉ l) : l.splitOn a = [l] := by
  rw [List.splitOn_eq_splitOnP]
  refine List.splitOnP_eq_singleton fun x hx => ?_
  rw [beq_eq_false_iff_ne]
  rintro rfl
  exact h hx

/-- The pieces on both sides of a separator. -/
theorem splitOn_append_cons (l l' : List α) : (l ++ a :: l').splitOn a = l.splitOn a ++ l'.splitOn a := by
  rw [List.splitOn_eq_splitOnP, List.splitOn_eq_splitOnP, List.splitOn_eq_splitOnP]
  exact List.splitOnP_append_cons l l' (beq_self_eq_true a)

/-- The pieces have the elements of the list but for the separators. -/
theorem exists_mem_splitOn : (∃ piece ∈ l.splitOn a, c ∈ piece) ↔ c ∈ l ∧ c ≠ a := by
  induction l with
  | nil => simp
  | cons x l ih =>
    rw [List.splitOn_eq_splitOnP] at ih ⊢
    rw [List.splitOnP_cons_eq_if_modifyHead]
    obtain ⟨piece, pieces, hl⟩ := List.exists_cons_of_ne_nil (List.splitOnP_ne_nil (· == a) l)
    rw [hl] at ih ⊢
    by_cases hx : x = a
    · subst hx
      simp only [beq_self_eq_true, if_true]
      rw [List.exists_mem_cons_iff, ih]
      simp only [List.not_mem_nil, false_or, List.mem_cons]
      exact ⟨fun h => ⟨.inr h.1, h.2⟩, fun h => ⟨h.1.resolve_left h.2, h.2⟩⟩
    · rw [if_neg (by simpa using hx), List.modifyHead_cons]
      rw [List.exists_mem_cons_iff] at ih
      rw [List.exists_mem_cons_iff, List.mem_cons, or_assoc, ih, List.mem_cons]
      constructor
      · rintro (rfl | h)
        · exact ⟨.inl rfl, hx⟩
        · exact ⟨.inr h.1, h.2⟩
      · rintro ⟨rfl | h, hc⟩
        · exact .inl rfl
        · exact .inr ⟨h, hc⟩

/-- Up to the first separator, and from there on. -/
theorem takeWhile_ne_append (h : a ∉ l) (l' : List α) :
    (l ++ a :: l').takeWhile (· ≠ a) = l ∧ (l ++ a :: l').dropWhile (· ≠ a) = a :: l' := by
  have hall : ∀ x ∈ l, decide (x ≠ a) = true := by
    intro x hx
    rw [decide_eq_true_eq]
    rintro rfl
    exact h hx
  rw [List.takeWhile_append_of_pos hall, List.dropWhile_append_of_pos hall]
  simp

theorem takeWhile_ne_of_not_mem (h : a ∉ l) : l.takeWhile (· ≠ a) = l ∧ l.dropWhile (· ≠ a) = [] := by
  have hall : ∀ x ∈ l, decide (x ≠ a) = true := by
    intro x hx
    rw [decide_eq_true_eq]
    rintro rfl
    exact h hx
  exact ⟨List.takeWhile_eq_self_iff.2 hall, List.dropWhile_eq_nil_iff.2 hall⟩

end Split

/-! ### Blanks -/

section Blanks

variable {α : Type} {p : α → Bool} {a : α} {l w : List α}

theorem dropWhile_append_of_blank (hw : ∀ x ∈ w, p x = true) (hl : ∀ x ∈ l.head?, p x = false) :
    (w ++ l).dropWhile p = l := by
  rw [List.dropWhile_append_of_pos hw]
  cases l with
  | nil => rfl
  | cons x l => rw [List.dropWhile_cons_of_neg (by simp [hl x (by simp)])]

theorem rdropWhile_append_of_blank (hw : ∀ x ∈ w, p x = true) (hl : ∀ x ∈ l.getLast?, p x = false) :
    (l ++ w).rdropWhile p = l := by
  have hrev : ∀ x ∈ w.reverse, p x = true := fun x hx => hw x (List.mem_reverse.1 hx)
  rw [List.rdropWhile, List.reverse_append, dropWhile_append_of_blank hrev, List.reverse_reverse]
  rwa [List.head?_reverse]

/-- What is not blank stops the end. -/
theorem rdropWhile_append_cons (ha : p a = false) (l l' : List α) :
    (l ++ a :: l').rdropWhile p = l ++ a :: l'.rdropWhile p := by
  induction l' using List.reverseRecOn with
  | nil =>
    rw [List.rdropWhile_nil]
    exact List.rdropWhile_concat_neg p l a (by simp [ha])
  | append_singleton l' x ih =>
    have happend : l ++ a :: (l' ++ [x]) = (l ++ a :: l') ++ [x] := by simp
    rw [happend, List.rdropWhile_concat, List.rdropWhile_concat]
    split
    · exact ih
    · simp

end Blanks

end StreamGate.Lib
