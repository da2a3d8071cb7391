import Mathlib.Data.Nat.Notation

/-!
# Checks in a row

The elements of a list are checked one after the other, each with its index, up to the first check that throws.
-/

namespace StreamGate.Lib

variable {ε α : Type}

/-- The loop over the elements from index `i` on. -/
def checkFrom (check : ℕ → α → Except ε Unit) (i : ℕ) : List α → Except ε Unit
  | [] => .ok ()
  | a :: as =>
    match check i a with
    | .error e => .error e
    | .ok _ => checkFrom check (i + 1) as

variable {check : ℕ → α → Except ε Unit} {i : ℕ} {a : α} {as : List α} {e : ε}

@[simp] theorem checkFrom_nil : checkFrom check i [] = .ok () := rfl

end StreamGate.Lib
