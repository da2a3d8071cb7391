import Mathlib.Data.List.TakeWhile
import Mathlib.Algebra.Order.Group.Int
import Mathlib.Algebra.Group.Nat.Defs

/-!
# Decimal text

`std::to_string` and the parsers `std::stoi`, `std::stoll` and `std::stoull`.  The parsers skip
leading white space, take an optional sign and then as many digits as there are; what follows the
digits is ignored.  They fail without a digit and outside the range of their type.  `stoull` takes
a minus sign too and negates modulo `2 ^ 64`.
-/

namespace StreamGate.Lib.Decimal

/-- `std::to_string` of an integer. -/
def to_string (z : ℤ) : String := z.repr

/-- `isspace` in the C locale. -/
def isSpace (c : Char) : Bool :=
  c = ' ' || c = '\t' || c = '\n' || c = '\r' || c = '\x0b' || c = '\x0c'

/-- The optional sign: whether it is a minus, and what follows. -/
def splitSign : List Char → Bool × List Char
  | '-' :: cs => (true, cs)
  | '+' :: cs => (false, cs)
  | cs => (false, cs)

/-- The sign and the magnitude at the head of a text, if there is a digit. -/
def parse (s : String) : Option (Bool × ℕ) :=
  let cs := splitSign (s.toList.dropWhile isSpace)
  let ds := cs.2.takeWhile Char.isDigit
  if ds = [] then none else some (cs.1, Nat.ofDigitChars 10 ds 0)

/-- The signed value of a sign and a magnitude. -/
def signed (p : Bool × ℕ) : ℤ := if p.1 then -p.2 else p.2

/-- A parser for the integers between `lo` and `hi`. -/
def parseIn (lo hi : ℤ) (s : String) : Option ℤ :=
  ((parse s).map signed).filter fun z => decide (lo ≤ z ∧ z ≤ hi)

/-- `std::stoll`. -/
def stoll : String → Option ℤ := parseIn (-2 ^ 63) (2 ^ 63 - 1)
/-- `std::stoi`. -/
def stoi : String → Option ℤ := parseIn (-2 ^ 31) (2 ^ 31 - 1)
/-- `std::stoull`. -/
def stoull (s : String) : Option ℕ :=
  (parse s).bind fun p =>
    if p.2 < 2 ^ 64 then some (if p.1 then (2 ^ 64 - p.2) % 2 ^ 64 else p.2) else none

/-! ### Reading back what was printed -/

lemma not_isSpace_of_isDigit {c : Char} (h : c.isDigit = true) : isSpace c = false := by
  simp only [Char.isDigit, ge_iff_le, Bool.and_eq_true, decide_eq_true_eq] at h
  simp only [isSpace, Bool.or_eq_false_iff, decide_eq_false_iff_not]
  refine ⟨⟨⟨⟨⟨?_, ?_⟩, ?_⟩, ?_⟩, ?_⟩, ?_⟩ <;> rintro rfl <;> exact absurd h.1 (by decide)

lemma isDigit_of_mem {n : ℕ} {c : Char} (h : c ∈ Nat.toDigits 10 n) : c.isDigit = true :=
  Nat.isDigit_of_mem_toDigits (by decide) (by decide) h

lemma takeWhile_digits (n : ℕ) : (Nat.toDigits 10 n).takeWhile Char.isDigit = Nat.toDigits 10 n :=
  List.takeWhile_eq_self_iff.2 fun _ hc => isDigit_of_mem hc

lemma splitSign_digits {cs : List Char} (h : ∀ c ∈ cs, c.isDigit = true) :
    splitSign cs = (false, cs) := by
  unfold splitSign
  split
  · exact absurd (h '-' (by simp)) (by decide)
  · exact absurd (h '+' (by simp)) (by decide)
  · rfl

theorem parse_repr_nat (n : ℕ) : parse n.repr = some (false, n) := by
  have hne : Nat.toDigits 10 n ≠ [] := Nat.toDigits_ne_nil
  have hdrop : (Nat.toDigits 10 n).dropWhile isSpace = Nat.toDigits 10 n := by
    obtain ⟨c, cs, hc⟩ := List.exists_cons_of_ne_nil hne
    rw [hc, List.dropWhile_cons_of_neg]
    simpa using not_isSpace_of_isDigit (isDigit_of_mem (hc ▸ List.mem_cons_self (a := c)))
  unfold parse
  simp only [Nat.toList_repr, hdrop, splitSign_digits fun c => isDigit_of_mem, takeWhile_digits]
  rw [if_neg hne, Nat.ofDigitChars_ten_toDigits]

theorem parse_neg_repr_nat (n : ℕ) : parse ("-" ++ n.repr) = some (true, n) := by
  have hne : Nat.toDigits 10 n ≠ [] := Nat.toDigits_ne_nil
  have hl : ("-" ++ n.repr).toList = '-' :: Nat.toDigits 10 n := by
    rw [String.toList_append, Nat.toList_repr]; rfl
  have hdrop : ('-' :: Nat.toDigits 10 n).dropWhile isSpace = '-' :: Nat.toDigits 10 n := by
    rw [List.dropWhile_cons_of_neg]; decide
  unfold parse
  simp only [hl, hdrop, splitSign, takeWhile_digits]
  rw [if_neg hne, Nat.ofDigitChars_ten_toDigits]

/-- Every integer is read back from its text, sign and magnitude. -/
theorem parse_to_string (z : ℤ) : parse (to_string z) = some (decide (z < 0), z.natAbs) := by
  unfold to_string
  rw [Int.repr_eq_if]
  split
  · rw [parse_repr_nat, decide_eq_false (by omega)]
    congr 2
    omega
  · rw [parse_neg_repr_nat, decide_eq_true (by omega)]
    congr 2
    omega

lemma signed_natAbs (z : ℤ) : signed (decide (z < 0), z.natAbs) = z := by
  unfold signed
  by_cases hn : z < 0
  · rw [decide_eq_true hn]
    exact (congrArg Neg.neg (Int.ofNat_natAbs_of_nonpos hn.le)).trans (neg_neg z)
  · rw [decide_eq_false hn]
    exact Int.natAbs_of_nonneg (not_lt.1 hn)

theorem parseIn_to_string {lo hi z : ℤ} (h : lo ≤ z ∧ z ≤ hi) : parseIn lo hi (to_string z) = some z := by
  simp [parseIn, parse_to_string, signed_natAbs, h]

theorem parseIn_to_string_none {lo hi z : ℤ} (h : ¬ (lo ≤ z ∧ z ≤ hi)) :
    parseIn lo hi (to_string z) = none := by
  rw [parseIn, parse_to_string, Option.map_some, signed_natAbs, Option.filter_some, if_neg]
  simpa using h

theorem stoll_to_string {z : ℤ} (h : -2 ^ 63 ≤ z ∧ z ≤ 2 ^ 63 - 1) : stoll (to_string z) = some z :=
  parseIn_to_string h

theorem stoi_to_string {z : ℤ} (h : -2 ^ 31 ≤ z ∧ z ≤ 2 ^ 31 - 1) : stoi (to_string z) = some z :=
  parseIn_to_string h

/-- `stoull` reads a natural number back if it fits. -/
theorem stoull_to_string (n : ℕ) : stoull (to_string n) = if n < 2 ^ 64 then some n else none := by
  have hn : ¬ (n : ℤ) < 0 := by omega
  simp only [stoull, parse_to_string, Option.bind_some, hn, decide_false, Int.natAbs_natCast]
  rfl

end StreamGate.Lib.Decimal
