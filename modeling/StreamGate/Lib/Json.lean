import Mathlib.Data.Int.Notation

/-!
# JSON values

A JSON value and the accessors of a C++ JSON library on it.  An accessor that throws on a value of
the wrong kind is `none` there.  Numbers are integers.
-/

namespace StreamGate.Lib

inductive Json where
  | null
  | bool (b : Bool)
  | number (z : ℤ)
  | string (s : String)
  | array (items : List Json)
  | object (members : List (String × Json))

/-- What the parser throws: `json::parse_error` on a text that is no JSON, `json::out_of_range` on a number that is
too large. -/
inductive ParseFault where
  | parse_error | out_of_range
  deriving DecidableEq, Repr

namespace Json

/-! ### Values of one kind -/

/-- `get<std::string>`. -/
def getString : Json → Option String
  | string s => some s
  | _ => none

/-- `get<bool>`. -/
def getBool : Json → Option Bool
  | bool b => some b
  | _ => none

/-- `get<uint64_t>`: a negative number wraps. -/
def getUInt64 : Json → Option UInt64
  | number z => some (UInt64.ofInt z)
  | _ => none

/-- `get<int>`: a number is cut to its 32 bits, and a boolean is `0` or `1`. -/
def getInt32 : Json → Option Int32
  | number z => some (Int32.ofInt z)
  | bool b => some (if b then 1 else 0)
  | _ => none

/-- `get<std::vector<T>>`: every item must be read. -/
def getArray {α : Type} (get : Json → Option α) : Json → Option (List α)
  | array items => items.mapM get
  | _ => none

/-! ### Members -/

/-- `find`: a value that is no object has no members. -/
def find (key : String) : Json → Option Json
  | object members => (members.find? fun m => m.1 = key).map Prod.snd
  | _ => none

/-- `value`: the member read by `get`, or the default where there is none.  It throws on a value
that is no object and on a member of another kind. -/
def value {α : Type} (get : Json → Option α) (key : String) (dflt : α) : Json → Option α
  | object members =>
    match (object members).find key with
    | none => some dflt
    | some j => get j
  | _ => none

/-- `items`, the pairs a loop over the value goes through: the index stands for the key in an
array, and any other value is one item without a key. -/
def items : Json → List (String × Json)
  | object members => members
  | array items => items.mapIdx fun i j => (toString i, j)
  | null => []
  | j => [("", j)]

@[simp] theorem find_object_nil (key : String) : find key (object []) = none := rfl

@[simp] theorem find_object_cons (key : String) (m : String × Json) (ms : List (String × Json)) :
    find key (object (m :: ms)) = if m.1 = key then some m.2 else find key (object ms) := by
  by_cases h : m.1 = key <;> simp [find, h]

theorem value_object {α : Type} (get : Json → Option α) (key : String) (dflt : α)
    (ms : List (String × Json)) :
    value get key dflt (object ms) = match find key (object ms) with
      | none => some dflt
      | some j => get j := rfl

end Json

end StreamGate.Lib
