import Mathlib.Data.String.Basic
import StreamGate.Lib.Json

/-!
# Authentication data

`StreamAuthData` with its JSON form, the table `stream_auth` and the lookup in it, and the key
under which a record is cached.  The key is one text, so two pairs of names can have the same one;
for one client it determines the stream (`buildCacheKey_inj`).
-/

namespace StreamGate.Auth

open StreamGate.Lib

/-! ### Records -/

structure StreamAuthData where
  streamKey : String := ""
  clientId : String := ""
  authToken : String := ""
  isAuthorized : Bool := false
  expireTime : Int64 := 0
  /-- The map, as its pairs. -/
  metadata : List (String × String) := []
  deriving DecidableEq

namespace StreamAuthData

def to_json (d : StreamAuthData) : Json :=
  .object [
    ("streamKey", .string d.streamKey),
    ("clientId", .string d.clientId),
    ("authToken", .string d.authToken),
    ("isAuthorized", .bool d.isAuthorized),
    ("metadata", .object (d.metadata.map fun m => (m.1, .string m.2))),
    ("expireTime", .number d.expireTime.toInt)]

/-- `get<std::map<std::string, std::string>>` of the members of an object. -/
def stringMap (members : List (String × Json)) : Option (List (String × String)) :=
  members.mapM fun m => m.2.getString.map fun s => (m.1, s)

/-- Missing members have defaults; a member of the wrong kind throws, except that `metadata` is
ignored unless it is an object. -/
def from_json (j : Json) : Option StreamAuthData := do
  let streamKey ← j.value Json.getString "streamKey" ""
  let clientId ← j.value Json.getString "clientId" ""
  let authToken ← j.value Json.getString "authToken" ""
  let isAuthorized ← j.value Json.getBool "isAuthorized" false
  let metadata ← match j.find "metadata" with
    | some (.object members) => stringMap members
    | _ => some []
  let expireTime ← j.value Json.getUInt64 "expireTime" 0
  return { streamKey, clientId, authToken, isAuthorized, expireTime := expireTime.toInt64, metadata }

theorem stringMap_map (ms : List (String × String)) :
    stringMap (ms.map fun m => (m.1, .string m.2)) = some ms := by
  induction ms with
  | nil => rfl
  | cons m ms ih =>
    simp only [stringMap, List.map_cons, List.mapM_cons] at ih ⊢
    rw [ih]
    rfl

/-- A time is read as unsigned and stored as signed, which gives it back. -/
theorem toInt64_ofInt (x : Int64) : (UInt64.ofInt x.toInt).toInt64 = x := by
  have hpos : 0 ≤ x.toInt % 2 ^ 64 := Int.emod_nonneg _ (by decide)
  rw [UInt64.ofInt, UInt64.toInt64_ofNat', ← Int64.toInt_inj, Int64.toInt_ofNat', Int.toNat_of_nonneg hpos]
  exact (Int.emod_bmod ..).trans x.toInt_bmod

/-- **Round trip.** -/
@[simp] theorem from_json_to_json (d : StreamAuthData) : from_json d.to_json = some d := by
  simp [from_json, to_json, Json.value_object, Json.getString, Json.getBool, Json.getUInt64,
    stringMap_map, toInt64_ofInt]

end StreamAuthData

/-! ### The table -/

/-- The columns of `stream_auth` that the lookup uses. -/
structure Row where
  stream_key : String
  client_id : String
  auth_token : String
  is_active : Bool
  deriving DecidableEq

/-- What the database decides: when two texts of a column are equal, and which of several rows a
query with `LIMIT 1` returns. -/
structure Sql where
  same : String → String → Bool
  pick : List Row → Option Row
  /-- The row is one of those found, and there is one if some were found. -/
  pick_mem : ∀ {rows r}, pick rows = some r → r ∈ rows
  pick_isSome : ∀ {rows}, rows ≠ [] → (pick rows).isSome

/-- Texts are equal as bytes, and the first row found is returned. -/
def Sql.bytes : Sql where
  same a b := a = b
  pick := List.head?
  pick_mem h := List.mem_of_mem_head? h
  pick_isSome h := List.isSome_head?.2 h

/-- `SELECT client_id, is_active FROM stream_auth WHERE stream_key = ? AND client_id = ? AND
auth_token = ? LIMIT 1`. -/
def Sql.select (sql : Sql) (table : List Row) (streamKey clientId authToken : String) :
    Option (String × Bool) :=
  (sql.pick (table.filter fun r =>
    sql.same r.stream_key streamKey && sql.same r.client_id clientId &&
      sql.same r.auth_token authToken)).map fun r => (r.client_id, r.is_active)

/-! ### Cache keys -/

def buildCacheKey (streamKey clientId : String) : String := "auth_data:" ++ streamKey ++ ":" ++ clientId

/-- For one client the key determines the stream. -/
theorem buildCacheKey_inj {s s' c : String} (h : buildCacheKey s c = buildCacheKey s' c) : s = s' := by
  have h' := congrArg String.toList h
  simp only [buildCacheKey, String.toList_append, List.append_assoc, List.append_cancel_left_eq] at h'
  exact String.toList_inj.1 (List.append_cancel_right h')

end StreamGate.Auth
