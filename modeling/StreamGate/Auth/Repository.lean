import StreamGate.Lib.Interleave
import StreamGate.Auth.Data

/-!
# The authentication repository

`HybridAuthRepository` and `AuthManager::performAuthLogic` as programs over the cache and the
database.  A command of Redis may fail, which `CacheManager` catches.  What can go wrong in the
database is part of its answer, since the repository tells the cases apart.

A text in the cache is the marker of a negative entry or what `dump` printed, and `parse` undoes
`dump`: such a text is kept as the value it prints.
-/

namespace StreamGate.Auth

open StreamGate.Lib

/-! ### Cache and database -/

/-- A text under a key that starts with `auth_data:`. -/
inductive Text where
  /-- `__EMPTY__`. -/
  | empty
  | json (j : Json)

/-- A cache entry and the time to live it was set with. -/
structure Entry where
  value : Text
  ttl : ℤ

/-- How the database answers at the moment. -/
inductive Health where
  /-- It answers. -/
  | up
  /-- The pool gives no connection. -/
  | noConnection
  /-- A statement throws a `SQLException`. -/
  | sqlException
  /-- Something else is thrown. -/
  | exception
  deriving DecidableEq, Repr

/-- The counters of the repository. -/
inductive Stat where
  | cacheHits | cacheMisses | dbHits | dbMisses | dbErrors | validationFailures
  deriving DecidableEq, Repr

structure Store where
  cache : String → Option Entry
  table : List Row
  health : Health := .up
  stats : Stat → UInt64 := fun _ => 0

namespace Store

def setEntry (s : Store) (key : String) (e : Option Entry) : Store :=
  { s with cache := Function.update s.cache key e }

def count (s : Store) (stat : Stat) : Store :=
  { s with stats := Function.update s.stats stat (s.stats stat + 1) }

end Store

inductive Cmd where
  | get (key : String)
  | setex (key : String) (ttl : ℤ) (value : Text)
  | del (key : String)
  /-- A connection and the query of `getAuthDataFromDB` on it. -/
  | select (streamKey clientId authToken : String)
  /-- `++` of a counter. -/
  | count (stat : Stat)

/-- The answer of the database. -/
inductive Answer where
  | noConnection
  | sqlException
  | exception
  | result (row : Option (String × Bool))
  deriving DecidableEq

def iface : Iface where
  Cmd := Cmd
  Reply
    | .get _ => Option Text
    | .setex _ _ _ => Unit
    | .del _ => Bool
    | .select _ _ _ => Answer
    | .count _ => Unit

def answer (sql : Sql) (s : Store) (streamKey clientId authToken : String) : Answer :=
  match s.health with
  | .up => .result (sql.select s.table streamKey clientId authToken)
  | .noConnection => .noConnection
  | .sqlException => .sqlException
  | .exception => .exception

def handle (sql : Sql) : (c : iface.Cmd) → Store → iface.Reply c × Store
  | .get key, s => ((s.cache key).map Entry.value, s)
  | .setex key ttl value, s => ((), s.setEntry key (some ⟨value, ttl⟩))
  | .del key, s => ((s.cache key).isSome, s.setEntry key none)
  | .select streamKey clientId authToken, s => (answer sql s streamKey clientId authToken, s)
  | .count stat, s => ((), s.count stat)

/-- What happens to the store by itself: an entry expires, the rows of the table change, the
database goes down or comes up. -/
inductive Change where
  | expire (key : String)
  | table (rows : List Row)
  | health (h : Health)

def change : Change → Store → Store
  | .expire key, s => s.setEntry key none
  | .table rows, s => { s with table := rows }
  | .health h, s => { s with health := h }

def machine (sql : Sql) : Machine iface Store Change := ⟨handle sql, change⟩

/-- A program over the cache and the database. -/
abbrev AProg (α : Type) := Prog iface α

/-! ### `CacheManager` -/

def getString (key : String) : AProg (Option Text) := .call (.get key) fun r => .ret r.join

/-- No key is stored for ever. -/
def setString (cacheTTL : ℤ) (key : String) (value : Text) (ttl : ℤ) : AProg Unit :=
  .call (.setex key (if ttl ≤ 0 then cacheTTL else ttl) value) fun _ => .ret ()

def keyDel (key : String) : AProg Bool := .call (.del key) fun r => .ret (r.getD false)

/-- The record a text holds. -/
def Text.record : Text → Option StreamAuthData
  | .empty => none
  | .json j => StreamAuthData.from_json j

def getAuthDataFromCacheByKey (customKey : String) : AProg (Option StreamAuthData) := do
  let opt ← getString customKey
  return opt.bind Text.record

def setAuthDataToCacheByKey (cacheTTL : ℤ) (key : String) (data : StreamAuthData) (ttl : ℤ) : AProg Unit :=
  setString cacheTTL key (.json data.to_json) (if ttl ≤ 0 then cacheTTL else ttl)

def setEmptyAuthDataToCache (cacheTTL : ℤ) (key : String) (ttl : ℤ) : AProg Unit :=
  setString cacheTTL key .empty (if ttl ≤ 0 then cacheTTL else ttl)

/-! ### `HybridAuthRepository` -/

def count (stat : Stat) : AProg Unit := .exec (.count stat) fun _ => .ret ()

def NEGATIVE_CACHE_TTL : ℤ := 30

def TRANSIENT_DB_ERROR_TTL : ℤ := 5

/-- The record of the row that was found.  The stream and the token are those of the request; the
client is that of the row. -/
def rowData (streamKey authToken : String) (row : String × Bool) : StreamAuthData where
  streamKey := streamKey
  clientId := row.1
  authToken := authToken
  isAuthorized := row.2

/-- What `getAuthDataFromDB` makes of an answer: `none` where it throws. -/
def Answer.data (streamKey authToken : String) : Answer → Option (Option StreamAuthData)
  | .noConnection => some none
  | .sqlException => some none
  | .exception => none
  | .result row => some (row.map (rowData streamKey authToken))

def getAuthDataFromDB (streamKey clientId authToken : String) : AProg (Option (Option StreamAuthData)) :=
  .exec (.select streamKey clientId authToken) fun a => .ret (Answer.data streamKey authToken a)

def queryDatabase (cacheTTL : ℤ) (streamKey clientId authToken cacheKey : String) :
    AProg (Option StreamAuthData) := do
  match ← getAuthDataFromDB streamKey clientId authToken with
  | some (some data) =>
    count .dbHits
    return some data
  | some none =>
    count .dbMisses
    setEmptyAuthDataToCache cacheTTL cacheKey NEGATIVE_CACHE_TTL
    return none
  | none =>
    count .dbErrors
    setEmptyAuthDataToCache cacheTTL cacheKey TRANSIENT_DB_ERROR_TTL
    return none

def validateAuthData (data : StreamAuthData) (streamKey clientId token : String) : Bool :=
  data.streamKey = streamKey && data.clientId = clientId && data.authToken = token &&
    data.streamKey ≠ "" && data.clientId ≠ "" && data.authToken ≠ ""

/-- After a miss: the record comes from the database and goes to the cache. -/
def loadAuthData (cacheTTL : ℤ) (streamKey clientId authToken : String) : AProg (Option StreamAuthData) := do
  let cacheKey := buildCacheKey streamKey clientId
  match ← queryDatabase cacheTTL streamKey clientId authToken cacheKey with
  | none => return none
  | some data =>
    if validateAuthData data streamKey clientId authToken then
      setAuthDataToCacheByKey cacheTTL cacheKey data cacheTTL
      return some data
    else
      count .validationFailures
      return none

/-- A cached record is returned if its token and its client are those of the request.  Otherwise it
is deleted, and the request is refused without a look at the database. -/
def getAuthData (cacheTTL : ℤ) (streamKey clientId authToken : String) : AProg (Option StreamAuthData) := do
  let cacheKey := buildCacheKey streamKey clientId
  match ← getAuthDataFromCacheByKey cacheKey with
  | some cacheData =>
    count .cacheHits
    if cacheData.authToken = authToken ∧ cacheData.clientId = clientId then return some cacheData
    else
      count .validationFailures
      let _ ← keyDel cacheKey
      return none
  | none =>
    count .cacheMisses
    loadAuthData cacheTTL streamKey clientId authToken

/-! ### `AuthManager` -/

/-- `IAuthRepository`'s request. -/
structure AuthRequest where
  streamKey : String
  clientId : String
  authToken : String
  deriving DecidableEq

/-- `RUNTIME_ERROR` stands for an exception of the repository, and `getAuthData` throws none. -/
inductive AuthError where
  | SUCCESS | AUTH_DENIED | RUNTIME_ERROR
  deriving DecidableEq, Repr

def performAuthLogic (cacheTTL : ℤ) (r : AuthRequest) : AProg AuthError := do
  let authData ← getAuthData cacheTTL r.streamKey r.clientId r.authToken
  return if authData.any StreamAuthData.isAuthorized then .SUCCESS else .AUTH_DENIED

end StreamGate.Auth
