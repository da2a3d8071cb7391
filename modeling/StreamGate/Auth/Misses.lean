import StreamGate.Auth.Transparency

/-!
# Requests that miss the cache

What a request does that finds no record: the query, what is returned, and what is counted and
cached.  Commands of Redis may fail.

* The record that is validated has its stream and its token from the request, so only the client is
  compared with the row (`validated_iff`).
* A `SQLException` and a missing connection end inside `getAuthDataFromDB`, which returns what it
  returns for a missing row (`toldApart_iff`).
-/

namespace StreamGate.Auth

open StreamGate.Lib

/-! ### The run after a miss -/

/-- The store with a database that answers `ask`. -/
def serve (ask : Store → String → String → String → Answer) : (c : iface.Cmd) → Store → iface.Reply c × Store
  | .select streamKey clientId authToken, s => (ask s streamKey clientId authToken, s)
  | .get key, s => handle .bytes (.get key) s
  | .setex key ttl value, s => handle .bytes (.setex key ttl value) s
  | .del key, s => handle .bytes (.del key) s
  | .count stat, s => handle .bytes (.count stat) s

theorem serve_answer (sql : Sql) : serve (answer sql) = handle sql := by
  funext c s
  cases c <;> rfl

section Requests

variable (h : (c : iface.Cmd) → Store → iface.Reply c × Store) (cacheTTL : ℤ) (r : AuthRequest) (fails : ℕ → Bool)
  (s : Store)

/-- What a request returns. -/
def replyWith : Option StreamAuthData :=
  ((getAuthData cacheTTL r.streamKey r.clientId r.authToken).runWith h fails s).1

/-- The commands that a request sends. -/
def commands : List Cmd := (getAuthData cacheTTL r.streamKey r.clientId r.authToken).sentWith h fails s

end Requests

/-- Nothing is read under the key: the command fails, there is no entry, or it holds no record. -/
def Missed (fails : ℕ → Bool) (s : Store) (key : String) : Prop := fails 0 = true ∨ s.record key = none

/-- What a request gets after a miss, from the answer of the database. -/
def Answer.validated (a : Answer) (r : AuthRequest) : Option StreamAuthData :=
  ((a.data r.streamKey r.authToken).join).filter fun d => validateAuthData d r.streamKey r.clientId r.authToken

/-- What is counted and cached after a miss. -/
def Answer.reaction (cacheTTL : ℤ) (a : Answer) (r : AuthRequest) : List Cmd :=
  match a.data r.streamKey r.authToken with
  | some (some d) =>
    .count .dbHits :: if validateAuthData d r.streamKey r.clientId r.authToken then
      [.setex r.key cacheTTL (.json d.to_json)] else [.count .validationFailures]
  | some none => [.count .dbMisses, .setex r.key NEGATIVE_CACHE_TTL .empty]
  | none => [.count .dbErrors, .setex r.key TRANSIENT_DB_ERROR_TTL .empty]

section Miss

variable {ask : Store → String → String → String → Answer} {cacheTTL : ℤ} {r : AuthRequest} {fails : ℕ → Bool}
  {s : Store}

variable (ask cacheTTL fails s) in
/-- A `SETEX` at the end is sent whether it fails or not, and the result does not depend on it. -/
theorem setString_last (key : String) (value : Text) (ttl : ℤ) (d : Option StreamAuthData) :
    ((setString cacheTTL key value ttl >>= fun _ => .ret d).runWith (serve ask) fails s).1 = d ∧
      (setString cacheTTL key value ttl >>= fun _ => .ret d).sentWith (serve ask) fails s =
        [.setex key (if ttl ≤ 0 then cacheTTL else ttl) value] := by
  refine ⟨?_, Prog.sentWith_last (serve ask) _ d fails s⟩
  cases h0 : fails 0 with
  | true => exact congrArg Prod.fst (Prog.runWith_failed _ h0 s)
  | false => exact congrArg Prod.fst (Prog.runWith_served _ h0 s)

/-- What a request does with a record from the database. -/
def conclude (cacheTTL : ℤ) (r : AuthRequest) (d : StreamAuthData) : AProg (Option StreamAuthData) :=
  if validateAuthData d r.streamKey r.clientId r.authToken then
    setAuthDataToCacheByKey cacheTTL r.key d cacheTTL >>= fun _ => .ret (some d)
  else count .validationFailures >>= fun _ => .ret none

variable (ask cacheTTL r fails s) in
theorem runWith_conclude (d : StreamAuthData) :
    ((conclude cacheTTL r d).runWith (serve ask) fails s).1 =
        (some d).filter (fun d => validateAuthData d r.streamKey r.clientId r.authToken) ∧
      (conclude cacheTTL r d).sentWith (serve ask) fails s =
        if validateAuthData d r.streamKey r.clientId r.authToken then [.setex r.key cacheTTL (.json d.to_json)]
        else [.count .validationFailures] := by
  unfold conclude
  cases hv : validateAuthData d r.streamKey r.clientId r.authToken with
  | true =>
    obtain ⟨h1, h2⟩ := setString_last ask cacheTTL fails s r.key (.json d.to_json)
      (if cacheTTL ≤ 0 then cacheTTL else cacheTTL) (some d)
    refine ⟨h1.trans (by simp [Option.filter, hv]), h2.trans ?_⟩
    simp only [ite_self, if_true]
  | false =>
    refine ⟨?_, rfl⟩
    simp [Option.filter, hv]
    rfl

/-- What is left of a request when the database has answered. -/
theorem loadAuthData_exec (ask : Store → String → String → String → Answer) (cacheTTL : ℤ) (r : AuthRequest) :
    ∃ k, loadAuthData cacheTTL r.streamKey r.clientId r.authToken =
        .exec (.select r.streamKey r.clientId r.authToken) k ∧
      ∀ (a : Answer) fails s, ((k a).runWith (serve ask) fails s).1 = a.validated r ∧
        (k a).sentWith (serve ask) fails s = a.reaction cacheTTL r := by
  refine ⟨_, rfl, fun a fails s => ?_⟩
  unfold Answer.validated Answer.reaction
  simp only [Prog.bind]
  rcases a.data r.streamKey r.authToken with _ | _ | d
  · obtain ⟨h1, h2⟩ := setString_last ask cacheTTL fails (s.count .dbErrors) r.key .empty TRANSIENT_DB_ERROR_TTL none
    exact ⟨h1, congrArg (List.cons _) h2⟩
  · obtain ⟨h1, h2⟩ := setString_last ask cacheTTL fails (s.count .dbMisses) r.key .empty NEGATIVE_CACHE_TTL none
    exact ⟨h1, congrArg (List.cons _) h2⟩
  · obtain ⟨h1, h2⟩ := runWith_conclude ask cacheTTL r fails (s.count .dbHits) d
    exact ⟨h1, congrArg (List.cons _) h2⟩

theorem getAuthData_call (cacheTTL : ℤ) (r : AuthRequest) :
    ∃ k, getAuthData cacheTTL r.streamKey r.clientId r.authToken = .call (.get r.key) k ∧
      ∀ t, t.join.bind Text.record = none → k t = .exec (.count .cacheMisses) fun _ =>
        loadAuthData cacheTTL r.streamKey r.clientId r.authToken := by
  refine ⟨_, rfl, fun t ht => ?_⟩
  simp only [Prog.bind, ht]
  rfl

variable (ask cacheTTL) in
/-- **A miss.**  The database is asked once, and its answer decides what is returned and what is sent
after it. -/
theorem runWith_miss (hmiss : Missed fails s r.key) {a : Answer}
    (ha : ask (s.count .cacheMisses) r.streamKey r.clientId r.authToken = a) :
    replyWith (serve ask) cacheTTL r fails s = a.validated r ∧
      commands (serve ask) cacheTTL r fails s =
        [.get r.key, .count .cacheMisses, .select r.streamKey r.clientId r.authToken] ++ a.reaction cacheTTL r := by
  obtain ⟨k, hk, hload⟩ := getAuthData_call cacheTTL r
  obtain ⟨k', hk', hrest⟩ := loadAuthData_exec ask cacheTTL r
  obtain ⟨h1, h2⟩ := hrest a (fun i => fails (i + 1)) (s.count .cacheMisses)
  subst ha
  -- what is left after the `GET`
  have hrun : ∀ t, t.join.bind Text.record = none →
      ((k t).runWith (serve ask) (fun i => fails (i + 1)) s).1 =
          (ask (s.count .cacheMisses) r.streamKey r.clientId r.authToken).validated r ∧
        (k t).sentWith (serve ask) (fun i => fails (i + 1)) s =
          [.count .cacheMisses, .select r.streamKey r.clientId r.authToken] ++
            (ask (s.count .cacheMisses) r.streamKey r.clientId r.authToken).reaction cacheTTL r := by
    intro t ht
    rw [hload t ht, hk']
    exact ⟨h1, congrArg (List.cons _) (congrArg (List.cons _) h2)⟩
  unfold replyWith commands
  rw [hk]
  cases h0 : fails 0 with
  | true =>
    obtain ⟨hd, hsent⟩ := hrun none rfl
    exact ⟨(congrArg Prod.fst (Prog.runWith_failed _ h0 s)).trans hd,
      (Prog.sentWith_failed _ h0 s).trans (congrArg (List.cons _) hsent)⟩
  | false =>
    have hrec : s.record r.key = none := by simpa [Missed, h0] using hmiss
    obtain ⟨hd, hsent⟩ := hrun (some ((s.cache r.key).map Entry.value)) ((Option.bind_map ..).trans hrec)
    exact ⟨(congrArg Prod.fst (Prog.runWith_served _ h0 s)).trans hd,
      (Prog.sentWith_served _ h0 s).trans (congrArg (List.cons _) hsent)⟩

end Miss

/-! ### What is compared with the row -/

/-- The row whose columns the query returns. -/
def Sql.selected (sql : Sql) (table : List Row) (r : AuthRequest) : Option Row :=
  sql.pick (table.filter fun row => sql.same row.stream_key r.streamKey && sql.same row.client_id r.clientId &&
    sql.same row.auth_token r.authToken)

/-- The row has the texts of the request, byte for byte. -/
def Row.IsOf (row : Row) (r : AuthRequest) : Prop :=
  row.stream_key = r.streamKey ∧ row.client_id = r.clientId ∧ row.auth_token = r.authToken

theorem select_eq (sql : Sql) (table : List Row) (r : AuthRequest) :
    sql.select table r.streamKey r.clientId r.authToken =
      (sql.selected table r).map fun row => (row.client_id, row.is_active) := rfl

/-- A row passes if it has the client of the request, and the request has all its texts. -/
theorem validated_row (row : String × Bool) {r : AuthRequest} :
    (∃ d, (Answer.result (some row)).validated r = some d) ↔
      row.1 = r.clientId ∧ r.streamKey ≠ "" ∧ r.clientId ≠ "" ∧ r.authToken ≠ "" := by
  constructor
  · rintro ⟨d, hd⟩
    obtain ⟨hd, hv⟩ := Option.filter_eq_some_iff.1 hd
    obtain rfl : rowData r.streamKey r.authToken row = d := Option.some.inj hd
    simp only [validateAuthData, Bool.and_eq_true, decide_eq_true_eq] at hv
    obtain ⟨⟨⟨⟨⟨-, hc⟩, -⟩, hs⟩, hc'⟩, ht⟩ := hv
    exact ⟨hc, hs, hc ▸ hc', ht⟩
  · rintro ⟨hc, hs, hc', ht⟩
    refine ⟨rowData r.streamKey r.authToken row, Option.filter_eq_some_iff.2 ⟨rfl, ?_⟩⟩
    simp [validateAuthData, rowData, hc, hs, hc', ht]

/-- Without a result there is no record. -/
theorem validated_eq_none {a : Answer} {r : AuthRequest} (h : ∀ row, a ≠ .result (some row)) :
    a.validated r = none := by
  cases a with
  | noConnection => rfl
  | sqlException => rfl
  | exception => rfl
  | result row =>
    cases row with
    | none => rfl
    | some row => exact absurd rfl (h row)

/-- The answer of a database: a row if it is up. -/
theorem answer_eq_result (sql : Sql) (r : AuthRequest) (s : Store) (row : String × Bool) :
    answer sql s r.streamKey r.clientId r.authToken = .result (some row) ↔
      s.health = .up ∧ (sql.selected s.table r).map (fun row => (row.client_id, row.is_active)) = some row := by
  rw [← select_eq]
  unfold answer
  cases s.health <;> simp

/-- After a miss a record is returned for the rows that pass. -/
theorem replied_iff (sql : Sql) (cacheTTL : ℤ) (r : AuthRequest) (fails : ℕ → Bool) (s : Store)
    (hmiss : Missed fails s r.key) :
    (∃ d, replyWith (handle sql) cacheTTL r fails s = some d) ↔
      s.health = .up ∧ r.streamKey ≠ "" ∧ r.clientId ≠ "" ∧ r.authToken ≠ "" ∧
        ∃ row, sql.selected s.table r = some row ∧ row.client_id = r.clientId := by
  obtain ⟨hrun, -⟩ := runWith_miss (answer sql) cacheTTL hmiss rfl
  rw [serve_answer] at hrun
  rw [hrun]
  constructor
  · intro hd
    by_cases hrow : ∃ row, answer sql (s.count .cacheMisses) r.streamKey r.clientId r.authToken = .result (some row)
    · obtain ⟨row, hrow⟩ := hrow
      rw [hrow] at hd
      obtain ⟨hcl, hs, hc, ht⟩ := (validated_row row).1 hd
      obtain ⟨hup, hmap⟩ := (answer_eq_result sql r _ row).1 hrow
      obtain ⟨row', hsel, rfl⟩ := Option.map_eq_some_iff.1 hmap
      exact ⟨hup, hs, hc, ht, row', hsel, hcl⟩
    · rw [validated_eq_none fun row h => hrow ⟨row, h⟩] at hd
      exact absurd hd (by simp)
  · rintro ⟨hup, hs, hc, ht, row, hsel, hcl⟩
    have hrow := (answer_eq_result sql r (s.count .cacheMisses) (row.client_id, row.is_active)).2
      ⟨hup, Option.map_eq_some_iff.2 ⟨row, hsel, rfl⟩⟩
    rw [hrow]
    exact (validated_row _).2 ⟨hcl, hs, hc, ht⟩

/-- **What the validation is worth.**  After a miss, a record is returned only for a row with the texts
of the request, exactly if the database selects no row that has its client and another stream or
token.  The stream and the token of the row are not read. -/
theorem validated_iff (sql : Sql) (cacheTTL : ℤ) (r : AuthRequest) (fails : ℕ → Bool) (s : Store)
    (hmiss : Missed fails s r.key) :
    (∀ d, replyWith (handle sql) cacheTTL r fails s = some d →
        ∃ row, sql.selected s.table r = some row ∧ row.IsOf r) ↔
      ¬ (s.health = .up ∧ r.streamKey ≠ "" ∧ r.clientId ≠ "" ∧ r.authToken ≠ "" ∧
        ∃ row, sql.selected s.table r = some row ∧ row.client_id = r.clientId ∧
          (row.stream_key ≠ r.streamKey ∨ row.auth_token ≠ r.authToken)) := by
  constructor
  · rintro h ⟨hup, hs, hc, ht, row, hrow, hcl, hne⟩
    obtain ⟨d, hd⟩ := (replied_iff sql cacheTTL r fails s hmiss).2 ⟨hup, hs, hc, ht, row, hrow, hcl⟩
    obtain ⟨row', hrow', hs', -, ht'⟩ := h d hd
    obtain rfl := Option.some.inj (hrow.symm.trans hrow')
    exact hne.elim (fun h => h hs') (fun h => h ht')
  · intro h d hd
    obtain ⟨hup, hs, hc, ht, row, hrow, hcl⟩ := (replied_iff sql cacheTTL r fails s hmiss).1 ⟨d, hd⟩
    refine ⟨row, hrow, ?_, hcl, ?_⟩
    · by_contra hne
      exact h ⟨hup, hs, hc, ht, row, hrow, hcl, .inl hne⟩
    · by_contra hne
      exact h ⟨hup, hs, hc, ht, row, hrow, hcl, .inr hne⟩

/-- Texts are equal up to the case of their letters. -/
def Sql.caseless : Sql :=
  { Sql.bytes with same := fun a b => decide (a.toList.map Char.toLower = b.toList.map Char.toLower) }

/-- A row whose token is written in capitals. -/
def capitals : Store := { cache := fun _ => none, table := [⟨"live", "obs", "TOKEN", true⟩] }

/-- The token as it is written is accepted. -/
theorem validated_capitals :
    ∃ d, replyWith (handle .caseless) 300 ⟨"live", "obs", "TOKEN"⟩ (fun _ => false) capitals = some d ∧
      ∃ row, Sql.caseless.selected capitals.table ⟨"live", "obs", "TOKEN"⟩ = some row ∧
        row.IsOf ⟨"live", "obs", "TOKEN"⟩ := by
  have hreply : replyWith (handle .caseless) 300 ⟨"live", "obs", "TOKEN"⟩ (fun _ => false) capitals =
      some ⟨"live", "obs", "TOKEN", true, 0, []⟩ := by decide +kernel
  have hsel : Sql.caseless.selected capitals.table ⟨"live", "obs", "TOKEN"⟩ =
      some ⟨"live", "obs", "TOKEN", true⟩ := by decide +kernel
  refine ⟨_, hreply, (validated_iff .caseless 300 ⟨"live", "obs", "TOKEN"⟩ (fun _ => false) capitals (.inr rfl)).2 ?_ _
    hreply⟩
  rintro ⟨-, -, -, -, row, hrow, -, hne⟩
  obtain rfl := Option.some.inj (hsel.symm.trans hrow)
  exact hne.elim (fun h => h rfl) (fun h => h rfl)

/-- Another token is accepted too. -/
theorem token_not_compared :
    Equivalence (fun a b => Sql.caseless.same a b = true) ∧
      ∃ d row, replyWith (handle .caseless) 300 ⟨"live", "obs", "token"⟩ (fun _ => false) capitals = some d ∧
        Sql.caseless.selected capitals.table ⟨"live", "obs", "token"⟩ = some row ∧
        ¬ row.IsOf ⟨"live", "obs", "token"⟩ := by
  have hsame : ∀ a b, Sql.caseless.same a b = true ↔ a.toList.map Char.toLower = b.toList.map Char.toLower :=
    fun a b => decide_eq_true_iff
  refine ⟨⟨fun a => (hsame a a).2 rfl, fun h => ?_, fun h h' => ?_⟩, ?_⟩
  · exact (hsame ..).2 ((hsame ..).1 h).symm
  · exact (hsame ..).2 (((hsame ..).1 h).trans ((hsame ..).1 h'))
  · refine ⟨⟨"live", "obs", "token", true, 0, []⟩, ⟨"live", "obs", "TOKEN", true⟩, ?_, ?_, ?_⟩
    · decide +kernel
    · decide +kernel
    · exact fun h => absurd h.2.2 (by decide)

/-! ### An access to the database, call by call -/

/-- The calls on the connector. -/
inductive Call where
  | prepareStatement
  | setString (index : ℕ)
  | executeQuery
  | next
  | getString (column : String)
  | getBoolean (column : String)
  deriving DecidableEq

/-- What is thrown: a `SQLException`, or another `std::exception`. -/
inductive Thrown where
  | SQLException | exception
  deriving DecidableEq

/-- How the pool and the connector behave during one access. -/
structure Access where
  /-- Whether the pool gives a connection. -/
  acquireConnection : Except Thrown Bool
  throws : Call → Option Thrown
  /-- The row that is found. -/
  row : Option (String × Bool)

namespace Access

def call (a : Access) (c : Call) : Except Thrown Unit :=
  match a.throws c with
  | some e => .error e
  | none => .ok ()

/-- The `try` block of `getAuthDataFromDB`. -/
def fetch (a : Access) (streamKey authToken : String) : Except Thrown (Option StreamAuthData) := do
  a.call .prepareStatement
  a.call (.setString 1)
  a.call (.setString 2)
  a.call (.setString 3)
  a.call .executeQuery
  a.call .next
  match a.row with
  | none => return none
  | some row =>
    a.call (.getString "client_id")
    a.call (.getBoolean "is_active")
    return some (rowData streamKey authToken row)

/-- `HybridAuthRepository::getAuthDataFromDB` on such a database. -/
def getAuthDataFromDB (a : Access) (streamKey authToken : String) : Except Thrown (Option StreamAuthData) := do
  if ← a.acquireConnection then
    tryCatch (a.fetch streamKey authToken) fun e =>
      if e = .SQLException then return none else throw e
  else return none

/-- The calls of an access in which nothing is thrown. -/
def calls (a : Access) : List Call :=
  [.prepareStatement, .setString 1, .setString 2, .setString 3, .executeQuery, .next] ++
    if a.row.isSome then [.getString "client_id", .getBoolean "is_active"] else []

/-- What is thrown first. -/
def thrown (a : Access) : Option Thrown := a.calls.findSome? a.throws

/-- The access as one answer. -/
def answer (a : Access) : Answer :=
  match a.acquireConnection with
  | .error _ => .exception
  | .ok false => .noConnection
  | .ok true =>
    match a.thrown with
    | some .SQLException => .sqlException
    | some .exception => .exception
    | none => .result a.row

/-- Calls one after the other, up to the first that throws. -/
theorem foldr_call {α : Type} (a : Access) (cs : List Call) (p : Except Thrown α) :
    cs.foldr (fun c q => a.call c >>= fun _ => q) p = (cs.findSome? a.throws).elim p .error := by
  induction cs with
  | nil => rfl
  | cons c cs ih =>
    rw [List.foldr_cons, ih, List.findSome?_cons, call]
    cases a.throws c <;> rfl

theorem fetch_eq (a : Access) (streamKey authToken : String) :
    a.fetch streamKey authToken = a.thrown.elim (.ok (a.row.map (rowData streamKey authToken))) .error := by
  rw [thrown, ← foldr_call, fetch, calls]
  cases a.row <;> rfl

/-- Each failing call goes through the two handlers as the answer says. -/
theorem getAuthDataFromDB_eq (a : Access) (streamKey authToken : String) :
    (a.getAuthDataFromDB streamKey authToken).toOption = a.answer.data streamKey authToken := by
  unfold getAuthDataFromDB answer
  rcases a.acquireConnection with e | _ | _
  · rfl
  · rfl
  · change (tryCatch (a.fetch streamKey authToken) _).toOption = _
    rw [fetch_eq]
    rcases a.thrown with _ | _ | _ <;> rfl

end Access

/-! ### Failures and missing rows -/

/-- What is sent tells failures from missing rows: only for no row is it counted and cached as missing,
and a failure is counted and cached as an error. -/
structure ToldApart (a : Answer) (key : String) (sent : List Cmd) : Prop where
  missing : .count .dbMisses ∈ sent ∨ .setex key NEGATIVE_CACHE_TTL .empty ∈ sent → a = .result none
  failed : (∀ row, a ≠ .result row) → .count .dbErrors ∈ sent ∧ .setex key TRANSIENT_DB_ERROR_TTL .empty ∈ sent

theorem toldApart_reaction (a : Answer) (cacheTTL : ℤ) (r : AuthRequest) :
    ToldApart a r.key ([.get r.key, .count .cacheMisses, .select r.streamKey r.clientId r.authToken] ++
        a.reaction cacheTTL r) ↔
      a ≠ .noConnection ∧ a ≠ .sqlException := by
  cases a with
  | noConnection =>
    refine ⟨fun h => ?_, fun h => absurd rfl h.1⟩
    cases h.missing (.inl (by simp [Answer.reaction, Answer.data]))
  | sqlException =>
    refine ⟨fun h => ?_, fun h => absurd rfl h.2⟩
    cases h.missing (.inl (by simp [Answer.reaction, Answer.data]))
  | exception =>
    refine ⟨fun _ => by simp, fun _ => ⟨fun h => ?_, fun _ => by simp [Answer.reaction, Answer.data]⟩⟩
    simp [Answer.reaction, Answer.data, NEGATIVE_CACHE_TTL, TRANSIENT_DB_ERROR_TTL] at h
  | result row =>
    refine ⟨fun _ => by simp, fun _ => ⟨fun h => ?_, fun h => absurd rfl (h row)⟩⟩
    cases row with
    | none => rfl
    | some row =>
      simp only [Answer.reaction, Answer.data, Option.map_some] at h
      split at h <;> simp at h

/-- **Which failures are told apart.**  All but a missing connection and a `SQLException`, whatever call
throws it. -/
theorem toldApart_iff (a : Access) (cacheTTL : ℤ) (r : AuthRequest) (fails : ℕ → Bool) (s : Store)
    (hmiss : Missed fails s r.key) :
    ToldApart a.answer r.key (commands (serve fun _ _ _ _ => a.answer) cacheTTL r fails s) ↔
      a.acquireConnection ≠ .ok false ∧ ¬ (a.acquireConnection = .ok true ∧ a.thrown = some .SQLException) := by
  rw [(runWith_miss (fun _ _ _ _ => a.answer) cacheTTL hmiss rfl).2, toldApart_reaction]
  unfold Access.answer
  rcases a.acquireConnection with e | _ | _
  · simp
  · simp
  · rcases a.thrown with _ | _ | _ <;> simp

/-- A database that gives a connection on which the call `c` throws `e`. -/
def failing (c : Call) (e : Thrown) : Access where
  acquireConnection := .ok true
  throws c' := if c' = c then some e else none
  row := none

theorem toldApart_exception :
    ToldApart (failing .executeQuery .exception).answer "auth_data:live:obs"
      (commands (serve fun _ _ _ _ => (failing .executeQuery .exception).answer) 300 ⟨"live", "obs", "token"⟩
        (fun _ => false) capitals) :=
  (toldApart_iff (failing .executeQuery .exception) 300 ⟨"live", "obs", "token"⟩ (fun _ => false) capitals
    (.inr rfl)).2 ⟨by simp [failing], by decide⟩

/-- The query throws a `SQLException`: the row counts as missing. -/
theorem sqlException_missing :
    ¬ ToldApart (failing .executeQuery .SQLException).answer "auth_data:live:obs"
      (commands (serve fun _ _ _ _ => (failing .executeQuery .SQLException).answer) 300 ⟨"live", "obs", "token"⟩
        (fun _ => false) capitals) := by
  intro h
  have hsent : commands (serve fun _ _ _ _ => (failing .executeQuery .SQLException).answer) 300
      ⟨"live", "obs", "token"⟩ (fun _ => false) capitals =
      [.get "auth_data:live:obs", .count .cacheMisses, .select "live" "obs" "token", .count .dbMisses,
        .setex "auth_data:live:obs" NEGATIVE_CACHE_TTL .empty] := rfl
  rw [hsent] at h
  cases h.missing (.inl (by simp))

end StreamGate.Auth
