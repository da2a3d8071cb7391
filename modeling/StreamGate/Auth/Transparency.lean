import StreamGate.Lib.Runs
import StreamGate.Auth.Repository

/-!
# The cache and the table

Requests one after the other on a table that does not change, with entries expiring at any time.
A request that misses the cache gets what the lookup gives.  One that finds the record of another
request under its key is refused, whatever the table holds.  So the cache is transparent exactly on
the tables that accept at most one request for each key.
-/

namespace StreamGate.Auth

open StreamGate.Lib

/-! ### Requests -/

def AuthRequest.key (r : AuthRequest) : String := buildCacheKey r.streamKey r.clientId

/-- The database accepts the request: all its texts are there, and the row that is returned has its
client. -/
def Accepted (sql : Sql) (table : List Row) (r : AuthRequest) : Prop :=
  r.streamKey ≠ "" ∧ r.clientId ≠ "" ∧ r.authToken ≠ "" ∧
    ∃ active, sql.select table r.streamKey r.clientId r.authToken = some (r.clientId, active)

/-- The lookup of a request without a cache. -/
def lookup (sql : Sql) (table : List Row) (r : AuthRequest) : Option StreamAuthData :=
  ((sql.select table r.streamKey r.clientId r.authToken).map (rowData r.streamKey r.authToken)).filter
    fun d => validateAuthData d r.streamKey r.clientId r.authToken

/-- The record cached under a key. -/
def Store.record (s : Store) (key : String) : Option StreamAuthData :=
  (s.cache key).bind fun e => e.value.record

/-- What a request returns. -/
def reply (sql : Sql) (cacheTTL : ℤ) (r : AuthRequest) (s : Store) : Option StreamAuthData :=
  ((getAuthData cacheTTL r.streamKey r.clientId r.authToken).run (handle sql) s).1

/-- The store after a request. -/
def after (sql : Sql) (cacheTTL : ℤ) (r : AuthRequest) (s : Store) : Store :=
  ((getAuthData cacheTTL r.streamKey r.clientId r.authToken).run (handle sql) s).2

theorem lookup_eq_some {sql : Sql} {table : List Row} {r : AuthRequest} {d : StreamAuthData}
    (h : lookup sql table r = some d) :
    Accepted sql table r ∧ d.streamKey = r.streamKey ∧ d.clientId = r.clientId ∧
      d.authToken = r.authToken := by
  obtain ⟨hd, hv⟩ := Option.filter_eq_some_iff.1 h
  obtain ⟨row, hrow, rfl⟩ := Option.map_eq_some_iff.1 hd
  simp only [validateAuthData, Bool.and_eq_true, decide_eq_true_eq] at hv
  obtain ⟨⟨⟨⟨⟨hs, hc⟩, ht⟩, hs'⟩, hc'⟩, ht'⟩ := hv
  refine ⟨⟨hs', ?_, ht', row.2, ?_⟩, hs, hc, ht⟩
  · exact hc ▸ hc'
  · rw [hrow, ← hc]
    rfl

theorem Accepted.lookup {sql : Sql} {table : List Row} {r : AuthRequest} (h : Accepted sql table r) :
    ∃ d, lookup sql table r = some d := by
  obtain ⟨hs, hc, ht, active, hrow⟩ := h
  refine ⟨rowData r.streamKey r.authToken (r.clientId, active), ?_⟩
  simp [Auth.lookup, hrow, rowData, validateAuthData, hs, hc, ht]

/-! ### One request alone -/

section Alone

variable {sql : Sql} {cacheTTL : ℤ} {s : Store} {r : AuthRequest}

theorem run_fromCache (key : String) :
    (getAuthDataFromCacheByKey key).run (handle sql) s = (s.record key, s) := by
  have h : (getAuthDataFromCacheByKey key).run (handle sql) s =
      (((s.cache key).map Entry.value).bind Text.record, s) := rfl
  rw [h, Option.bind_map]
  rfl

theorem run_fromDB (hup : s.health = .up) (sk c t : String) :
    (getAuthDataFromDB sk c t).run (handle sql) s =
      (some ((sql.select s.table sk c t).map (rowData sk t)), s) := by
  have hanswer : answer sql s sk c t = .result (sql.select s.table sk c t) := by simp [answer, hup]
  have h : (getAuthDataFromDB sk c t).run (handle sql) s = ((answer sql s sk c t).data sk t, s) := rfl
  rw [h, hanswer]
  rfl

/-- A record that is not in the database is cached as missing. -/
theorem run_queryDatabase (hup : s.health = .up) (sk c t key : String) :
    (queryDatabase cacheTTL sk c t key).run (handle sql) s =
      match sql.select s.table sk c t with
      | some row => (some (rowData sk t row), s.count .dbHits)
      | none => (none, (s.count .dbMisses).setEntry key (some ⟨.empty, NEGATIVE_CACHE_TTL⟩)) := by
  unfold queryDatabase
  rw [Prog.run_bind, run_fromDB hup]
  cases sql.select s.table sk c t with
  | some row => rfl
  | none => rfl

@[simp] theorem record_count (stat : Stat) : (s.count stat).record = s.record := rfl

@[simp] theorem record_setEntry (key : String) (e : Option Entry) :
    (s.setEntry key e).record = Function.update s.record key (e.bind fun e => e.value.record) := by
  funext key'
  by_cases hk : key' = key
  · subst hk
    simp [Store.record, Store.setEntry]
  · simp [Store.record, Store.setEntry, Function.update_of_ne hk]

/-- What a request leaves alone, and what it caches. -/
structure Effect (s s' : Store) (key : String) (d : Option StreamAuthData) : Prop where
  table : s'.table = s.table
  health : s'.health = s.health
  record : s'.record = Function.update s.record key d

variable (sql cacheTTL) in
/-- A miss gets what the lookup gives, and this is what is cached from then on. -/
theorem run_loadAuthData (hup : s.health = .up) (hmiss : s.record r.key = none) :
    ((loadAuthData cacheTTL r.streamKey r.clientId r.authToken).run (handle sql) s).1 =
        lookup sql s.table r ∧
      Effect s ((loadAuthData cacheTTL r.streamKey r.clientId r.authToken).run (handle sql) s).2 r.key
        (lookup sql s.table r) := by
  have hkeep : Function.update s.record r.key none = s.record := by
    rw [← hmiss, Function.update_eq_self]
  unfold loadAuthData
  dsimp only
  rw [Prog.run_bind, run_queryDatabase hup]
  cases hsel : sql.select s.table r.streamKey r.clientId r.authToken with
  | none =>
    have hl : lookup sql s.table r = none := by simp [lookup, hsel]
    rw [hl]
    exact ⟨rfl, rfl, rfl, record_setEntry ..⟩
  | some row =>
    dsimp only
    cases hv : validateAuthData (rowData r.streamKey r.authToken row) r.streamKey r.clientId r.authToken with
    | true =>
      have hl : lookup sql s.table r = some (rowData r.streamKey r.authToken row) := by
        simp [lookup, hsel, hv]
      rw [hl]
      refine ⟨rfl, rfl, rfl, (record_setEntry ..).trans ?_⟩
      simp [Text.record, AuthRequest.key]
    | false =>
      have hl : lookup sql s.table r = none := by simp [lookup, hsel, hv]
      rw [hl]
      exact ⟨rfl, rfl, rfl, hkeep.symm⟩

/-- What a request gets that finds `cached` under its key. -/
def outcome (sql : Sql) (table : List Row) (r : AuthRequest) (cached : Option StreamAuthData) :
    Option StreamAuthData :=
  match cached with
  | none => lookup sql table r
  | some d => if d.authToken = r.authToken ∧ d.clientId = r.clientId then some d else none

variable (sql cacheTTL r) in
/-- **One request.**  What is returned is what is cached from then on. -/
theorem run_getAuthData (hup : s.health = .up) :
    reply sql cacheTTL r s = outcome sql s.table r (s.record r.key) ∧
      Effect s (after sql cacheTTL r s) r.key (outcome sql s.table r (s.record r.key)) := by
  unfold reply after getAuthData
  dsimp only
  rw [Prog.run_bind, run_fromCache]
  have hrec : s.record (buildCacheKey r.streamKey r.clientId) = s.record r.key := rfl
  rw [hrec]
  cases hc : s.record r.key with
  | none =>
    have hmiss : (s.count .cacheMisses).record r.key = none := hc
    obtain ⟨hreply, heff⟩ := run_loadAuthData sql cacheTTL (s := s.count .cacheMisses) hup hmiss
    exact ⟨hreply, heff.table, heff.health, heff.record⟩
  | some d =>
    dsimp only [outcome]
    by_cases hm : d.authToken = r.authToken ∧ d.clientId = r.clientId
    · rw [if_pos hm, if_pos hm]
      refine ⟨rfl, rfl, rfl, ?_⟩
      rw [← hc, Function.update_eq_self]
      rfl
    · rw [if_neg hm, if_neg hm]
      exact ⟨rfl, rfl, rfl, record_setEntry ..⟩

end Alone

/-! ### Sequences of requests -/

/-- A request, or the end of an entry. -/
inductive Op where
  | request (r : AuthRequest)
  | expire (key : String)

def Op.step (sql : Sql) (cacheTTL : ℤ) : Op → Store → Store
  | .request r, s => after sql cacheTTL r s
  | .expire key, s => change (.expire key) s

/-- The table with nothing cached. -/
def Store.fresh (table : List Row) : Store := { cache := fun _ => none, table := table }

/-- Every cached record is that of an accepted request with its key. -/
structure Cached (sql : Sql) (table : List Row) (s : Store) : Prop where
  table_eq : s.table = table
  health : s.health = .up
  record : ∀ key d, s.record key = some d → ∃ r, r.key = key ∧ lookup sql table r = some d

section Runs

variable {sql : Sql} {cacheTTL : ℤ} {table : List Row} {s : Store}

/-- A record that is found under the key of a request and has its token and client is that of the
request. -/
theorem eq_of_match {r r' : AuthRequest} {d : StreamAuthData} (hd : lookup sql table r' = some d)
    (hkey : r'.key = r.key) (ht : d.authToken = r.authToken) (hc : d.clientId = r.clientId) : r' = r := by
  obtain ⟨-, -, hc', ht'⟩ := lookup_eq_some hd
  have hcc : r'.clientId = r.clientId := hc'.symm.trans hc
  have hs : r'.streamKey = r.streamKey := buildCacheKey_inj (c := r.clientId) (by
    rw [← hcc]
    exact hkey.trans (by rw [AuthRequest.key, hcc]))
  cases r; cases r'
  simp_all

theorem Cached.step (op : Op) (h : Cached sql table s) : Cached sql table (op.step sql cacheTTL s) := by
  cases op with
  | request r =>
    obtain ⟨-, heff⟩ := run_getAuthData sql cacheTTL r h.health
    refine ⟨heff.table.trans h.table_eq, heff.health.trans h.health, fun key d hd => ?_⟩
    have hd : Function.update s.record r.key (outcome sql s.table r (s.record r.key)) key = some d :=
      heff.record ▸ hd
    by_cases hk : key = r.key
    · subst hk
      rw [Function.update_self] at hd
      cases hc : s.record r.key with
      | none => exact ⟨r, rfl, by simpa [hc, outcome, h.table_eq] using hd⟩
      | some d' =>
        obtain ⟨-, rfl⟩ : (d'.authToken = r.authToken ∧ d'.clientId = r.clientId) ∧ d' = d := by
          simpa [hc, outcome] using hd
        exact h.record r.key d' hc
    · rw [Function.update_of_ne hk] at hd
      exact h.record key d hd
  | expire key' =>
    refine ⟨h.table_eq, h.health, fun key d hd => ?_⟩
    have hd : Function.update s.record key' none key = some d :=
      (congrFun (record_setEntry key' none) key).symm.trans hd
    by_cases hk : key = key'
    · subst hk
      simp at hd
    · rw [Function.update_of_ne hk] at hd
      exact h.record key d hd

theorem cached_fresh : Cached sql table (Store.fresh table) :=
  ⟨rfl, rfl, fun _ _ hd => nomatch hd⟩

theorem reply_fresh (r : AuthRequest) : reply sql cacheTTL r (Store.fresh table) = lookup sql table r :=
  (run_getAuthData sql cacheTTL r rfl).1

end Runs

/-- **When the cache is transparent.**  On a table that does not change, every request of every
sequence gets what it gets with nothing cached, exactly if the database accepts no two different
requests with the same key. -/
theorem cache_transparent_iff (sql : Sql) (cacheTTL : ℤ) (table : List Row) :
    (∀ ops r, reply sql cacheTTL r (runs (Op.step sql cacheTTL) ops (Store.fresh table)) =
        reply sql cacheTTL r (Store.fresh table)) ↔
      ∀ r r', Accepted sql table r → Accepted sql table r' →
        buildCacheKey r.streamKey r.clientId = buildCacheKey r'.streamKey r'.clientId → r = r' := by
  constructor
  · intro h r r' ha ha' hkey
    by_contra hne
    obtain ⟨d, hd⟩ := ha.lookup
    obtain ⟨d', hd'⟩ := ha'.lookup
    -- `r` is cached, and `r'` finds it under its own key
    obtain ⟨-, heff⟩ := run_getAuthData sql cacheTTL r (s := Store.fresh table) rfl
    have hrec : (after sql cacheTTL r (Store.fresh table)).record r'.key = some d := by
      have hkey : r'.key = r.key := hkey.symm
      rw [heff.record, hkey, Function.update_self]
      exact hd
    have hreply := h [.request r] r'
    have hafter := (run_getAuthData sql cacheTTL r' heff.health).1
    rw [hrec, outcome, if_neg] at hafter
    · rw [reply_fresh, hd'] at hreply
      have hnone : reply sql cacheTTL r' (after sql cacheTTL r (Store.fresh table)) = none := hafter
      have hsome : reply sql cacheTTL r' (after sql cacheTTL r (Store.fresh table)) = some d' := hreply
      rw [hnone] at hsome
      cases hsome
    · rintro ⟨ht, hc⟩
      exact hne (eq_of_match hd hkey ht hc)
  · intro h ops r
    have hcached : Cached sql table (runs (Op.step sql cacheTTL) ops (Store.fresh table)) :=
      runs_inv (fun s op hs => hs.step op) cached_fresh
    rw [(run_getAuthData sql cacheTTL r hcached.health).1, reply_fresh, hcached.table_eq]
    cases hrec : Store.record _ r.key with
    | none => rfl
    | some d =>
      obtain ⟨r', hkey, hd⟩ := hcached.record _ d hrec
      by_cases hm : d.authToken = r.authToken ∧ d.clientId = r.clientId
      · obtain rfl := eq_of_match hd hkey hm.1 hm.2
        rw [outcome, if_pos hm, hd]
      · rw [outcome, if_neg hm]
        cases hl : lookup sql table r with
        | none => rfl
        | some d' =>
          -- two requests would be accepted for one key
          obtain rfl := h r' r (lookup_eq_some hd).1 (lookup_eq_some hl).1 hkey
          obtain ⟨-, -, hc, ht⟩ := lookup_eq_some hd
          exact absurd ⟨ht, hc⟩ hm

/-- One client with two tokens for a stream, both of them active: after a request with the first,
one with the second is refused. -/
theorem cache_hides_second_token :
    let table : List Row := [⟨"live", "obs", "first", true⟩, ⟨"live", "obs", "second", true⟩]
    let s := runs (Op.step .bytes 300) [.request ⟨"live", "obs", "first"⟩] (Store.fresh table)
    reply .bytes 300 ⟨"live", "obs", "second"⟩ s = none ∧
      reply .bytes 300 ⟨"live", "obs", "second"⟩ (Store.fresh table) =
        some ⟨"live", "obs", "second", true, 0, []⟩ := by
  decide +kernel

end StreamGate.Auth
