import Mathlib.Data.Set.BooleanAlgebra
import Mathlib.Order.CompletePartialOrder
import StreamGate.Lib.Knowledge
import StreamGate.Auth.Repository

/-!
# Sound authentication

What is known at a moment of a run is which rows the table has held so far.  An entry of the cache
is backed by it: the entry stands under the key of its own stream and client, and if it authorizes,
the table has held the active row.  The lookup compares the token and the client of an entry with
the request, and for one client the key determines the stream, so a hit is backed too.
-/

namespace StreamGate.Auth

open StreamGate.Lib

/-! ### What backs a record -/

/-- The active row of a record. -/
def StreamAuthData.row (d : StreamAuthData) : Row := ⟨d.streamKey, d.clientId, d.authToken, true⟩

/-- The record may stand under the key, given the rows `x` that the table has held. -/
structure Backed (x : Set Row) (key : String) (d : StreamAuthData) : Prop where
  key_eq : key = buildCacheKey d.streamKey d.clientId
  row_mem : d.isAuthorized = true → d.row ∈ x

theorem Backed.mono {x y : Set Row} {key : String} {d : StreamAuthData} (h : Backed x key d)
    (hxy : x ⊆ y) : Backed y key d :=
  ⟨h.key_eq, fun ha => hxy (h.row_mem ha)⟩

/-- Every row of the table is known and every record in the cache is backed. -/
structure Consistent (x : Set Row) (s : Store) : Prop where
  table : ∀ r ∈ s.table, r ∈ x
  cache : ∀ key e d, s.cache key = some e → e.value.record = some d → Backed x key d

/-- What a reply says, given the rows known. -/
def Possible (x : Set Row) : (c : Cmd) → iface.Reply c → Prop
  | .get key, r => ∀ v d, r = some v → v.record = some d → Backed x key d
  | .select s c t, r => ∀ b, r = .result (some (c, b)) → b = true → ⟨s, c, t, true⟩ ∈ x
  | _, _ => True

/-- Only backed records are written. -/
def Permitted (x : Set Row) : Cmd → Prop
  | .setex key _ value => ∀ d, value.record = some d → Backed x key d
  | _ => True

/-- Equality of columns is equality of bytes. -/
def Sql.ByteEquality (sql : Sql) : Prop := ∀ a b, sql.same a b = true ↔ a = b

theorem Sql.ByteEquality.select {sql : Sql} (h : sql.ByteEquality) {table : List Row} {s c t : String}
    {row : String × Bool} (hs : sql.select table s c t = some row) : ⟨s, c, t, row.2⟩ ∈ table := by
  obtain ⟨r, hr, rfl⟩ := Option.map_eq_some_iff.1 hs
  obtain ⟨hmem, hsame⟩ := List.mem_filter.1 (sql.pick_mem hr)
  simp only [Bool.and_eq_true, h _ _] at hsame
  obtain ⟨⟨rfl, rfl⟩, rfl⟩ := hsame
  exact hmem

theorem select_of_answer {sql : Sql} {s : Store} {sk c t : String} {row : Option (String × Bool)}
    (h : answer sql s sk c t = .result row) : sql.select s.table sk c t = row := by
  unfold answer at h
  split at h <;> simp_all

section Replies

variable {x : Set Row} {s : Store}

theorem Consistent.mono {y : Set Row} (h : Consistent x s) (hxy : x ⊆ y) : Consistent y s :=
  ⟨fun r hr => hxy (h.table r hr), fun key e d he hd => (h.cache key e d he hd).mono hxy⟩

/-- A new entry that is backed, or none. -/
theorem Consistent.setEntry {key : String} {e : Option Entry} (h : Consistent x s)
    (he : ∀ e' d, e = some e' → e'.value.record = some d → Backed x key d) :
    Consistent x (s.setEntry key e) := by
  refine ⟨h.table, fun key' e' d hc hd => ?_⟩
  by_cases hk : key' = key
  · subst hk
    exact he e' d (by simpa [Store.setEntry] using hc) hd
  · exact h.cache key' e' d (by simpa [Store.setEntry, Function.update_of_ne hk] using hc) hd

theorem Consistent.possible {sql : Sql} (hsql : sql.ByteEquality) (h : Consistent x s) (cmd : Cmd) :
    Possible x cmd (handle sql cmd s).1 := by
  cases cmd with
  | get key =>
    intro v d hv hd
    obtain ⟨e, he, rfl⟩ := Option.map_eq_some_iff.1 hv
    exact h.cache key e d he hd
  | select sk c t =>
    rintro b hb rfl
    exact h.table _ (hsql.select (select_of_answer hb))
  | setex key ttl value => trivial
  | del key => trivial
  | count stat => trivial

theorem Consistent.handle {sql : Sql} {cmd : Cmd} (h : Consistent x s) (hc : Permitted x cmd) :
    Consistent x (handle sql cmd s).2 := by
  cases cmd with
  | get key => exact h
  | select sk c t => exact h
  | setex key ttl value =>
    refine h.setEntry fun e d he hd => ?_
    obtain rfl := Option.some.inj he
    exact hc d hd
  | del key => exact h.setEntry fun e d he => nomatch he
  | count stat => exact ⟨h.table, h.cache⟩

end Replies

/-! ### The programs -/

section Programs

variable {x : Set Row} {cacheTTL : ℤ} {sk c t : String}

theorem tracks_count {stat : Stat} : (count stat).Tracks Possible Permitted (fun _ _ => True) x :=
  fun _ _ => ⟨trivial, fun _ _ _ _ => trivial⟩

theorem tracks_setString {key : String} {value : Text} {ttl : ℤ}
    (h : ∀ d, value.record = some d → Backed x key d) :
    (setString cacheTTL key value ttl).Tracks Possible Permitted (fun _ _ => True) x :=
  fun _ hy => ⟨fun d hd => (h d hd).mono hy, fun _ _ _ _ => trivial, fun _ _ => trivial⟩

theorem tracks_setEmpty {key : String} {ttl : ℤ} :
    (setEmptyAuthDataToCache cacheTTL key ttl).Tracks Possible Permitted (fun _ _ => True) x :=
  tracks_setString fun _ hd => nomatch hd

theorem tracks_fromCache {key : String} :
    (getAuthDataFromCacheByKey key).Tracks Possible Permitted
      (fun y r => ∀ d, r = some d → Backed y key d) x := by
  refine fun y _ => ⟨trivial, fun r hr => ?_, fun z _ d hd => nomatch hd⟩
  intro z hz d hd
  obtain ⟨v, hv, hd⟩ := Option.bind_eq_some_iff.1 hd
  exact (hr v d hv hd).mono hz

/-- What is known of a record that comes from the database. -/
def Found (sk c t : String) (y : Set Row) (d : StreamAuthData) : Prop :=
  d.clientId = c → d.isAuthorized = true → ⟨sk, c, t, true⟩ ∈ y

theorem tracks_fromDB :
    (getAuthDataFromDB sk c t).Tracks Possible Permitted
      (fun y r => ∀ d, r = some (some d) → Found sk c t y d) x := by
  refine fun y _ => ⟨trivial, fun a ha => ?_⟩
  intro z hz d hd
  cases a with
  | noConnection => cases hd
  | sqlException => cases hd
  | exception => cases hd
  | result row =>
    obtain ⟨row', rfl, rfl⟩ : ∃ row', row = some row' ∧ rowData sk t row' = d :=
      Option.map_eq_some_iff.1 (Option.some.inj hd)
    rintro rfl hactive
    exact hz (ha _ rfl hactive)

theorem tracks_queryDatabase {key : String} :
    (queryDatabase cacheTTL sk c t key).Tracks Possible Permitted
      (fun y r => ∀ d, r = some d → Found sk c t y d) x := by
  have hnone : ∀ {stat y ttl}, (count stat >>= fun _ => setEmptyAuthDataToCache cacheTTL key ttl >>=
      fun _ => (pure none : AProg (Option StreamAuthData))).Tracks Possible Permitted
        (fun y r => ∀ d, r = some d → Found sk c t y d) y := by
    intro stat y ttl
    refine tracks_count.bind fun z _ _ _ => ?_
    exact tracks_setEmpty.bind fun _ _ _ _ _ _ d hd => nomatch hd
  refine tracks_fromDB.bind fun y r _ hr => ?_
  match r with
  | some (some data) =>
    refine tracks_count.bind fun z _ hz _ w hw d hd => ?_
    obtain rfl := Option.some.inj hd
    exact fun hc ha => (hz.trans hw) (hr data rfl hc ha)
  | some none => exact hnone
  | none => exact hnone

theorem backed_of_valid {y : Set Row} {d : StreamAuthData} (hd : Found sk c t y d)
    (hv : validateAuthData d sk c t = true) :
    Backed y (buildCacheKey sk c) d ∧ d.clientId = c ∧ d.authToken = t := by
  simp only [validateAuthData, Bool.and_eq_true, decide_eq_true_eq] at hv
  obtain ⟨⟨⟨⟨⟨hs, hc⟩, ht⟩, -⟩, -⟩, -⟩ := hv
  refine ⟨⟨by rw [hs, hc], fun ha => ?_⟩, hc, ht⟩
  rw [StreamAuthData.row, hs, hc, ht]
  exact hd hc ha

/-- What is returned for a request is justified: if it authorizes, the table has held the row. -/
def Justified (sk c t : String) (y : Set Row) (r : Option StreamAuthData) : Prop :=
  ∀ d, r = some d → d.isAuthorized = true → ⟨sk, c, t, true⟩ ∈ y

theorem tracks_none : (pure none : AProg (Option StreamAuthData)).Tracks Possible Permitted
    (Justified sk c t) x :=
  fun _ _ _ hd => nomatch hd

/-- For the client of the request, the key of a record gives its stream. -/
theorem Backed.justified {d : StreamAuthData} (h : Backed x (buildCacheKey sk c) d)
    (hc : d.clientId = c) (ht : d.authToken = t) : Justified sk c t x (some d) := by
  intro d' hd ha
  obtain rfl := Option.some.inj hd
  have hs : sk = d.streamKey := buildCacheKey_inj (by rw [h.key_eq, hc])
  rw [hs, ← hc, ← ht]
  exact h.row_mem ha

theorem Justified.mono {y : Set Row} {r : Option StreamAuthData} (h : Justified sk c t x r) (hxy : x ⊆ y) :
    Justified sk c t y r :=
  fun d hd ha => hxy (h d hd ha)

theorem tracks_loadAuthData :
    (loadAuthData cacheTTL sk c t).Tracks Possible Permitted (Justified sk c t) x := by
  refine tracks_queryDatabase.bind fun y r _ hr => ?_
  match r with
  | none => exact tracks_none
  | some d =>
    dsimp only
    split
    · rename_i hv
      obtain ⟨hb, hc, ht⟩ := backed_of_valid (hr d rfl) hv
      have hset : ∀ d', (Text.json d.to_json).record = some d' → Backed y (buildCacheKey sk c) d' := by
        intro d' hd'
        obtain rfl : d = d' := by simpa [Text.record] using hd'
        exact hb
      refine (tracks_setString hset).bind fun z _ hz _ => ?_
      exact fun w hw => (hb.justified hc ht).mono (hz.trans hw)
    · exact tracks_count.bind fun _ _ _ _ => tracks_none

theorem tracks_getAuthData :
    (getAuthData cacheTTL sk c t).Tracks Possible Permitted (Justified sk c t) x := by
  refine tracks_fromCache.bind fun y r _ hr => ?_
  match r with
  | none => exact tracks_count.bind fun _ _ _ _ => tracks_loadAuthData
  | some d =>
    refine tracks_count.bind fun z _ hz _ => ?_
    split
    · rename_i heq
      exact fun w hw => ((hr d rfl).justified heq.2 heq.1).mono (hz.trans hw)
    · refine tracks_count.bind fun w _ _ _ => ?_
      exact fun _ _ => ⟨trivial, fun _ _ => tracks_none, tracks_none⟩

theorem tracks_performAuthLogic {r : AuthRequest} :
    (performAuthLogic cacheTTL r).Tracks Possible Permitted
      (fun y a => a = .SUCCESS → ⟨r.streamKey, r.clientId, r.authToken, true⟩ ∈ y) x := by
  refine tracks_getAuthData.bind fun y authData _ hd z hz ha => ?_
  cases authData with
  | none => cases ha
  | some d =>
    cases hauth : d.isAuthorized with
    | false => simp [hauth] at ha
    | true => exact hz (hd d rfl hauth)

end Programs

/-! ### Runs -/

section Runs

variable {ι : Type} [DecidableEq ι]

/-- The rows that the table has held along a schedule. -/
def heldRows (sql : Sql) (c₀ : Conf iface Store ι AuthError) (es : List (Ev ι Change)) : Set Row :=
  {r | ∃ past m, past <+: es ∧ c₀.exec (machine sql) past = some m ∧ r ∈ m.st.table}

theorem heldRows_mono (sql : Sql) (c₀ : Conf iface Store ι AuthError) (es : List (Ev ι Change))
    (e : Ev ι Change) : heldRows sql c₀ es ⊆ heldRows sql c₀ (es ++ [e]) := by
  rintro r ⟨past, m, hpre, hm, hr⟩
  exact ⟨past, m, hpre.trans (List.prefix_append _ _), hm, hr⟩

/-- What surrounds the threads writes no entry, and a table is known once it is there. -/
theorem Consistent.change {sql : Sql} {c₀ c : Conf iface Store ι AuthError} {past : List (Ev ι Change)}
    {ch : Change} (hrun : c₀.exec (machine sql) past = some c)
    (h : Consistent (heldRows sql c₀ past) c.st) :
    Consistent (heldRows sql c₀ (past ++ [.env ch])) (Auth.change ch c.st) := by
  have h' := h.mono (heldRows_mono sql c₀ past (.env ch))
  cases ch with
  | expire key => exact h'.setEntry fun e d he => nomatch he
  | health hl => exact ⟨h'.table, h'.cache⟩
  | table rows =>
    refine ⟨fun r hr => ?_, h'.cache⟩
    refine ⟨past ++ [.env (.table rows)], ⟨_, c.thr⟩, List.prefix_rfl, ?_, hr⟩
    exact Conf.exec_append_eq_some.2 ⟨c, hrun, rfl⟩

/-- **Sound authentication.**  Any number of calls, started with no record in the cache and
interleaved command by command, with Redis and database errors, expiries and changes of the table
at any time: if one returns `SUCCESS`, the table held the active row of its request at some moment
of the run. -/
theorem performAuthLogic_sound {sql : Sql} (hsql : sql.ByteEquality) (cacheTTL : ℤ)
    (reqs : ι → AuthRequest) {s : Store} (hcache : ∀ key, s.cache key = none) {es : List (Ev ι Change)}
    {fin : Conf iface Store ι AuthError}
    (hrun : Conf.exec (machine sql) ⟨s, fun i => performAuthLogic cacheTTL (reqs i)⟩ es = some fin)
    {i : ι} (hi : (fin.thr i).result = some .SUCCESS) :
    ∃ past m, past <+: es ∧
      Conf.exec (machine sql) ⟨s, fun i => performAuthLogic cacheTTL (reqs i)⟩ past = some m ∧
      ⟨(reqs i).streamKey, (reqs i).clientId, (reqs i).authToken, true⟩ ∈ m.st.table := by
  have h0 : Consistent (heldRows sql ⟨s, fun i => performAuthLogic cacheTTL (reqs i)⟩ []) s :=
    ⟨fun r hr => ⟨[], _, List.prefix_rfl, rfl, hr⟩, fun key e d he => by simp [hcache] at he⟩
  obtain ⟨-, ht⟩ := Conf.exec_tracks (heldRows sql _) Consistent (heldRows_mono sql _)
    (fun _ _ _ hxy h => h.mono hxy) (fun _ cmd _ h => h.possible hsql cmd)
    (fun _ _ _ hc h => h.handle hc) (fun _ _ _ hp h => h.change hp) h0
    (fun i => tracks_performAuthLogic) hrun
  exact Conf.tracks_result (ht i) hi rfl

/-- Two calls for the one row of the table. -/
def twoCalls : Conf iface Store Bool AuthError where
  st := { cache := fun _ => none, table := [⟨"live", "obs", "key", true⟩] }
  thr _ := performAuthLogic 300 ⟨"live", "obs", "key"⟩

/-- The first call ends, the row is deleted, and the second call ends. -/
def deletedBetween : List (Ev Bool Change) :=
  [.run true, .run true, .run true, .run true, .run true, .env (.table []), .run false, .run false]

/-- The second call is answered from the cache. -/
theorem performAuthLogic_sound_cached :
    ∃ past m, past <+: deletedBetween ∧ twoCalls.exec (machine .bytes) past = some m ∧
      ⟨"live", "obs", "key", true⟩ ∈ m.st.table := by
  have hbytes : Sql.bytes.ByteEquality := fun a b => decide_eq_true_iff
  have hresult : (twoCalls.exec (machine .bytes) deletedBetween).map (fun c => (c.thr false).result) =
      some (some .SUCCESS) := by
    decide +kernel
  obtain ⟨fin, hrun, hi⟩ := Option.map_eq_some_iff.1 hresult
  exact performAuthLogic_sound hbytes 300 (fun _ => ⟨"live", "obs", "key"⟩) (fun _ => rfl) hrun hi

end Runs

end StreamGate.Auth
