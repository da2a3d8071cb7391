import StreamGate.Auth.Transparency

/-!
# Negative entries

A request for which the database has no row leaves the marker `__EMPTY__` under its key.  The lookup in the cache makes
of the marker what it makes of no entry at all, so a request that finds it there asks the database again.
-/

namespace StreamGate.Auth

open StreamGate.Lib

deriving instance DecidableEq for Change

/-- A query of the database. -/
def Query : Cmd → Prop
  | .select _ _ _ => True
  | _ => False

/-- The marker is under a key. -/
def Store.Marked (s : Store) (key : String) : Prop := ∃ ttl, s.cache key = some ⟨.empty, ttl⟩

/-! ### What a request does that finds the marker -/

/-- What is left of a request after its first commands, if the marker was there for the first: the count of a miss, the
query, and what comes after it. -/
def Asks (cacheTTL : ℤ) (r : AuthRequest) : ℕ → AProg (Option StreamAuthData) → Prop
  | 0, p => p = getAuthData cacheTTL r.streamKey r.clientId r.authToken
  | 1, p => p = count .cacheMisses >>= fun _ => loadAuthData cacheTTL r.streamKey r.clientId r.authToken
  | 2, p => p = loadAuthData cacheTTL r.streamKey r.clientId r.authToken
  | _ + 3, p => p.Only fun c => ¬ Query c

section Asks

variable {sql : Sql} {cacheTTL : ℤ} {r : AuthRequest} {n : ℕ} {p q : AProg (Option StreamAuthData)} {s s' : Store}

theorem only_setString {key : String} {value : Text} {ttl : ℤ} :
    (setString cacheTTL key value ttl).Only fun c => ¬ Query c :=
  ⟨not_false, fun _ _ => trivial, trivial⟩

theorem only_count {stat : Stat} : (count stat).Only fun c => ¬ Query c :=
  ⟨not_false, fun _ _ => trivial⟩

/-- After a miss there is one query. -/
theorem loadAuthData_eq (cacheTTL : ℤ) (sk c t : String) :
    ∃ k, loadAuthData cacheTTL sk c t = .exec (.select sk c t) k ∧ ∀ a, (k a).Only fun c => ¬ Query c := by
  refine ⟨_, rfl, ?_⟩
  intro a
  have hnone : ∀ {stat ttl}, (count stat >>= fun _ => setEmptyAuthDataToCache cacheTTL (buildCacheKey sk c) ttl >>=
      fun _ => (pure none : AProg (Option StreamAuthData))).Only fun c => ¬ Query c :=
    only_count.bind fun _ => only_setString.bind fun _ => trivial
  refine Prog.Obeys.bind ?_ ?_
  · simp only [Prog.bind]
    match Answer.data sk t a with
    | some (some data) => exact only_count.bind fun _ => trivial
    | some none => exact hnone
    | none => exact hnone
  · intro data
    match data with
    | none => trivial
    | some data =>
      dsimp only
      split
      · exact only_setString.bind fun _ => trivial
      · exact only_count.bind fun _ => trivial

theorem getAuthData_next (hs : s.Marked r.key) :
    (getAuthData cacheTTL r.streamKey r.clientId r.authToken).next (handle sql) s =
      some (count .cacheMisses >>= fun _ => loadAuthData cacheTTL r.streamKey r.clientId r.authToken, s) := by
  obtain ⟨ttl, hs⟩ := hs
  obtain ⟨f, hf, hmiss⟩ : ∃ f, getAuthData cacheTTL r.streamKey r.clientId r.authToken =
      getAuthDataFromCacheByKey r.key >>= f ∧
      f none = count .cacheMisses >>= fun _ => loadAuthData cacheTTL r.streamKey r.clientId r.authToken :=
    ⟨_, rfl, rfl⟩
  have hnext : (getAuthDataFromCacheByKey r.key >>= f).next (handle sql) s =
      some (f (((s.cache r.key).map Entry.value).bind Text.record), s) := rfl
  rw [hf, hnext, hs, ← hmiss]
  rfl

theorem Asks.next (hp : Asks cacheTTL r n p) (hs : s.Marked r.key) (hn : p.next (handle sql) s = some (q, s')) :
    Asks cacheTTL r (n + 1) q := by
  match n with
  | 0 =>
    subst hp
    rw [getAuthData_next hs] at hn
    exact (Prod.mk.inj (Option.some.inj hn)).1.symm
  | 1 =>
    subst hp
    have hn' : some (_, _) = some (q, s') := hn
    obtain ⟨rfl, rfl⟩ := Prod.mk.inj (Option.some.inj hn')
    rfl
  | 2 =>
    obtain ⟨k, hk, honly⟩ := loadAuthData_eq cacheTTL r.streamKey r.clientId r.authToken
    subst hp
    rw [hk] at hn
    obtain ⟨rfl, rfl⟩ := Prod.mk.inj (Option.some.inj hn)
    exact honly _
  | n + 3 => exact (Prog.Obeys.next hp (fun _ => trivial) hn).1

/-- The third command is the query, and no other is one. -/
theorem Asks.query_iff (hp : Asks cacheTTL r n p) : (∃ cmd, p.head = some cmd ∧ Query cmd) ↔ n = 2 := by
  have hother : ∀ {cmd}, p.head = some cmd → ¬ Query cmd → ¬ ∃ cmd, p.head = some cmd ∧ Query cmd := by
    rintro cmd hcmd hq ⟨cmd', hcmd', hq'⟩
    obtain rfl := Option.some.inj (hcmd.symm.trans hcmd')
    exact hq hq'
  match n with
  | 0 =>
    subst hp
    exact iff_of_false (hother rfl not_false) (by omega)
  | 1 =>
    subst hp
    exact iff_of_false (hother rfl not_false) (by omega)
  | 2 =>
    obtain ⟨k, hk, -⟩ := loadAuthData_eq cacheTTL r.streamKey r.clientId r.authToken
    subst hp
    rw [hk]
    exact iff_of_true ⟨_, rfl, trivial⟩ rfl
  | n + 3 =>
    refine iff_of_false ?_ (by omega)
    rintro ⟨cmd, hcmd, hq⟩
    exact Prog.Obeys.head hp hcmd hq

end Asks

/-! ### Runs -/

section Runs

variable {ι : Type} [DecidableEq ι]

/-- Calls of `getAuthData`. -/
def calls (cacheTTL : ℤ) (s : Store) (reqs : ι → AuthRequest) : Conf iface Store ι (Option StreamAuthData) where
  st := s
  thr i := getAuthData cacheTTL (reqs i).streamKey (reqs i).clientId (reqs i).authToken

variable (sql : Sql) (cacheTTL : ℤ) (s : Store) (reqs : ι → AuthRequest)

/-- The call `i` has just returned, and the database has had no row for it. -/
def FoundNoRow (i : ι) (past : List (Ev ι Change)) : Prop :=
  ∃ a b m fin, past = a ++ .run i :: (b ++ [.run i]) ∧ (calls cacheTTL s reqs).exec (machine sql) a = some m ∧
    (m.thr i).head = some (.select (reqs i).streamKey (reqs i).clientId (reqs i).authToken) ∧
    answer sql m.st (reqs i).streamKey (reqs i).clientId (reqs i).authToken = .result none ∧
    (calls cacheTTL s reqs).exec (machine sql) past = some fin ∧ (fin.thr i).result.isSome

/-- The entry of the call `i`, which has found no row, is still there, and should be of use to the call `j`, a later one
with the same arguments. -/
def Shields (i j : ι) (past : List (Ev ι Change)) : Prop :=
  ∃ p q, past = p ++ q ∧ reqs i = reqs j ∧ FoundNoRow sql cacheTTL s reqs i p ∧ ¬ Conf.TakesPart j p ∧
    ∀ q' m, q' <+: q → (calls cacheTTL s reqs).exec (machine sql) (p ++ q') = some m → m.st.Marked (reqs j).key

/-- What negative entries are for: such a call does not query the database. -/
def Shielded (es : List (Ev ι Change)) : Prop :=
  ∀ past e m i j, past ++ [e] <+: es → (calls cacheTTL s reqs).exec (machine sql) past = some m → Conf.EventOf j e →
    Shields sql cacheTTL s reqs i j past → ¬ ∃ cmd, (m.thr j).head = some cmd ∧ Query cmd

variable {sql cacheTTL s reqs}

theorem served_append_of_not_takesPart {j : ι} {p q : List (Ev ι Change)} (hp : ¬ Conf.TakesPart j p) :
    served j (p ++ q) = served j q := by
  have hzero : p.count (.run j) = 0 := List.count_eq_zero.2 fun h => hp ⟨_, h, .inl rfl⟩
  rw [served, List.count_append, hzero, Nat.zero_add, served]

/-- A call that finds the marker asks. -/
theorem Shields.asks {i j : ι} {past : List (Ev ι Change)} {m : Conf iface Store ι (Option StreamAuthData)}
    (h : Shields sql cacheTTL s reqs i j past) (hok : NoErrors past)
    (hm : (calls cacheTTL s reqs).exec (machine sql) past = some m) :
    Asks cacheTTL (reqs j) (served j past) (m.thr j) := by
  obtain ⟨p, q, rfl, -, -, hp, hmarked⟩ := h
  obtain ⟨m₀, hm₀, hm⟩ := Conf.exec_append_eq_some.1 hm
  rw [served_append_of_not_takesPart hp]
  refine Conf.exec_served (Asks cacheTTL (reqs j)) (fun i hi => hok i (by simp [hi])) ?_ ?_ hm
  · rw [Conf.exec_not_takesPart hp hm₀]
    rfl
  · intro q' m n p' s' hq' hm' hn hnext
    exact hn.next (hmarked q' m hq' (Conf.exec_append_eq_some.2 ⟨m₀, hm₀, hm'⟩)) hnext

/-- The entry is still there one event later. -/
theorem Shields.concat {i j : ι} {past : List (Ev ι Change)} {e : Ev ι Change}
    {m : Conf iface Store ι (Option StreamAuthData)} (h : Shields sql cacheTTL s reqs i j past)
    (hm : (calls cacheTTL s reqs).exec (machine sql) (past ++ [e]) = some m) (hmarked : m.st.Marked (reqs j).key) :
    Shields sql cacheTTL s reqs i j (past ++ [e]) := by
  obtain ⟨p, q, rfl, hreqs, hfound, hp, hq⟩ := h
  refine ⟨p, q ++ [e], List.append_assoc p q [e], hreqs, hfound, hp, fun q' m' hq' hm' => ?_⟩
  rcases List.prefix_concat_iff.1 hq' with rfl | hq'
  · rw [← List.append_assoc, hm] at hm'
    exact Option.some.inj hm' ▸ hmarked
  · exact hq q' m' hq' hm'

/-- It has been there since the first call returned. -/
theorem Shields.marked {i j : ι} {past : List (Ev ι Change)} {m : Conf iface Store ι (Option StreamAuthData)}
    (h : Shields sql cacheTTL s reqs i j past) (hm : (calls cacheTTL s reqs).exec (machine sql) past = some m) :
    m.st.Marked (reqs j).key := by
  obtain ⟨p, q, rfl, -, -, -, hq⟩ := h
  exact hq q m List.prefix_rfl hm

section Never

variable {i j : ι} {past : List (Ev ι Change)} {m : Conf iface Store ι (Option StreamAuthData)}

/-- The third command of a call that finds the marker breaks the promise. -/
theorem Shields.breaks (h : Shields sql cacheTTL s reqs i j past) (hok : NoErrors past)
    (hm : (calls cacheTTL s reqs).exec (machine sql) past = some m) (h2 : served j past = 2)
    {rest : List (Ev ι Change)} : ¬ Shielded sql cacheTTL s reqs (past ++ .run j :: rest) := by
  intro hshielded
  refine hshielded past (.run j) m i j ?_ hm (.inl rfl) h ((h.asks hok hm).query_iff.2 h2)
  exact ⟨rest, List.append_assoc past [.run j] rest⟩

/-- The commands before the query leave the cache as it is. -/
theorem Asks.step {n : ℕ} (hp : Asks cacheTTL (reqs j) n (m.thr j)) (hs : m.st.Marked (reqs j).key) (hn : n < 2) :
    ∃ m', m.step (machine sql) (.run j) = some m' ∧ m'.st.Marked (reqs j).key := by
  match n with
  | 0 =>
    have hnext : (getAuthData cacheTTL (reqs j).streamKey (reqs j).clientId (reqs j).authToken).next (handle sql) m.st =
        some (count .cacheMisses >>= fun _ =>
          loadAuthData cacheTTL (reqs j).streamKey (reqs j).clientId (reqs j).authToken, m.st) :=
      getAuthData_next hs
    rw [← show m.thr j = _ from hp] at hnext
    exact ⟨_, Conf.step_run.2 ⟨_, _, hnext, rfl⟩, hs⟩
  | 1 =>
    have hnext : (m.thr j).next (handle sql) m.st =
        some (loadAuthData cacheTTL (reqs j).streamKey (reqs j).clientId (reqs j).authToken,
          m.st.count .cacheMisses) := by
      rw [show m.thr j = _ from hp]
      rfl
    exact ⟨_, Conf.step_run.2 ⟨_, _, hnext, rfl⟩, hs⟩

end Never

end Runs

end StreamGate.Auth
