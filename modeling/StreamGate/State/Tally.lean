import Mathlib.Data.Finset.Card
import StreamGate.State.Scan

/-!
# The player counter

The field `total` of `global_players` goes up by one with every registration of a player and down
by one with every batch entry of a player.  `Tally w P` says that it stands at the number of the
pairs `P`, and ties `P` to the store: every stored player is in `P`, and every pair of `P` is a
member of its stream.  A step keeps it as long as every pair that leaves `P` can be read as a
player when it leaves: the counter follows the hashes, and a hash that has run out is not counted
down.
-/

namespace StreamGate.State

open StreamGate.Redis StreamGate.Task StreamGate.Lib

/-- The counter holds `n`; one that is not there holds `0`. -/
def TotalIs (w : World) (n : ℤ) : Prop :=
  match w.hashes buildGlobalPlayerCountKey with
  | none => n = 0
  | some x => x.expireAt = none ∧ x.fields .total = some (Decimal.to_string n)

/-- The task of a client can be read, and is a player's. -/
def playing (w : World) (s c : String) : Bool :=
  (taskAt w (buildTaskKey s c)).any fun q => q.type = .PLAYER

/-- The counter stands at the number of the pairs `P`, which are those of the store. -/
structure Tally (w : World) (P : Finset (String × String)) : Prop where
  keyed : Keyed w
  stamped : Stamped w
  total : TotalIs w P.card
  plain : ∀ p ∈ P, NoColon p.1 ∧ NoColon p.2
  /-- A stored player is in `P`. -/
  player : Stored (fun body x => x.fields .type = some "player" →
    ∃ p ∈ P, Key.task body = buildTaskKey p.1 p.2) w
  /-- A pair of `P` is not stored as a publisher. -/
  publisher : ∀ p ∈ P, typeAt w p.1 p.2 ≠ some "publisher"
  member : ∀ p ∈ P, p.2 ∈ w.sets (memberKey p.1)

/-! ### The counter -/

section Total

variable {w w' : World} {n : ℤ}

theorem TotalIs.congr (h : w'.hashes buildGlobalPlayerCountKey = w.hashes buildGlobalPlayerCountKey)
    (hw : TotalIs w n) : TotalIs w' n := by
  unfold TotalIs
  rw [h]
  exact hw

theorem TotalIs.counterOf_eq (hw : TotalIs w n) :
    counterOf ((w.fieldsAt buildGlobalPlayerCountKey).getD fun _ => none) .total = n := by
  unfold TotalIs at hw
  rw [World.fieldsAt]
  cases h : w.hashes buildGlobalPlayerCountKey with
  | none =>
    rw [h] at hw
    exact hw.symm
  | some x =>
    rw [h] at hw
    rw [Option.map_some, Option.getD_some, counterOf, hw.2, Option.bind_some, Decimal.parse_to_string]
    exact Decimal.signed_natAbs n

theorem TotalIs.hincrby (hw : TotalIs w n) (d : ℤ) :
    TotalIs (w.hincrby buildGlobalPlayerCountKey .total d) (n + d) := by
  have hnone : (w.hashes buildGlobalPlayerCountKey).bind Hash.expireAt = none := by
    unfold TotalIs at hw
    cases h : w.hashes buildGlobalPlayerCountKey with
    | none => rfl
    | some x => rw [h] at hw; exact hw.1
  unfold TotalIs World.hincrby
  rw [World.hset_self, hw.counterOf_eq]
  exact ⟨hnone, rfl⟩

theorem hincrby_congr {u u' : World} {k : Key} (h : u.hashes k = u'.hashes k) (f : Field) (d : ℤ) :
    (u.hincrby k f d).hashes k = (u'.hincrby k f d).hashes k := by
  unfold World.hincrby
  rw [World.hset_self, World.hset_self, World.fieldsAt, World.fieldsAt, h]

/-- Counting back and forth leaves a counter that exists as it was. -/
theorem TotalIs.back {x : Hash} (hw : TotalIs w n) (hx : w.hashes buildGlobalPlayerCountKey = some x) (d : ℤ) :
    ((w.hincrby buildGlobalPlayerCountKey .total d).hincrby buildGlobalPlayerCountKey .total (-d)).hashes
      buildGlobalPlayerCountKey = some x := by
  have htotal := (hw.hincrby d).counterOf_eq
  have hold : x.fields .total = some (Decimal.to_string n) := by
    unfold TotalIs at hw
    rw [hx] at hw
    exact hw.2
  have hmid : (w.hincrby buildGlobalPlayerCountKey .total d).hashes buildGlobalPlayerCountKey = some
      ⟨Fields.over (Function.update (fun _ => none) .total (some (Decimal.to_string (n + d)))) x.fields,
        x.expireAt⟩ := by
    have h := hw.counterOf_eq
    rw [World.hincrby, World.hset_self, h, World.fieldsAt, hx]
    rfl
  rw [World.hincrby, World.hset_self, htotal, World.fieldsAt, hmid, Option.map_some, Option.getD_some]
  apply congrArg some
  cases x with
  | mk fields expireAt =>
    simp only [Option.bind_some, Hash.mk.injEq, and_true]
    funext f
    by_cases hf : f = .total
    · subst hf
      refine Eq.trans ?_ hold.symm
      simp [Fields.over]
    · simp [Fields.over, Function.update_of_ne hf]

/-- The counter stands at one number. -/
theorem TotalIs.unique {m : ℤ} (hw : TotalIs w n) (hm : TotalIs w m) : n = m :=
  hw.counterOf_eq.symm.trans hm.counterOf_eq

/-- The counter does not expire. -/
theorem TotalIs.advance (hw : TotalIs w n) (t : ℤ) : TotalIs (advance t w) n := by
  apply hw.congr
  unfold TotalIs at hw
  unfold Redis.advance
  split
  · show Option.filter _ (w.hashes buildGlobalPlayerCountKey) = _
    cases h : w.hashes buildGlobalPlayerCountKey with
    | none => rfl
    | some x =>
      rw [h] at hw
      simp [Option.filter, Hash.expired, hw.1]
  · rfl

/-- What `getActivePlayerCount` makes of a counter that is not negative. -/
theorem TotalIs.run_getActivePlayerCount {m : ℕ} (hw : TotalIs w m) :
    (w.run getActivePlayerCount).1 = if m < 2 ^ 64 then m else 0 := by
  show (((w.fieldsAt buildGlobalPlayerCountKey).bind fun f => f .total).bind Decimal.stoull).getD 0 = _
  unfold TotalIs at hw
  rw [World.fieldsAt]
  cases h : w.hashes buildGlobalPlayerCountKey with
  | none =>
    rw [h] at hw
    obtain rfl : m = 0 := by simpa using hw
    rfl
  | some x =>
    rw [h] at hw
    rw [Option.map_some, Option.bind_some, hw.2, Option.bind_some, Decimal.stoull_to_string]
    split <;> rfl

theorem dropTask_global (w : World) (s c : String) (ty : StreamType) :
    (dropTask ⟨s, c, ty⟩ w).hashes .global_players =
      if ty = .PLAYER then (w.hincrby .global_players .total (-1)).hashes .global_players
      else w.hashes .global_players := by
  cases ty <;>
    simp [dropTask, after, batchCmds, World.hincrby, World.hset_apply, World.del_hashes_apply,
      World.fieldsAt, buildGlobalPlayerCountKey, buildPublisherKey, buildTaskKey]

theorem indexPlayer_global (w : World) (t : StreamTask) :
    (indexPlayer t w).hashes .global_players =
      (w.hincrby .global_players .total 1).hashes .global_players := by
  simp [indexPlayer, after, World.hincrby, World.hset_apply, World.fieldsAt, buildGlobalPlayerCountKey]

end Total

/-! ### The type of a client -/

section TypeAt

variable {w : World} {s c : String} {t : StreamTask}

theorem typeAt_congr {w' : World} (h : w'.hashes (buildTaskKey s c) = w.hashes (buildTaskKey s c)) :
    typeAt w' s c = typeAt w s c := by
  rw [typeAt, typeAt, World.fieldsAt, World.fieldsAt, h]

theorem typeAt_of_none (h : w.hashes (buildTaskKey s c) = none) : typeAt w s c = none := by
  rw [typeAt, World.fieldsAt, h]
  rfl

theorem typeAt_putTask_self : typeAt (putTask t w) t.stream_name t.client_id = some t.type.toString := by
  have h : (putTask t w).hashes t.key = _ := (putTask_task w _ t).trans (if_pos rfl)
  rw [typeAt, World.fieldsAt, ← StreamTask.key, h]
  rfl

theorem playing_iff : playing w s c ↔ ∃ q, taskAt w (buildTaskKey s c) = some q ∧ q.type = .PLAYER := by
  rw [playing, Option.any_eq_true]
  simp

theorem playing_congr {w' : World} (h : w'.hashes (buildTaskKey s c) = w.hashes (buildTaskKey s c)) :
    playing w' s c = playing w s c := by
  rw [playing, playing, taskAt_congr h]

/-- A publisher that has the stream passes the second check. -/
theorem place_own {p : StreamTask} (hp : t.type = .PUBLISHER) (hclock : Reasonable (ms w.clock))
    (hpub : pubAt w t.stream_name = some p) (hown : p.client_id = t.client_id) :
    (place t (putTask t (forget t.stream_name t.client_id w))).1 = true := by
  have hcheck : ¬ ((taskAt (putTask t (forget t.stream_name t.client_id w))
      (buildPublisherKey t.stream_name)).any fun q => q.client_id ≠ t.client_id) = true := by
    have hpass : ∀ o : Option Fields, o = none ∨ o = w.fieldsAt (buildPublisherKey t.stream_name) →
        ¬ ((readTask o).any fun q => q.client_id ≠ t.client_id) = true := by
      rintro o (rfl | rfl)
      · simp [readTask]
      · obtain ⟨x, hx, -, hd⟩ := pubAt_eq_some hpub
        rw [World.fieldsAt, buildPublisherKey, hx, Option.map_some, readTask, Option.bind_some, hd]
        simp [hown]
    apply hpass _
    rw [World.fieldsAt, World.fieldsAt, buildPublisherKey, putTask_pub]
    rcases forget_pub_eq_or_none w t.stream_name t.client_id t.stream_name with h | h
    · exact .inl (by rw [h]; rfl)
    · exact .inr (by rw [h])
  unfold place
  rw [if_pos hp, if_neg hcheck]
  unfold finish
  rw [indexPublisher_clock, putTask_clock, forget_clock, if_pos hclock]

end TypeAt

/-! ### Pairs -/

/-- The pairs without those of the listed tasks. -/
def without (ts : List StreamTask) (P : Finset (String × String)) : Finset (String × String) :=
  P.filter fun p => ∀ t ∈ ts, p ≠ (t.stream_name, t.client_id)

theorem without_append (ts ts' : List StreamTask) (P : Finset (String × String)) :
    without (ts ++ ts') P = without ts' (without ts P) := by
  ext p
  simp only [without, Finset.mem_filter, List.mem_append, or_imp, forall_and, and_assoc]

theorem without_singleton (t : StreamTask) (P : Finset (String × String)) :
    without [t] P = P.erase (t.stream_name, t.client_id) := by
  ext p
  simp [without, and_comm]

namespace Tally

variable {w w' : World} {P : Finset (String × String)} {s c : String} {t : StreamTask}

/-- The key of a pair of `P` belongs to no other pair. -/
theorem key_inj (hw : Tally w P) {p : String × String} (hp : p ∈ P)
    (h : buildTaskKey p.1 p.2 = buildTaskKey s c) : p = (s, c) := by
  obtain ⟨h1, h2⟩ := hw.plain p hp
  obtain ⟨rfl, rfl⟩ := taskKey_inj_of_noColon h1 h2 h
  rfl

/-- A player that can be read is in `P`, a publisher is not. -/
theorem mem_iff (hw : Tally w P) (ht : taskAt w (buildTaskKey s c) = some t) :
    (s, c) ∈ P ↔ t.type = .PLAYER := by
  obtain ⟨x, hx, hd⟩ := taskAt_eq_some ht
  obtain ⟨-, -, hty, -⟩ := deserialize_some hd
  have hat := typeAt_of_taskAt ht
  cases hp : t.type with
  | PUBLISHER =>
    refine ⟨fun hm => ?_, nofun⟩
    rw [hp] at hat
    exact absurd hat (hw.publisher _ hm)
  | PLAYER =>
    refine ⟨fun _ => rfl, fun _ => ?_⟩
    rw [hp] at hty
    obtain ⟨p, hp', hk⟩ := hw.player _ x hx hty
    exact hw.key_inj hp' hk.symm ▸ hp'

/-- A change of the time stamps. -/
theorem setZset (hw : Tally w P) {z : ZSet}
    (hz : Stamped (w.setZset buildTaskTimestampZSetKey z)) : Tally (w.setZset buildTaskTimestampZSetKey z) P :=
  { hw with stamped := hz }

/-! ### Removing -/

/-- A batch entry whose counting is right. -/
theorem dropTask_of_total (hw : Tally w P) {ty : StreamType}
    (htotal : TotalIs (State.dropTask ⟨s, c, ty⟩ w) (P.erase (s, c)).card) :
    Tally (State.dropTask ⟨s, c, ty⟩ w) (P.erase (s, c)) where
  keyed := Stored.dropTask hw.keyed _
  stamped k hk := hw.stamped k (by rw [buildTaskTimestampZSetKey, dropTask_zsets] at hk; exact hk)
  total := htotal
  plain p hp := hw.plain p (Finset.mem_of_mem_erase hp)
  player body x hx hty := by
    rw [dropTask_task] at hx
    split at hx
    · cases hx
    · rename_i hk
      obtain ⟨p, hp, he⟩ := hw.player body x hx hty
      refine ⟨p, Finset.mem_erase.2 ⟨?_, hp⟩, he⟩
      rintro rfl
      exact hk he
  publisher p hp hty := by
    refine hw.publisher p (Finset.mem_of_mem_erase hp) (Eq.trans ?_ hty)
    refine (typeAt_congr ((dropTask_task w s c _ ty).trans (if_neg fun e => ?_))).symm
    exact (Finset.mem_erase.1 hp).1 (hw.key_inj (Finset.mem_of_mem_erase hp) e)
  member p hp := by
    obtain ⟨hne, hp⟩ := Finset.mem_erase.1 hp
    rw [memberKey, dropTask_members]
    have hmem : p.2 ∈ w.sets (.members p.1) := hw.member p hp
    split
    · rename_i hs
      rw [RSet.mem_rem]
      exact ⟨hs ▸ hmem, fun hc => hne (Prod.ext hs hc)⟩
    · exact hmem

/-- A task that can be read leaves the store and, if it is a player's, the pairs. -/
theorem dropTask (hw : Tally w P) (ht : taskAt w (buildTaskKey s c) = some t) :
    Tally (State.dropTask ⟨s, c, t.type⟩ w) (P.erase (s, c)) := by
  apply hw.dropTask_of_total
  have hglobal := dropTask_global w s c t.type
  by_cases hp : t.type = .PLAYER
  · rw [if_pos hp] at hglobal
    have hmem := (hw.mem_iff ht).2 hp
    have hcard : ((P.erase (s, c)).card : ℤ) = P.card + -1 := by
      rw [← Finset.card_erase_add_one hmem]
      omega
    rw [hcard]
    exact (hw.total.hincrby (-1)).congr hglobal
  · rw [if_neg hp] at hglobal
    rw [Finset.erase_eq_of_notMem fun hm => hp ((hw.mem_iff ht).1 hm)]
    exact hw.total.congr hglobal

/-- A batch entry of a publisher does not count. -/
theorem dropPublisher (hw : Tally w P) (hne : (s, c) ∉ P) : Tally (State.dropTask ⟨s, c, .PUBLISHER⟩ w) P := by
  have herase := Finset.erase_eq_of_notMem hne
  have htotal : TotalIs (State.dropTask ⟨s, c, .PUBLISHER⟩ w) (P.erase (s, c)).card := by
    rw [herase]
    exact hw.total.congr (dropTask_global w s c .PUBLISHER)
  have := hw.dropTask_of_total htotal
  rwa [herase] at this

theorem forget (hw : Tally w P) (hlive : (s, c) ∈ P → playing w s c) :
    Tally (forget s c w) (P.erase (s, c)) := by
  unfold State.forget
  cases ht : taskAt w (buildTaskKey s c) with
  | none =>
    have hne : (s, c) ∉ P := by
      intro hm
      have := hlive hm
      rw [playing, ht] at this
      cases this
    rw [Finset.erase_eq_of_notMem hne]
    refine hw.setZset fun k hk => hw.stamped k ?_
    rw [World.setZset_self] at hk
    exact noneNew_rem _ _ k hk
  | some t => exact hw.dropTask ht

/-- The batch entries of publishers do not count. -/
theorem dropPublishers (hw : Tally w P) {ids : List TaskIdentifier}
    (hids : ∀ id ∈ ids, id.type = .PUBLISHER ∧ (id.streamName, id.clientId) ∉ P) :
    Tally (dropTasks ids w) P := by
  induction ids generalizing w with
  | nil => exact hw
  | cons id ids ih =>
    obtain ⟨s, c, ty⟩ := id
    obtain ⟨rfl, hne⟩ : ty = .PUBLISHER ∧ (s, c) ∉ P := hids _ List.mem_cons_self
    exact ih (hw.dropPublisher hne) fun id hid => hids id (by simp [hid])

/-- The members of a list leave one after the other. -/
theorem dropMembers (hw : Tally w P) {cids : List String} (hn : cids.Nodup)
    (hlive : ∀ c ∈ cids, (s, c) ∈ P → playing w s c) :
    Tally (dropTasks (memberTasks w s cids) w) (P.filter fun p => ¬ (p.1 = s ∧ p.2 ∈ cids)) := by
  induction cids generalizing w P with
  | nil => simpa [memberTasks, dropTasks] using hw
  | cons c cids ih =>
    obtain ⟨hc, hn⟩ := List.nodup_cons.1 hn
    have hP : (P.filter fun p => ¬ (p.1 = s ∧ p.2 ∈ c :: cids)) =
        (P.erase (s, c)).filter fun p => ¬ (p.1 = s ∧ p.2 ∈ cids) := by
      ext ⟨s', c'⟩
      simp only [Finset.mem_filter, Finset.mem_erase, List.mem_cons, ne_eq, Prod.mk.injEq]
      tauto
    rw [hP]
    cases ht : taskAt w (buildTaskKey s c) with
    | none =>
      have hne : (s, c) ∉ P := by
        intro hm
        have := hlive c (by simp) hm
        rw [playing, ht] at this
        cases this
      have hcons : memberTasks w s (c :: cids) = memberTasks w s cids := by simp [memberTasks, ht]
      rw [hcons, Finset.erase_eq_of_notMem hne]
      exact ih hw hn fun c' hc' => hlive c' (by simp [hc'])
    | some t =>
      have hkey : ∀ c' ∈ cids, (State.dropTask ⟨s, c, t.type⟩ w).hashes (buildTaskKey s c') =
          w.hashes (buildTaskKey s c') := by
        intro c' hc'
        refine (dropTask_task w s c _ t.type).trans (if_neg fun e => hc ?_)
        exact taskKey_client.1 e ▸ hc'
      have hcons : memberTasks w s (c :: cids) =
          ⟨s, c, t.type⟩ :: memberTasks (State.dropTask ⟨s, c, t.type⟩ w) s cids := by
        simp only [memberTasks, List.filterMap_cons, ht, Option.map_some]
        refine congrArg _ (List.filterMap_congr fun c' hc' => ?_)
        rw [taskAt_congr (hkey c' hc')]
      rw [hcons]
      refine ih (hw.dropTask ht) hn fun c' hc' hm => ?_
      rw [playing_congr (hkey c' hc')]
      exact hlive c' (by simp [hc']) (Finset.mem_of_mem_erase hm)

/-- The cascade takes all pairs of its stream. -/
theorem clearStream (hw : Tally w P) (hlive : ∀ c, (s, c) ∈ P → playing w s c) :
    Tally (clearStream s w) (P.filter fun p => p.1 ≠ s) := by
  have hP : (P.filter fun p => ¬ (p.1 = s ∧ p.2 ∈ (w.sets (memberKey s)).elems)) =
      P.filter fun p => p.1 ≠ s := by
    refine Finset.filter_congr fun p hp => ?_
    refine not_congr ⟨fun h => h.1, fun h => ⟨h, ?_⟩⟩
    have := hw.member p hp
    rwa [h] at this
  have hdrop := hw.dropMembers (w.sets (memberKey s)).nodup fun c _ => hlive c
  rw [hP] at hdrop
  have htask : ∀ body, (State.clearStream s w).hashes (.task body) =
      (dropTasks (memberTasks w s (w.sets (memberKey s)).elems) w).hashes (.task body) :=
    fun body => World.del_hashes_of_ne _ _ _ nofun
  refine ⟨hdrop.keyed.mono fun body x hx => htask body ▸ hx, fun k hk => hdrop.stamped k ?_,
    hdrop.total.congr (World.del_hashes_of_ne _ _ _ nofun), hdrop.plain,
    hdrop.player.mono fun body x hx => htask body ▸ hx, fun p hp hty => ?_, fun p hp => ?_⟩
  · have hne : buildTaskTimestampZSetKey ≠ memberKey s := nofun
    rw [State.clearStream, World.del_zsets_of_ne _ _ _ hne] at hk
    exact hk
  · exact hdrop.publisher p hp ((typeAt_congr (htask _)).symm.trans hty)
  · have hne : memberKey p.1 ≠ memberKey s := fun e => (Finset.mem_filter.1 hp).2 (Key.members.inj e)
    rw [State.clearStream, World.del_sets_of_ne _ _ _ hne]
    exact hdrop.member p hp

/-! ### Registering -/

/-- The two writes of a player that is not there. -/
theorem player_registered (hw : Tally w P) (hp : t.type = .PLAYER) (hs : NoColon t.stream_name)
    (hc : NoColon t.client_id) (hne : (t.stream_name, t.client_id) ∉ P) :
    Tally (indexPlayer t (putTask t w)) (insert (t.stream_name, t.client_id) P) := by
  have htask : ∀ body, (indexPlayer t (putTask t w)).hashes (.task body) = (putTask t w).hashes (.task body) :=
    fun body => indexPlayer_task _ body t
  refine ⟨hw.keyed.putTask.mono fun body x hx => htask body ▸ hx, hw.stamped, ?_, ?_, ?_, ?_, ?_⟩
  · have hcard : ((insert (t.stream_name, t.client_id) P).card : ℤ) = P.card + 1 := by
      rw [Finset.card_insert_of_notMem hne]
      omega
    rw [hcard]
    have hput : TotalIs (putTask t w) P.card := hw.total.congr (putTask_global w t)
    exact (hput.hincrby 1).congr (indexPlayer_global _ t)
  · intro p hp
    rcases Finset.mem_insert.1 hp with rfl | hp
    · exact ⟨hs, hc⟩
    · exact hw.plain p hp
  · intro body x hx hty
    rw [htask, putTask_task] at hx
    split at hx
    · rename_i hk
      exact ⟨_, Finset.mem_insert_self _ _, hk⟩
    · obtain ⟨p, hp, he⟩ := hw.player body x hx hty
      exact ⟨p, Finset.mem_insert_of_mem hp, he⟩
  · intro p hmem hty
    rw [typeAt_congr (htask _)] at hty
    rcases Finset.mem_insert.1 hmem with rfl | hmem
    · rw [typeAt_putTask_self, hp] at hty
      exact absurd hty (by decide)
    · have hkey : buildTaskKey p.1 p.2 ≠ t.key := fun e => hne (hw.key_inj hmem e ▸ hmem)
      exact hw.publisher p hmem ((typeAt_congr ((putTask_task w _ t).trans (if_neg hkey))).symm.trans hty)
  · intro p hmem
    rw [memberKey, indexPlayer_members]
    rcases Finset.mem_insert.1 hmem with rfl | hmem
    · simp
    · have hold : p.2 ∈ w.sets (.members p.1) := hw.member p hmem
      split
      · rename_i h
        rw [RSet.mem_add]
        exact .inl (h ▸ hold)
      · exact hold

/-- The hash of a publisher, on a pair that is not in `P`. -/
theorem publisher_stored (hw : Tally w P) (hp : t.type = .PUBLISHER)
    (hne : (t.stream_name, t.client_id) ∉ P) : Tally (putTask t w) P := by
  refine ⟨hw.keyed.putTask, hw.stamped, hw.total.congr (putTask_global w t), hw.plain, ?_, ?_, hw.member⟩
  · intro body x hx hty
    rw [putTask_task] at hx
    split at hx
    · obtain rfl := Option.some.inj hx
      have : t.type.toString = "player" := Option.some.inj hty
      rw [hp] at this
      exact absurd this (by decide)
    · exact hw.player body x hx hty
  · intro p hmem hty
    have hkey : buildTaskKey p.1 p.2 ≠ t.key := fun e => hne (hw.key_inj hmem e ▸ hmem)
    exact hw.publisher p hmem ((typeAt_congr ((putTask_task w _ t).trans (if_neg hkey))).symm.trans hty)

theorem indexPublisher (hw : Tally w P) : Tally (indexPublisher t w) P := by
  have htask : ∀ body, (State.indexPublisher t w).hashes (.task body) = w.hashes (.task body) :=
    fun body => indexPublisher_task w body t
  refine ⟨hw.keyed.mono fun body x hx => htask body ▸ hx, hw.stamped,
    hw.total.congr (indexPublisher_global w t), hw.plain,
    hw.player.mono fun body x hx => htask body ▸ hx, fun p hp hty => ?_, fun p hp => ?_⟩
  · exact hw.publisher p hp ((typeAt_congr (htask _)).symm.trans hty)
  · rw [memberKey, indexPublisher_members]
    have hold : p.2 ∈ w.sets (.members p.1) := hw.member p hp
    split
    · rename_i h
      rw [RSet.mem_add]
      exact .inl (h ▸ hold)
    · exact hold

/-- The end of a registration while the clock is in range. -/
theorem finish (hw : Tally w P) (hclock : Reasonable (ms w.clock)) :
    (State.finish t w).1 = true ∧ Tally (State.finish t w).2 P := by
  unfold State.finish
  rw [if_pos hclock]
  exact ⟨rfl, hw.setZset (stamped_add hw.stamped _ _)⟩

/-- A player registers: a new pair, or the same pair again. -/
theorem registerTask_player (hw : Tally w P) (hp : t.type = .PLAYER) (hs : NoColon t.stream_name)
    (hc : NoColon t.client_id) (hclock : Reasonable (ms w.clock))
    (hlive : (t.stream_name, t.client_id) ∈ P → playing w t.stream_name t.client_id) :
    (w.run (registerTask t)).1 = true ∧
      Tally (w.run (registerTask t)).2 (insert (t.stream_name, t.client_id) P) := by
  have hplace : ∀ v Q, v.clock = w.clock → Tally v Q → (t.stream_name, t.client_id) ∉ Q →
      (place t (putTask t v)).1 = true ∧
        Tally (place t (putTask t v)).2 (insert (t.stream_name, t.client_id) Q) := by
    intro v Q hv hQ hne
    unfold place
    rw [if_neg (by rw [hp]; exact nofun)]
    apply (hQ.player_registered hp hs hc hne).finish
    rw [indexPlayer_clock, putTask_clock, hv]
    exact hclock
  rw [run_registerTask, if_neg (by rw [hp]; exact nofun)]
  split
  · have := hplace _ _ (forget_clock w _ _) (hw.forget hlive) (Finset.notMem_erase _ _)
    have hP : insert (t.stream_name, t.client_id) (P.erase (t.stream_name, t.client_id)) =
        insert (t.stream_name, t.client_id) P := by
      ext p
      simp only [Finset.mem_insert, Finset.mem_erase]
      tauto
    rwa [hP] at this
  · rename_i hno
    refine hplace w P rfl hw fun hm => hno ?_
    obtain ⟨q, hq, -⟩ := playing_iff.1 (hlive hm)
    obtain ⟨x, hx, -⟩ := taskAt_eq_some hq
    have : (w.hashes t.key).isSome := by rw [StreamTask.key, hx]; rfl
    rw [World.hasKey, this]
    rfl

/-- A publisher registers: it takes the place of a player only if it has the stream already. -/
theorem registerTask_publisher (hw : Tally w P) (hp : t.type = .PUBLISHER) (hclock : Reasonable (ms w.clock))
    (hlive : (t.stream_name, t.client_id) ∈ P → ∃ p, pubAt w t.stream_name = some p ∧
      (p.client_id = t.client_id → playing w t.stream_name t.client_id)) :
    Tally (w.run (registerTask t)).2
      (if (w.run (registerTask t)).1 then P.erase (t.stream_name, t.client_id) else P) := by
  -- what the second check lets through, and what it sends back
  have hplace : ∀ v Q, v.clock = w.clock → Tally v Q → (t.stream_name, t.client_id) ∉ Q →
      Tally (place t (putTask t v)).2 Q := by
    intro v Q hv hQ hne
    have hput := hQ.publisher_stored hp hne
    unfold place
    rw [if_pos hp]
    split
    · have := hput.forget fun hm => absurd hm hne
      rwa [Finset.erase_eq_of_notMem hne] at this
    · exact (hput.indexPublisher.finish (by rw [indexPublisher_clock, putTask_clock, hv]; exact hclock)).2
  have hrun := run_registerTask w t
  rw [if_pos hp] at hrun
  cases hpub : pubAt w t.stream_name with
  | none =>
    have hne : (t.stream_name, t.client_id) ∉ P := by
      intro hm
      obtain ⟨p, h, -⟩ := hlive hm
      rw [hpub] at h
      cases h
    rw [hpub] at hrun
    rw [Finset.erase_eq_of_notMem hne, ite_self, hrun]
    exact hplace w P rfl hw hne
  | some p =>
    rw [hpub] at hrun
    by_cases hown : p.client_id ≠ t.client_id
    · rw [hrun.trans (if_pos hown)]
      exact hw
    · have hQ := hw.forget fun hm => by
        obtain ⟨p', h, h'⟩ := hlive hm
        rw [hpub] at h
        obtain rfl := Option.some.inj h
        exact h' (not_not.1 hown)
      rw [hrun.trans (if_neg hown), place_own hp hclock hpub (not_not.1 hown), if_pos rfl]
      exact hplace _ _ (forget_clock w _ _) hQ (Finset.notMem_erase _ _)

/-! ### Scanning -/

theorem scanKey (hw : Tally w P) (now_ms timeout : ℤ) (body : String) :
    Tally (scanKey now_ms timeout (.task body) w).2
      (without (scanKey now_ms timeout (.task body) w).1.toList P) := by
  have hnil : without [] P = P := by simp [without]
  have hrem : Tally (w.setZset buildTaskTimestampZSetKey
      ((w.zsets buildTaskTimestampZSetKey).rem (.task body))) P := by
    refine hw.setZset fun k hk => hw.stamped k ?_
    rw [World.setZset_self] at hk
    exact noneNew_rem _ _ k hk
  unfold State.scanKey
  split
  · cases hk : taskAt w (.task body) with
    | none => exact hnil.symm ▸ hrem
    | some t =>
      dsimp only
      split
      · exact hnil.symm ▸ hrem.setZset (stamped_add hrem.stamped _ _)
      · rw [Option.toList_some, without_singleton]
        refine hrem.forget fun hm => playing_iff.2 ?_
        have ht : taskAt w (buildTaskKey t.stream_name t.client_id) = some t := by
          rw [← StreamTask.key, ← hw.keyed.of_taskAt hk]
          exact hk
        exact ⟨t, ht, (hw.mem_iff ht).1 hm⟩
  · exact hnil.symm ▸ hrem

theorem scanLoop (hw : Tally w P) (now_ms timeout : ℤ) {keys : List Key}
    (hkeys : ∀ k ∈ keys, ∃ body, k = Key.task body) :
    Tally (w.run (scanLoop now_ms timeout keys)).2
      (without (w.run (State.scanLoop now_ms timeout keys)).1 P) := by
  induction keys generalizing w P with
  | nil => simpa [without] using hw
  | cons k keys ih =>
    obtain ⟨body, rfl⟩ := hkeys k (by simp)
    rw [run_scanLoop_cons, without_append]
    exact ih (hw.scanKey now_ms timeout body) fun k' hk' => hkeys k' (by simp [hk'])

/-- A scan counts every task it returns, once. -/
theorem scan (hw : Tally w P) (timeout : ℤ) :
    Tally (w.run (scanTimeoutTasks timeout)).2 (without (w.run (scanTimeoutTasks timeout)).1 P) := by
  rw [run_scanTimeoutTasks]
  refine hw.scanLoop _ _ fun k hk => ?_
  obtain ⟨x, hx, -⟩ := ZSet.mem_rangeByScore.1 hk
  exact hw.stamped k (by rw [hx]; exact nofun)

/-! ### Heartbeats and time -/

theorem touch (hw : Tally w P) (s c : String) : Tally (touch s c w) P := by
  refine ⟨hw.keyed.touch s c, stamped_add hw.stamped _ _, hw.total.congr (touch_global w s c), hw.plain,
    hw.player.touch (fun _ _ h => by cases h) fun _ _ _ h => h, fun p hp hty => ?_, hw.member⟩
  by_cases hk : buildTaskKey p.1 p.2 = buildTaskKey s c
  · obtain rfl := hw.key_inj hp hk
    rw [typeAt_touch] at hty
    exact hw.publisher _ hp hty
  · exact hw.publisher p hp ((typeAt_congr ((touch_task w s c _).trans (if_neg hk))).symm.trans hty)

theorem advance (hw : Tally w P) (t : ℤ) : Tally (advance t w) P := by
  refine ⟨hw.keyed.advance t, hw.stamped.advance t, hw.total.advance t, hw.plain, hw.player.advance t,
    fun p hp hty => ?_, ?_⟩
  · rcases hashes_advance t w (buildTaskKey p.1 p.2) with h | h
    · rw [typeAt_of_none h] at hty
      cases hty
    · exact hw.publisher p hp ((typeAt_congr h).symm.trans hty)
  · unfold Redis.advance
    split
    · exact hw.member
    · exact hw.member

theorem initial (clock : ℤ) : Tally (World.initial clock) ∅ :=
  ⟨.initial clock, fun _ h => absurd rfl h, rfl, by simp, .initial clock, by simp, by simp⟩

end Tally

end StreamGate.State
