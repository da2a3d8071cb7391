import StreamGate.State.Batches
import StreamGate.State.Failures

/-!
# The cascade of a stream whose publisher is gone

`deregisterAllMembers` reads the members of a stream, sends one batch for those whose tasks it can read and deletes
the set of the members.  Run alone on a store in which that set is right, it takes away all that belongs to the
stream and nothing else (`Cleared`).

The set of the members is deleted whatever became of the batch and of the reads before it.  `index_kept_iff` says with
which failures the members that are left are still listed.
-/

namespace StreamGate.State

open StreamGate.Redis StreamGate.Task StreamGate.Lib

/-! ### What a batch can touch -/

section Frame

variable {w : World} {k : Key}

theorem after_sameAt {cs : List Cmd} (h : ∀ c ∈ cs, c.key ≠ some k) : SameAt k w (after cs w) := by
  induction cs generalizing w with
  | nil => exact .refl k w
  | cons c cs ih =>
    obtain ⟨hc, hcs⟩ := List.forall_mem_cons.1 h
    exact (SameAt.handle hc).trans (ih hcs)

/-- A batch leaves a key as it was that belongs to none of its targets. -/
theorem dropTasks_sameAt {ids : List TaskIdentifier}
    (hids : ∀ id ∈ ids, k ≠ buildTaskKey id.streamName id.clientId ∧ k ≠ memberKey id.streamName ∧
      k ≠ buildPublisherKey id.streamName)
    (hactive : k ≠ buildActivePublishersKey) (htotal : k ≠ buildGlobalPlayerCountKey) :
    SameAt k w (dropTasks ids w) := by
  rw [← after_flatMap_batchCmds]
  apply after_sameAt
  intro c hc
  obtain ⟨⟨s, c', ty⟩, hid, hc⟩ := List.mem_flatMap.1 hc
  obtain ⟨htask, hmember, hpub⟩ := hids _ hid
  have hcmd : c.key = some (buildTaskKey s c') ∨ c.key = some (memberKey s) ∨
      c.key = some (buildPublisherKey s) ∨ c.key = some buildActivePublishersKey ∨
      c.key = some buildGlobalPlayerCountKey := by
    cases ty <;> simp only [batchCmds, List.mem_append, List.mem_cons, List.not_mem_nil, or_false] at hc
    · rcases hc with (rfl | rfl) | rfl | rfl <;> simp [Cmd.key]
    · rcases hc with (rfl | rfl) | rfl <;> simp [Cmd.key]
  intro hk
  rcases hcmd with e | e | e | e | e <;> rw [hk] at e <;> have e := Option.some.inj e
  · exact htask e
  · exact hmember e
  · exact hpub e
  · exact hactive e
  · exact htotal e

end Frame

/-! ### The store before -/

/-- The structures of a stream fit together. -/
structure StreamFits (w : World) (s : String) : Prop where
  /-- The members are the clients whose task can be read. -/
  members : ∀ c, c ∈ w.sets (memberKey s) ↔ (taskAt w (buildTaskKey s c)).isSome
  /-- The publisher of the stream is a member whose task is a publisher's. -/
  owner : ∀ f, w.fieldsAt (buildPublisherKey s) = some f →
    ∃ c ∈ w.sets (memberKey s), f .client_id = some c ∧
      (taskAt w (buildTaskKey s c)).any fun t => t.type = .PUBLISHER
  /-- An active stream has a publisher. -/
  active : s ∈ w.sets buildActivePublishersKey → (w.fieldsAt (buildPublisherKey s)).isSome

/-- How many members of a stream are players. -/
def playerMembers (w : World) (s : String) : ℕ :=
  (w.sets (memberKey s)).elems.countP fun c => (taskAt w (buildTaskKey s c)).any fun t => t.type = .PLAYER

/-- The keys that the cascade of a stream is about.  Two keys with the same text are the same key
(`Key.name_injective`). -/
def Concerns (w : World) (s : String) (k : Key) : Prop :=
  (∃ c ∈ w.sets (memberKey s), k.name = (buildTaskKey s c).name) ∨ k.name = (memberKey s).name ∨
    k.name = (buildPublisherKey s).name ∨ k.name = buildActivePublishersKey.name ∨
    k.name = buildGlobalPlayerCountKey.name

/-- The store after a cascade that did its work and no other. -/
structure Cleared (w : World) (s : String) (w' : World) : Prop where
  task : ∀ c ∈ w.sets (memberKey s), w'.hashes (buildTaskKey s c) = none
  members : w'.sets (memberKey s) = .empty
  pub : w'.hashes (buildPublisherKey s) = none
  active : ¬ s ∈ w'.sets buildActivePublishersKey
  total : totalOf (w'.hashes buildGlobalPlayerCountKey) =
    totalOf (w.hashes buildGlobalPlayerCountKey) - playerMembers w s
  other : ∀ s', s' ≠ s → (s' ∈ w'.sets buildActivePublishersKey ↔ s' ∈ w.sets buildActivePublishersKey)
  frame : ∀ k, ¬ Concerns w s k → SameAt k w w'

section Cascade

variable {w : World} {s : String}

theorem players_memberTasks (w : World) (s : String) (cids : List String) :
    players (memberTasks w s cids) =
      cids.countP fun c => (taskAt w (buildTaskKey s c)).any fun t => t.type = .PLAYER := by
  unfold players memberTasks
  rw [List.countP_filterMap]
  apply List.countP_congr
  intro c _
  cases taskAt w (buildTaskKey s c) <;> simp

/-- The identifiers of a batch of members. -/
theorem mem_memberTasks {id : TaskIdentifier} {cids : List String} (h : id ∈ memberTasks w s cids) :
    id.streamName = s ∧ id.clientId ∈ cids := by
  obtain ⟨c, hc, h⟩ := List.mem_filterMap.1 h
  obtain ⟨t, -, rfl⟩ := Option.map_eq_some_iff.1 h
  exact ⟨rfl, hc⟩

theorem clearStream_sameAt {k : Key} (h : ¬ Concerns w s k) : SameAt k w (clearStream s w) := by
  have hne : ∀ l, k.name ≠ l.name → k ≠ l := fun l hl e => hl (congrArg Key.name e)
  obtain ⟨htask, h⟩ := not_or.1 h
  obtain ⟨hmember, h⟩ := not_or.1 h
  obtain ⟨hpub, h⟩ := not_or.1 h
  obtain ⟨hactive, htotal⟩ := not_or.1 h
  unfold clearStream
  apply (dropTasks_sameAt _ (hne _ hactive) (hne _ htotal)).trans (.del (hne _ hmember))
  intro id hid
  obtain ⟨hs, hc⟩ := mem_memberTasks hid
  rw [hs]
  exact ⟨hne _ fun e => htask ⟨id.clientId, hc, e⟩, hne _ hmember, hne _ hpub⟩

/-- The publisher of the stream is found among the members. -/
theorem StreamFits.hasPublisher (h : StreamFits w s) (hp : (w.fieldsAt (buildPublisherKey s)).isSome) :
    HasPublisher w s := by
  obtain ⟨f, hf⟩ := Option.isSome_iff_exists.1 hp
  obtain ⟨c, hc, -, ht⟩ := h.owner f hf
  exact ⟨c, hc, ht⟩

theorem StreamFits.clearStream (h : StreamFits w s) : Cleared w s (clearStream s w) where
  task c hc := by
    have hmem : ∃ id ∈ memberTasks w s (w.sets (memberKey s)).elems,
        buildTaskKey s c = buildTaskKey id.streamName id.clientId := by
      obtain ⟨t, ht⟩ := Option.isSome_iff_exists.1 ((h.members c).1 hc)
      exact ⟨⟨s, c, t.type⟩, List.mem_filterMap.2 ⟨c, hc, by rw [ht]; rfl⟩, rfl⟩
    have hne : buildTaskKey s c ≠ memberKey s := by simp [buildTaskKey, memberKey]
    rw [State.clearStream, World.del_hashes_of_ne _ _ _ hne]
    exact (dropTasks_task w _ _).trans (if_pos hmem)
  members := clearStream_members w s
  pub := by
    apply (clearStream_pub w s s).trans
    by_cases hp : (w.fieldsAt (buildPublisherKey s)).isSome
    · exact if_pos ⟨h.hasPublisher hp, rfl⟩
    · rw [World.fieldsAt, Option.isSome_map, Option.not_isSome_iff_eq_none] at hp
      split
      · rfl
      · exact hp
  active := by
    have hne : buildActivePublishersKey ≠ memberKey s := by simp [memberKey, buildActivePublishersKey]
    rw [State.clearStream, World.del_sets_of_ne _ _ _ hne]
    intro hs
    obtain ⟨hnames, hs⟩ := (mem_dropTasks_active w _ s).1 hs
    exact hnames ((namesPublisher_memberTasks w s s).2 ⟨h.hasPublisher (h.active hs), rfl⟩)
  total := by
    have hne : buildGlobalPlayerCountKey ≠ memberKey s := by simp [memberKey, buildGlobalPlayerCountKey]
    rw [State.clearStream, World.del_hashes_of_ne _ _ _ hne]
    have hglobal := dropTasks_global w (memberTasks w s (w.sets (memberKey s)).elems)
    rw [buildGlobalPlayerCountKey, hglobal, totalOf_iterate, players_memberTasks]
    rfl
  other s' hs' := by
    have hne : buildActivePublishersKey ≠ memberKey s := by simp [memberKey, buildActivePublishersKey]
    rw [State.clearStream, World.del_sets_of_ne _ _ _ hne]
    apply (mem_dropTasks_active w _ s').trans
    rw [namesPublisher_memberTasks]
    exact and_iff_right fun hp => hs' hp.2
  frame k hk := clearStream_sameAt hk

end Cascade

/-- **The cascade is complete and local.**  On a stream whose structures fit together it takes away every task and the
keys of the stream, counts down every player once, and leaves the rest as it was. -/
theorem deregisterAllMembers_cleared {w : World} {s : String} (h : StreamFits w s) :
    Cleared w s (w.run (deregisterAllMembers s)).2 := by
  rw [run_deregisterAllMembers]
  exact h.clearStream

/-- A publisher and a player of one stream, at the start of a day on which nothing has been stored. -/
def liveStore : World :=
  let now := 1700000000000000000
  let w := ((World.initial now).run (registerTask { playerAt now with client_id := "a", type := .PUBLISHER })).2
  (w.run (registerTask (playerAt now))).2

theorem liveStore_task {c : String} (ha : c ≠ "a") (hb : c ≠ "b") :
    liveStore.hashes (buildTaskKey "live" c) = none := by
  have hkey : ∀ t : StreamTask, t.stream_name = "live" → c ≠ t.client_id → buildTaskKey "live" c ≠ t.key := by
    rintro t hs hc e
    rw [StreamTask.key, hs] at e
    exact hc (taskKey_client.1 e)
  apply (registerTask_task_of_ne (hkey _ rfl hb)).trans
  exact registerTask_task_of_ne (hkey { playerAt 1700000000000000000 with client_id := "a", type := .PUBLISHER } rfl ha)

theorem mem_liveStore {c : String} : c ∈ liveStore.sets (memberKey "live") ↔ c = "a" ∨ c = "b" := by
  have helems : (liveStore.sets (memberKey "live")).elems = ["a", "b"] := by decide +kernel
  rw [RSet.mem_def, helems, List.mem_pair]

theorem streamFits_liveStore : StreamFits liveStore "live" where
  members c := by
    rw [mem_liveStore]
    constructor
    · rintro (rfl | rfl)
      · decide +kernel
      · decide +kernel
    · intro h
      by_contra hc
      obtain ⟨ha, hb⟩ := not_or.1 hc
      have hnone : taskAt liveStore (buildTaskKey "live" c) = none := taskAt_of_none (liveStore_task ha hb)
      rw [hnone] at h
      exact Bool.false_ne_true h
  owner f hf := by
    have howner : (liveStore.fieldsAt (buildPublisherKey "live")).bind (fun f => f .client_id) = some "a" := by
      decide +kernel
    rw [hf] at howner
    exact ⟨"a", mem_liveStore.2 (.inl rfl), howner, by decide +kernel⟩
  active _ := by decide +kernel

/-- The cascade of that stream. -/
theorem liveStore_cleared : Cleared liveStore "live" (liveStore.run (deregisterAllMembers "live")).2 :=
  deregisterAllMembers_cleared streamFits_liveStore

/-! ### Failing commands -/

/-- The targets that a cascade collects: a failed read gives none. -/
def readMembers (fails : ℕ → Bool) (w : World) (s : String) : List String → List TaskIdentifier
  | [] => []
  | c :: cids =>
    ((if fails 0 then none else taskAt w (buildTaskKey s c)).map fun t => ⟨s, c, t.type⟩).toList ++
      readMembers (fun i => fails (i + 1)) w s cids

section Failing

variable {β : Type} (w : World) (s : String) (fails : ℕ → Bool)

theorem runWith_collectMembers (cids : List String) (k : List TaskIdentifier → RProg β) :
    w.runWith fails (collectMembers s cids >>= k) =
      w.runWith (fun i => fails (i + cids.length)) (k (readMembers fails w s cids)) := by
  induction cids generalizing fails k with
  | nil => rfl
  | cons c cids ih =>
    -- one read, with its result kept for later
    have hstep : ∀ t : Option StreamTask, w.runWith (fun i => fails (i + 1))
        ((collectMembers s cids >>= fun tasks =>
          .ret ((t.map fun t => (⟨s, c, t.type⟩ : TaskIdentifier)).toList ++ tasks)) >>= k) =
        w.runWith (fun i => fails (i + (cids.length + 1)))
          (k ((t.map fun t => (⟨s, c, t.type⟩ : TaskIdentifier)).toList ++
            readMembers (fun i => fails (i + 1)) w s cids)) := by
      intro t
      rw [Prog.bind_assoc, ih]
      rfl
    rw [readMembers, List.length_cons]
    cases h0 : fails 0 with
    | true => exact (Prog.runWith_failed handle h0 w).trans (hstep none)
    | false => exact (Prog.runWith_served handle h0 w).trans (hstep (taskAt w (buildTaskKey s c)))

theorem runWith_keyDel (k : Key) : w.runWith fails (keyDel k >>= fun _ => .ret ()) =
    ((), if fails 0 then w else w.del k) := by
  cases h0 : fails 0 with
  | true => exact Prog.runWith_failed handle h0 w
  | false => exact Prog.runWith_served handle h0 w

/-- A batch fails as a whole. -/
theorem runWith_deregisterTasksBatch (ids : List TaskIdentifier) (k : RProg β) :
    w.runWith fails (deregisterTasksBatch ids >>= fun _ => k) =
      if ids = [] then w.runWith fails k
      else (if fails 0 then w else dropTasks ids w).runWith (fun i => fails (i + 1)) k := by
  unfold deregisterTasksBatch
  split
  · rfl
  · rename_i hids
    obtain ⟨c, cs, hcs⟩ : ∃ c cs, ids.flatMap batchCmds = c :: cs := by
      obtain ⟨id, ids, rfl⟩ := List.exists_cons_of_ne_nil hids
      exact ⟨_, _, by rw [List.flatMap_cons]; rfl⟩
    rw [← after_flatMap_batchCmds, hcs, Prog.bind_assoc]
    apply (runWith_pipeline w fails c cs _).trans
    split <;> rfl

/-- The listed clients: none if the set of the members cannot be read. -/
def listed (fails : ℕ → Bool) (w : World) (s : String) : List String :=
  if fails 0 then [] else (w.sets (memberKey s)).elems

/-- The targets of a cascade. -/
def targets (fails : ℕ → Bool) (w : World) (s : String) : List TaskIdentifier :=
  readMembers (fun i => fails (i + 1)) w s (listed fails w s)

/-- A cascade whose commands may fail: the reads, the batch if it has a target, and the deletion of the set. -/
theorem runWith_deregisterAllMembers : w.runWith fails (deregisterAllMembers s) =
    if targets fails w s = [] then ((), if fails ((listed fails w s).length + 1) then w else w.del (memberKey s))
    else
      let w' := if fails ((listed fails w s).length + 1) then w else dropTasks (targets fails w s) w
      ((), if fails ((listed fails w s).length + 2) then w' else w'.del (memberKey s)) := by
  have hnone : listed fails w s = [] → w.runWith fails (deregisterAllMembers s) =
      w.runWith (fun i => fails (i + 1)) (keyDel (memberKey s) >>= fun _ => .ret ()) := by
    intro hl
    cases h0 : fails 0 with
    | true => exact Prog.runWith_failed handle h0 w
    | false =>
      apply (Prog.runWith_served handle h0 w).trans
      have hempty : (w.sets (memberKey s)).elems = [] := by simpa [listed, h0] using hl
      show w.runWith _ (if (w.sets (memberKey s)).elems = [] then _ else _) = _
      rw [if_pos hempty]
      rfl
  have hsome : listed fails w s ≠ [] → w.runWith fails (deregisterAllMembers s) =
      w.runWith (fun i => fails (i + 1)) (collectMembers s (listed fails w s) >>= fun tasks =>
        deregisterTasksBatch tasks >>= fun _ => keyDel (memberKey s) >>= fun _ => .ret ()) := by
    intro hl
    cases h0 : fails 0 with
    | true => exact absurd (if_pos h0) hl
    | false =>
      apply (Prog.runWith_served handle h0 w).trans
      have hmembers : listed fails w s = (w.sets (memberKey s)).elems := by simp [listed, h0]
      rw [hmembers] at hl ⊢
      show w.runWith _ (if (w.sets (memberKey s)).elems = [] then _ else _) = _
      rw [if_neg hl]
      rfl
  by_cases hl : listed fails w s = []
  · have htargets : targets fails w s = [] := by rw [targets, hl]; rfl
    rw [hnone hl, runWith_keyDel, if_pos htargets, hl]
    rfl
  · have hbatch : 0 + (listed fails w s).length + 1 = (listed fails w s).length + 1 := by omega
    have hdel : 0 + 1 + (listed fails w s).length + 1 = (listed fails w s).length + 2 := by omega
    rw [hsome hl, runWith_collectMembers, runWith_deregisterTasksBatch, runWith_keyDel, runWith_keyDel, hbatch, hdel]
    rfl

theorem exists_served_cons {c d : String} {cids : List String} :
    (∃ i, (c :: cids)[i]? = some d ∧ fails i = false) ↔
      (c = d ∧ fails 0 = false) ∨ ∃ i, cids[i]? = some d ∧ fails (i + 1) = false := by
  constructor
  · rintro ⟨i, hi, hf⟩
    cases i with
    | zero => exact .inl ⟨Option.some.inj hi, hf⟩
    | succ i => exact .inr ⟨i, hi, hf⟩
  · rintro (⟨rfl, hf⟩ | ⟨i, hi, hf⟩)
    · exact ⟨0, rfl, hf⟩
    · exact ⟨i + 1, hi, hf⟩

theorem mem_readMembers {cids : List String} {id : TaskIdentifier} : id ∈ readMembers fails w s cids ↔
    id.streamName = s ∧ (∃ i, cids[i]? = some id.clientId ∧ fails i = false) ∧
      (taskAt w (buildTaskKey s id.clientId)).map StreamTask.type = some id.type := by
  induction cids generalizing fails with
  | nil => simp [readMembers]
  | cons c cids ih =>
    have hread : id ∈ ((if fails 0 then none else taskAt w (buildTaskKey s c)).map
        fun t => (⟨s, c, t.type⟩ : TaskIdentifier)).toList ↔
        id.streamName = s ∧ (c = id.clientId ∧ fails 0 = false) ∧
          (taskAt w (buildTaskKey s id.clientId)).map StreamTask.type = some id.type := by
      obtain ⟨s', c', ty⟩ := id
      by_cases hc : c = c'
      · subst hc
        cases fails 0 <;> cases taskAt w (buildTaskKey s c) <;> simp [eq_comm]
      · cases fails 0 <;> cases taskAt w (buildTaskKey s c) <;> simp [hc, Ne.symm hc]
    rw [readMembers, List.mem_append, hread, ih, exists_served_cons]
    constructor
    · rintro (⟨hs, hc, ht⟩ | ⟨hs, hc, ht⟩)
      · exact ⟨hs, .inl hc, ht⟩
      · exact ⟨hs, .inr hc, ht⟩
    · rintro ⟨hs, hc | hc, ht⟩
      · exact .inl ⟨hs, hc, ht⟩
      · exact .inr ⟨hs, hc, ht⟩

end Failing

/-! ### Which members stay listed -/

/-- The client is found: the set of the members and the hash of the client are read, and the hash is a task. -/
def Finds (fails : ℕ → Bool) (w : World) (s c : String) : Prop :=
  (∃ i, (listed fails w s)[i]? = some c ∧ fails (i + 1) = false) ∧ (taskAt w (buildTaskKey s c)).isSome

/-- The batch goes through: it comes after the reads. -/
def BatchServed (fails : ℕ → Bool) (w : World) (s : String) : Prop := fails ((listed fails w s).length + 1) = false

/-- The last command fails: it comes after the batch if a client is found, else in its place. -/
def DelFails (fails : ℕ → Bool) (w : World) (s : String) : Prop :=
  ((∃ c, Finds fails w s c) ∧ fails ((listed fails w s).length + 2) = true) ∨
    ((¬ ∃ c, Finds fails w s c) ∧ fails ((listed fails w s).length + 1) = true)

/-- Every client of the stream that has a hash is a member. -/
def Listed (w : World) (s : String) : Prop :=
  ∀ c, w.hashes (buildTaskKey s c) ≠ none → c ∈ w.sets (memberKey s)

section Kept

variable {fails : ℕ → Bool} {w : World} {s : String}

theorem mem_targets {id : TaskIdentifier} : id ∈ targets fails w s ↔ id.streamName = s ∧
    (∃ i, (listed fails w s)[i]? = some id.clientId ∧ fails (i + 1) = false) ∧
      (taskAt w (buildTaskKey s id.clientId)).map StreamTask.type = some id.type :=
  mem_readMembers w s fun i => fails (i + 1)

theorem finds_iff {c : String} : Finds fails w s c ↔ ∃ id ∈ targets fails w s, id.clientId = c := by
  constructor
  · rintro ⟨hi, ht⟩
    obtain ⟨t, ht⟩ := Option.isSome_iff_exists.1 ht
    exact ⟨⟨s, c, t.type⟩, mem_targets.2 ⟨rfl, hi, by rw [ht]; rfl⟩, rfl⟩
  · rintro ⟨id, hid, rfl⟩
    obtain ⟨-, hi, ht⟩ := mem_targets.1 hid
    obtain ⟨t, ht, -⟩ := Option.map_eq_some_iff.1 ht
    exact ⟨hi, by rw [ht]; rfl⟩

theorem targets_eq_nil_iff : targets fails w s = [] ↔ ¬ ∃ c, Finds fails w s c := by
  constructor
  · rintro h ⟨c, hc⟩
    obtain ⟨id, hid, -⟩ := finds_iff.1 hc
    rw [h] at hid
    exact List.not_mem_nil hid
  · intro h
    refine List.eq_nil_iff_forall_not_mem.2 fun id hid => ?_
    exact h ⟨id.clientId, finds_iff.2 ⟨id, hid, rfl⟩⟩

/-- A batch takes away the hashes of the clients found, and no other of the stream. -/
theorem dropTasks_targets_task {c : String} :
    (dropTasks (targets fails w s) w).hashes (buildTaskKey s c) ≠ none ↔
      w.hashes (buildTaskKey s c) ≠ none ∧ ¬ Finds fails w s c := by
  have hids : (∃ id ∈ targets fails w s, buildTaskKey s c = buildTaskKey id.streamName id.clientId) ↔
      Finds fails w s c := by
    rw [finds_iff]
    refine exists_congr fun id => and_congr_right fun hid => ?_
    rw [(mem_targets.1 hid).1, taskKey_client, eq_comm]
  have htask := dropTasks_task w (s ++ ":" ++ c) (targets fails w s)
  by_cases hc : Finds fails w s c
  · have hnone := htask.trans (if_pos (hids.2 hc))
    exact iff_of_false (fun h => h hnone) fun h => h.2 hc
  · have hsame := htask.trans (if_neg fun h => hc (hids.1 h))
    rw [buildTaskKey, hsame]
    exact (and_iff_left hc).symm

theorem dropTasks_targets_members {c : String} :
    c ∈ (dropTasks (targets fails w s) w).sets (memberKey s) ↔ ¬ Finds fails w s c ∧ c ∈ w.sets (memberKey s) := by
  apply (mem_dropTasks_members w _ s c).trans
  refine and_congr_left' (not_congr ?_)
  rw [finds_iff]
  refine exists_congr fun id => and_congr_right fun hid => ?_
  exact and_iff_right (mem_targets.1 hid).1

/-- With the set of the members deleted, nobody may have a hash. -/
theorem listed_del_iff : Listed (w.del (memberKey s)) s ↔ ∀ c, w.hashes (buildTaskKey s c) = none := by
  refine forall_congr' fun c => ?_
  have hne : buildTaskKey s c ≠ memberKey s := nofun
  rw [World.del_hashes_of_ne _ _ _ hne, World.del_sets_self]
  exact (imp_iff_not (RSet.mem_empty.1)).trans not_not

theorem listed_dropTasks (hw : Listed w s) : Listed (dropTasks (targets fails w s) w) s := by
  intro c hc
  obtain ⟨hhash, hfinds⟩ := dropTasks_targets_task.1 hc
  exact dropTasks_targets_members.2 ⟨hfinds, hw c hhash⟩

end Kept

/-- **When a cascade with failing commands keeps the members that are left.**  Its last command fails, or the batch has
gone through and every client with a hash was in it. -/
theorem index_kept_iff {fails : ℕ → Bool} {w : World} {s : String} (hw : Listed w s) :
    Listed (w.runWith fails (deregisterAllMembers s)).2 s ↔
      DelFails fails w s ∨
        ∀ c, w.hashes (buildTaskKey s c) ≠ none → Finds fails w s c ∧ BatchServed fails w s := by
  rw [runWith_deregisterAllMembers]
  by_cases hids : targets fails w s = []
  · have hfinds := targets_eq_nil_iff.1 hids
    have hdel : DelFails fails w s ↔ fails ((listed fails w s).length + 1) = true :=
      ⟨fun h => h.elim (fun h => absurd h.1 hfinds) And.right, fun h => .inr ⟨hfinds, h⟩⟩
    rw [if_pos hids, hdel]
    by_cases hf : fails ((listed fails w s).length + 1) = true
    · rw [if_pos hf]
      exact iff_of_true hw (.inl hf)
    · rw [if_neg hf, listed_del_iff, or_iff_right hf]
      refine forall_congr' fun c => ?_
      have hc : ¬ (Finds fails w s c ∧ BatchServed fails w s) := fun h => hfinds ⟨c, h.1⟩
      exact ((imp_iff_not hc).trans not_not).symm
  · have hfinds : ∃ c, Finds fails w s c := not_not.1 fun h => hids (targets_eq_nil_iff.2 h)
    have hdel : DelFails fails w s ↔ fails ((listed fails w s).length + 2) = true :=
      ⟨fun h => h.elim And.right fun h => absurd hfinds h.1, fun h => .inl ⟨hfinds, h⟩⟩
    rw [if_neg hids, hdel]
    dsimp only
    by_cases hf : fails ((listed fails w s).length + 2) = true
    · rw [if_pos hf]
      refine iff_of_true ?_ (.inl hf)
      split
      · exact hw
      · exact listed_dropTasks hw
    · rw [if_neg hf, listed_del_iff, or_iff_right hf]
      refine forall_congr' fun c => ?_
      unfold BatchServed
      cases hbatch : fails ((listed fails w s).length + 1) with
      | true => simp
      | false =>
        rw [if_neg Bool.false_ne_true, ← not_iff_not]
        apply dropTasks_targets_task.trans
        simp

theorem listed_liveStore : Listed liveStore "live" := by
  intro c hc
  rw [mem_liveStore]
  by_contra hne
  obtain ⟨ha, hb⟩ := not_or.1 hne
  exact hc (liveStore_task ha hb)

/-- The batch of that stream fails, and so does the deletion of the set: every task that is left is listed. -/
theorem liveStore_index_kept :
    Listed liveStore "live" ∧
      Listed (liveStore.runWith (fun i => 3 ≤ i) (deregisterAllMembers "live")).2 "live" := by
  have hfinds : Finds (fun i => 3 ≤ i) liveStore "live" "a" :=
    ⟨⟨0, by decide +kernel, by decide⟩, by decide +kernel⟩
  have hdel : DelFails (fun i => 3 ≤ i) liveStore "live" := .inl ⟨⟨"a", hfinds⟩, by decide +kernel⟩
  exact ⟨listed_liveStore, (index_kept_iff listed_liveStore).2 (.inl hdel)⟩

/-- The members cannot be read: the stream looks empty, the set is deleted and the tasks stay. -/
theorem index_lost :
    let w' := (liveStore.runWith (fun i => i = 0) (deregisterAllMembers "live")).2
    Listed liveStore "live" ∧ (w'.hashes (buildTaskKey "live" "a")).isSome ∧
      (w'.sets (memberKey "live")).elems = [] ∧ ¬ Listed w' "live" := by
  intro w'
  have hhash : (w'.hashes (buildTaskKey "live" "a")).isSome := by decide +kernel
  have hempty : (w'.sets (memberKey "live")).elems = [] := by decide +kernel
  refine ⟨listed_liveStore, hhash, hempty, fun h => ?_⟩
  have ha := h "a" (Option.isSome_iff_ne_none.1 hhash)
  rw [RSet.mem_def, hempty] at ha
  exact List.not_mem_nil ha

end StreamGate.State
