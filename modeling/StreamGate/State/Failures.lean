import StreamGate.State.Copies
import StreamGate.State.Streams

/-!
# Registrations with failing commands

A registration run alone while some of its Redis commands fail.  A failed read looks like a missing
key, and a registration that cannot be completed is rolled back by `deregisterTask`, which deletes by
the names and the type of the task whatever was there before.

`exclusive_iff` says which patterns of failures let a second client take or free a stream that has a
publisher.
-/

namespace StreamGate.State

open StreamGate.Redis StreamGate.Task StreamGate.Lib

/-! ### The parts of a registration -/

section Parts

variable {β : Type} (w : World) (t : StreamTask) (fails : ℕ → Bool)

theorem runWith_sendRest (cs : List Cmd) (k : Unit → RProg β) :
    w.runWith fails (sendRest cs >>= k) = (after cs w).runWith fails (k ()) := by
  induction cs generalizing w with
  | nil => rfl
  | cons c cs ih => exact ih (handle c w).2

/-- A pipeline fails as a whole. -/
theorem runWith_pipeline (c : Cmd) (cs : List Cmd) (k : Bool → RProg β) :
    w.runWith fails (pipeline (c :: cs) >>= k) =
      if fails 0 then w.runWith (fun i => fails (i + 1)) (k false)
      else (after (c :: cs) w).runWith (fun i => fails (i + 1)) (k true) := by
  cases h0 : fails 0 with
  | true => exact Prog.runWith_failed handle h0 w
  | false =>
    apply (Prog.runWith_served handle h0 w).trans
    show World.runWith (handle c w).2 _ ((sendRest cs >>= fun _ => Prog.ret true) >>= k) = _
    rw [Prog.bind_assoc]
    exact runWith_sendRest _ _ cs fun _ => k true

theorem runWith_batch (id : TaskIdentifier) (k : RProg β) :
    w.runWith fails (deregisterTasksBatch [id] >>= fun _ => k) =
      (if fails 0 then w else dropTask id w).runWith (fun i => fails (i + 1)) k := by
  have hcmds : [id].flatMap batchCmds = batchCmds id := by rw [List.flatMap_singleton]
  unfold deregisterTasksBatch
  rw [if_neg (List.cons_ne_nil id []), hcmds, Prog.bind_assoc]
  apply (runWith_pipeline w fails _ _ _).trans
  split <;> rfl

/-- The time stamp of a client taken out. -/
def unstamp (s c : String) (w : World) : World :=
  w.setZset buildTaskTimestampZSetKey ((w.zsets buildTaskTimestampZSetKey).rem (buildTaskKey s c))

/-- A deregistration whose two commands may fail: if the first does, the client is taken for one that
has no task. -/
def forgetWith (fails : ℕ → Bool) (s c : String) (w : World) : World :=
  if fails 1 then w else if fails 0 then unstamp s c w else forget s c w

theorem runWith_deregisterTask (s c : String) (k : RProg β) :
    w.runWith fails (deregisterTask s c >>= fun _ => k) =
      (forgetWith fails s c w).runWith (fun i => fails (i + 2)) k := by
  have hzrem : w.runWith (fun i => fails (i + 1))
      ((zsetRem buildTaskTimestampZSetKey (buildTaskKey s c) >>= fun _ => pure true) >>= fun _ => k) =
      (if fails 1 then w else unstamp s c w).runWith (fun i => fails (i + 2)) k := by
    cases h1 : fails 1 with
    | true => exact Prog.runWith_failed handle h1 w
    | false => exact Prog.runWith_served handle h1 w
  rw [deregisterTask_eq]
  unfold forgetWith
  cases h0 : fails 0 with
  | true => exact (Prog.runWith_failed handle h0 w).trans hzrem
  | false =>
    apply (Prog.runWith_served handle h0 w).trans
    show World.runWith w _ ((taskAt w (buildTaskKey s c)).elim _ _ >>= fun _ => k) = _
    unfold forget
    cases ht : taskAt w (buildTaskKey s c) with
    | none => exact hzrem
    | some q =>
      show World.runWith w _ ((deregisterTasksBatch [⟨s, c, q.type⟩] >>= fun n => pure (decide (0 < n))) >>=
        fun _ => k) = _
      rw [Prog.bind_assoc]
      apply (runWith_batch w _ _ k).trans
      cases h1 : fails 1 <;> rfl

theorem runWith_rollBack :
    w.runWith fails (rollBack t) = (false, forgetWith fails t.stream_name t.client_id w) :=
  runWith_deregisterTask w fails t.stream_name t.client_id (.ret false)

theorem runWith_registerTimestamp : w.runWith fails (registerTimestamp t) =
    if Reasonable (ms w.clock) then
      if fails 0 then w.runWith (fun i => fails (i + 1)) (rollBack t)
      else (true, w.setZset buildTaskTimestampZSetKey
        ((w.zsets buildTaskTimestampZSetKey).add t.key (ms w.clock)))
    else w.runWith fails (rollBack t) := by
  show w.runWith fails (if ¬ Reasonable (ms w.clock) then rollBack t else _) = _
  by_cases hclock : Reasonable (ms w.clock)
  · rw [if_neg (not_not.2 hclock), if_pos hclock]
    cases h0 : fails 0 with
    | true => exact Prog.runWith_failed handle h0 w
    | false => exact Prog.runWith_served handle h0 w
  · rw [if_pos hclock, if_neg hclock]

theorem runWith_registerIndices_publisher (hp : t.type = .PUBLISHER) : w.runWith fails (registerIndices t) =
    if fails 0 = false ∧ (taskAt w (buildPublisherKey t.stream_name)).any fun p => p.client_id ≠ t.client_id then
      w.runWith (fun i => fails (i + 1)) (rollBack t)
    else if fails 1 then w.runWith (fun i => fails (i + 2)) (rollBack t)
    else (indexPublisher t w).runWith (fun i => fails (i + 2)) (registerTimestamp t) := by
  have hwrite : w.runWith (fun i => fails (i + 1))
      (pipeline [.hset (buildPublisherKey t.stream_name) (serializeTask t),
        .sadd (memberKey t.stream_name) t.client_id, .sadd buildActivePublishersKey t.stream_name] >>=
          fun index_ok => if index_ok then registerTimestamp t else rollBack t) =
      if fails 1 then w.runWith (fun i => fails (i + 2)) (rollBack t)
      else (indexPublisher t w).runWith (fun i => fails (i + 2)) (registerTimestamp t) :=
    runWith_pipeline w _ _ _ _
  unfold registerIndices
  rw [if_pos hp]
  cases h0 : fails 0 with
  | true =>
    rw [if_neg fun h => Bool.noConfusion h.1, ← hwrite]
    exact Prog.runWith_failed handle h0 w
  | false =>
    apply (Prog.runWith_served handle h0 w).trans
    show w.runWith _ ((if (taskAt w (buildPublisherKey t.stream_name)).any fun p => p.client_id ≠ t.client_id then
      Prog.ret false else _) >>= _) = _
    by_cases hany : (taskAt w (buildPublisherKey t.stream_name)).any fun p => p.client_id ≠ t.client_id
    · rw [if_pos hany, if_pos ⟨rfl, hany⟩]
      rfl
    · rw [if_neg hany, if_neg fun h => hany h.2, ← hwrite]

/-- The set of the members with the client in it. -/
def enlist (t : StreamTask) (w : World) : World :=
  w.setSet (memberKey t.stream_name) ((w.sets (memberKey t.stream_name)).add t.client_id)

theorem runWith_registerIndices_player (hp : t.type = .PLAYER) : w.runWith fails (registerIndices t) =
    if fails 0 then w.runWith (fun i => fails (i + 1)) (rollBack t)
    else (if fails 1 then enlist t w else indexPlayer t w).runWith (fun i => fails (i + 2))
      (registerTimestamp t) := by
  unfold registerIndices
  rw [if_neg (by rw [hp]; decide)]
  cases h0 : fails 0 with
  | true => exact Prog.runWith_failed handle h0 w
  | false =>
    apply (Prog.runWith_served handle h0 w).trans
    cases h1 : fails 1 with
    | true => exact Prog.runWith_failed handle h1 (enlist t w)
    | false => exact Prog.runWith_served handle h1 (enlist t w)

theorem runWith_registerHash : w.runWith fails (registerHash t) =
    if fails 0 then (false, w)
    else if fails 1 then (false, if fails 2 then w.hset t.key (serializeTask t)
      else (w.hset t.key (serializeTask t)).del t.key)
    else (putTask t w).runWith (fun i => fails (i + 2)) (registerIndices t) := by
  cases h0 : fails 0 with
  | true => exact Prog.runWith_failed handle h0 w
  | false =>
    apply (Prog.runWith_served handle h0 w).trans
    cases h1 : fails 1 with
    | true =>
      apply (Prog.runWith_failed handle h1 (w.hset t.key (serializeTask t))).trans
      cases h2 : fails 2 with
      | true => exact Prog.runWith_failed handle h2 (w.hset t.key (serializeTask t))
      | false => exact Prog.runWith_served handle h2 (w.hset t.key (serializeTask t))
    | false =>
      apply (Prog.runWith_served handle h1 (w.hset t.key (serializeTask t))).trans
      have hsome : ((w.hset t.key (serializeTask t)).hashes t.key).isSome := by rw [World.hset_self]; rfl
      show World.runWith (putTask t w) _ (if ((w.hset t.key (serializeTask t)).hashes t.key).isSome then
        registerIndices t else _) = _
      rw [if_pos hsome]
      rfl

/-- The registration of a publisher: a failed check finds the stream free. -/
theorem runWith_registerTask_publisher (hp : t.type = .PUBLISHER) : w.runWith fails (registerTask t) =
    (if fails 0 then none else pubAt w t.stream_name).elim
      (w.runWith (fun i => fails (i + 1)) (registerHash t))
      fun p => if p.client_id ≠ t.client_id then (false, w)
        else (forgetWith (fun i => fails (i + 1)) t.stream_name t.client_id w).runWith (fun i => fails (i + 3))
          (registerHash t) := by
  unfold registerTask
  rw [if_pos hp]
  cases h0 : fails 0 with
  | true => exact Prog.runWith_failed handle h0 w
  | false =>
    apply (Prog.runWith_served handle h0 w).trans
    rw [if_neg Bool.false_ne_true]
    have hread : readPublisher (handle (.hgetall (buildPublisherKey t.stream_name)) w).1 =
      pubAt w t.stream_name := rfl
    dsimp only [Option.elim, id, Prog.bind, Prog.pure_eq] at hread ⊢
    rw [hread]
    cases pubAt w t.stream_name with
    | none => rfl
    | some p =>
      dsimp only
      by_cases hc : p.client_id ≠ t.client_id
      · rw [if_pos hc, if_pos hc]
        rfl
      · rw [if_neg hc, if_neg hc]
        exact runWith_deregisterTask w _ _ _ _

theorem runWith_registerTask_player (hp : t.type = .PLAYER) : w.runWith fails (registerTask t) =
    if fails 0 = false ∧ w.hasKey t.key then
      (forgetWith (fun i => fails (i + 1)) t.stream_name t.client_id w).runWith (fun i => fails (i + 3))
        (registerHash t)
    else w.runWith (fun i => fails (i + 1)) (registerHash t) := by
  unfold registerTask
  rw [if_neg (by rw [hp]; decide)]
  cases h0 : fails 0 with
  | true =>
    rw [if_neg fun h => Bool.noConfusion h.1]
    exact Prog.runWith_failed handle h0 w
  | false =>
    apply (Prog.runWith_served handle h0 w).trans
    show w.runWith _ (if w.hasKey t.key then _ else _) = _
    by_cases hkey : w.hasKey t.key
    · rw [if_pos hkey, if_pos ⟨rfl, hkey⟩]
      exact runWith_deregisterTask w _ _ _ _
    · rw [if_neg hkey, if_neg fun h => hkey h.2]

end Parts

/-! ### Exclusivity -/

/-- A registration does not succeed, and leaves the publisher of the stream `s` where it is. -/
def Refuses (w : World) (s : String) (res : Bool × World) : Prop :=
  res.1 = false ∧ res.2.hashes (buildPublisherKey s) = w.hashes (buildPublisherKey s) ∧
    (s ∈ w.sets buildActivePublishersKey → s ∈ res.2.sets buildActivePublishersKey)

/-- The failures that let a second client in.  The first check fails and the hash is written; then the
second check succeeds and the rollback goes through, or it fails as well and the publisher keys are
written, or they are not and the rollback goes through.  A rollback needs to read the task back. -/
def LetsIn (t : StreamTask) (fails : ℕ → Bool) : Prop :=
  fails 0 = true ∧ fails 1 = false ∧ fails 2 = false ∧
    if fails 3 then fails 4 = true → t.Readable ∧ fails 5 = false ∧ fails 6 = false
    else t.Readable ∧ fails 4 = false ∧ fails 5 = false

section Exclusive

variable {w u : World} {t p : StreamTask}

theorem publishing_putTask (hp : t.type = .PUBLISHER) :
    publishing (putTask t w) t.stream_name t.client_id = decide t.Readable := by
  have h : taskAt (putTask t w) (buildTaskKey t.stream_name t.client_id) = _ := taskAt_putTask_self
  rw [publishing, h]
  by_cases hr : t.Readable
  · rw [if_pos hr, Option.any_some, stored_type, hp, decide_eq_true hr]
    rfl
  · rw [if_neg hr, decide_eq_false hr]
    rfl

theorem forgetWith_pub (fails : ℕ → Bool) (s c s' : String) : (forgetWith fails s c w).hashes (.pub s') =
    if (fails 0 = false ∧ fails 1 = false ∧ publishing w s c) ∧ s' = s then none else w.hashes (.pub s') := by
  unfold forgetWith
  cases h1 : fails 1 with
  | true => simp
  | false =>
    cases h0 : fails 0 with
    | true => simp [unstamp]
    | false =>
      simp only [Bool.false_eq_true, if_false, true_and]
      exact forget_pub w s c s'

theorem forgetWith_active {fails : ℕ → Bool} {s c : String}
    (h : ¬ (fails 0 = false ∧ fails 1 = false ∧ publishing w s c)) :
    (forgetWith fails s c w).sets .active_pubs = w.sets .active_pubs := by
  unfold forgetWith
  cases h1 : fails 1 with
  | true => rfl
  | false =>
    cases h0 : fails 0 with
    | true => rfl
    | false =>
      apply forget_active w s c
      by_contra hcon
      exact h ⟨h0, h1, Bool.not_eq_false _ ▸ hcon⟩

/-- A rollback that comes before the publisher keys are written. -/
theorem refuses_rollBack_iff (hp : t.type = .PUBLISHER) (hheld : pubAt w t.stream_name = some p)
    (fails : ℕ → Bool) :
    Refuses w t.stream_name (false, forgetWith fails t.stream_name t.client_id (putTask t w)) ↔
      ¬ (t.Readable ∧ fails 0 = false ∧ fails 1 = false) := by
  obtain ⟨x, hx, -⟩ := pubAt_eq_some hheld
  have hpub : (putTask t w).hashes (.pub t.stream_name) = w.hashes (.pub t.stream_name) := putTask_pub w _ t
  constructor
  · rintro ⟨-, hsame, -⟩ ⟨hr, h0, h1⟩
    have hdrop := forgetWith_pub (w := putTask t w) fails t.stream_name t.client_id t.stream_name
    rw [if_pos ⟨⟨h0, h1, by rw [publishing_putTask hp, decide_eq_true hr]⟩, rfl⟩] at hdrop
    cases hdrop.symm.trans (hsame.trans hx)
  · intro h
    have hstay : ¬ (fails 0 = false ∧ fails 1 = false ∧
        publishing (putTask t w) t.stream_name t.client_id) := by
      rintro ⟨h0, h1, hr⟩
      rw [publishing_putTask hp] at hr
      exact h ⟨of_decide_eq_true hr, h0, h1⟩
    refine ⟨rfl, ?_, ?_⟩
    · exact (forgetWith_pub (w := putTask t w) fails _ _ _).trans ((if_neg fun h => hstay h.1).trans hpub)
    · intro hs
      rw [buildActivePublishersKey, forgetWith_active hstay]
      exact hs

/-- After the publisher keys are written, the end of the registration keeps or deletes them. -/
theorem registerTimestamp_pub (fails : ℕ → Bool) (s : String) :
    (u.runWith fails (registerTimestamp t)).2.hashes (.pub s) = none ∨
      (u.runWith fails (registerTimestamp t)).2.hashes (.pub s) = u.hashes (.pub s) := by
  have hback : ∀ fails : ℕ → Bool, (u.runWith fails (rollBack t)).2.hashes (.pub s) = none ∨
      (u.runWith fails (rollBack t)).2.hashes (.pub s) = u.hashes (.pub s) := by
    intro fails
    rw [runWith_rollBack, forgetWith_pub]
    split
    · exact .inl rfl
    · exact .inr rfl
  rw [runWith_registerTimestamp]
  split
  · split
    · exact hback _
    · exact .inr rfl
  · exact hback _

/-- A registration that writes the publisher keys takes the stream. -/
theorem not_refuses_written (hheld : pubAt w t.stream_name = some p) (hne : p.client_id ≠ t.client_id)
    (fails : ℕ → Bool) :
    ¬ Refuses w t.stream_name ((indexPublisher t (putTask t w)).runWith fails (registerTimestamp t)) := by
  rintro ⟨-, hsame, -⟩
  obtain ⟨x, hx, -, hd⟩ := pubAt_eq_some hheld
  rw [buildPublisherKey, hx] at hsame
  rcases registerTimestamp_pub (u := indexPublisher t (putTask t w)) (t := t) fails t.stream_name with h | h
  · cases h.symm.trans hsame
  · rw [indexPublisher_pub, if_pos rfl] at h
    obtain rfl := Option.some.inj (h.symm.trans hsame)
    exact hne (Option.some.inj (deserialize_some hd).2.1).symm

/-- **Exclusivity under failures.**  While a stream has a publisher, the registration of another client
as its publisher is refused and leaves the publisher where it is, exactly unless the failures let the
client in. -/
theorem exclusive_iff (hp : t.type = .PUBLISHER) (hheld : pubAt w t.stream_name = some p)
    (hne : p.client_id ≠ t.client_id) (fails : ℕ → Bool) :
    Refuses w t.stream_name (w.runWith fails (registerTask t)) ↔ ¬ LetsIn t fails := by
  have hkeeps : ∀ u : World, u.hashes (.pub t.stream_name) = w.hashes (.pub t.stream_name) →
      u.sets .active_pubs = w.sets .active_pubs → Refuses w t.stream_name (false, u) := by
    intro u hpub hact
    refine ⟨rfl, hpub, fun hs => ?_⟩
    rw [buildActivePublishersKey, hact]
    exact hs
  unfold LetsIn
  rw [runWith_registerTask_publisher w t fails hp]
  cases h0 : fails 0 with
  | false =>
    rw [if_neg Bool.false_ne_true, hheld, Option.elim_some, if_pos hne]
    exact iff_of_true (hkeeps w rfl rfl) fun h => Bool.noConfusion h.1
  | true =>
    rw [if_pos rfl, Option.elim_none, runWith_registerHash]
    cases h1 : fails 1 with
    | true => exact iff_of_true (hkeeps w rfl rfl) fun h => Bool.noConfusion h.2.1
    | false =>
      cases h2 : fails 2 with
      | true =>
        refine iff_of_true ?_ fun h => Bool.noConfusion h.2.2.1
        have hne : Key.pub t.stream_name ≠ t.key := by simp [StreamTask.key, buildTaskKey]
        have hne' : Key.active_pubs ≠ t.key := by simp [StreamTask.key, buildTaskKey]
        have hset := World.hset_of_ne w _ _ (serializeTask t) hne
        rw [if_neg Bool.false_ne_true, if_pos rfl]
        split
        · exact hkeeps _ hset rfl
        · exact hkeeps _ ((World.del_hashes_of_ne _ _ _ hne).trans hset) (World.del_sets_of_ne _ _ _ hne')
      | false =>
        have hany : (taskAt (putTask t w) (buildPublisherKey t.stream_name)).any
            fun q => q.client_id ≠ t.client_id := by
          obtain ⟨x, hx, -, hd⟩ := pubAt_eq_some hheld
          have : taskAt w (.pub t.stream_name) = some p := by
            rw [taskAt, World.fieldsAt, hx]
            exact hd
          rw [buildPublisherKey, taskAt_congr (putTask_pub w _ t), this, Option.any_some]
          exact decide_eq_true hne
        rw [if_neg Bool.false_ne_true, if_neg Bool.false_ne_true,
          runWith_registerIndices_publisher _ t _ hp]
        cases h3 : fails 3 with
        | false =>
          rw [if_pos ⟨rfl, hany⟩, runWith_rollBack, refuses_rollBack_iff hp hheld]
          simp
        | true =>
          rw [if_neg fun h => Bool.noConfusion h.1]
          cases h4 : fails 4 with
          | true =>
            rw [if_pos rfl, runWith_rollBack, refuses_rollBack_iff hp hheld]
            simp
          | false =>
            rw [if_neg Bool.false_ne_true]
            exact iff_of_false (not_refuses_written hheld hne _) (by simp)

end Exclusive

/-- A publisher of the stream `live`, in the first millisecond that the code accepts. -/
def firstPublisher (c : String) : StreamTask where
  stream_name := "live"
  client_id := c
  type := .PUBLISHER
  start_time := MIN_REASONABLE_MS * 1000000
  last_active_time := MIN_REASONABLE_MS * 1000000

/-- The stream `live` with the publisher `a`. -/
def heldByA : World :=
  ((World.initial (MIN_REASONABLE_MS * 1000000)).run (registerTask (firstPublisher "a"))).2

theorem pubAt_heldByA : pubAt heldByA "live" = some (firstPublisher "a").stored := by decide +kernel

/-- The first check of `b` fails, and so does the batch of its rollback: the publisher stays. -/
theorem exclusive_if_rollBack_fails :
    Refuses heldByA "live" (heldByA.runWith (fun i => i = 0 ∨ i = 5) (registerTask (firstPublisher "b"))) := by
  apply (exclusive_iff (t := firstPublisher "b") rfl pubAt_heldByA (by decide) _).2
  unfold LetsIn
  decide

/-- Both checks fail: `b` takes the stream over. -/
theorem exclusive_lost :
    (heldByA.runWith (fun i => i = 0 ∨ i = 3) (registerTask (firstPublisher "b"))).1 = true ∧
      ¬ Refuses heldByA "live"
        (heldByA.runWith (fun i => i = 0 ∨ i = 3) (registerTask (firstPublisher "b"))) := by
  have h : (heldByA.runWith (fun i => i = 0 ∨ i = 3) (registerTask (firstPublisher "b"))).1 = true := by
    decide +kernel
  exact ⟨h, fun hr => Bool.noConfusion (h.symm.trans hr.1)⟩

end StreamGate.State
