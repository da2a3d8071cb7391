import StreamGate.State.Drops

/-!
# The two copies of a publisher

A publisher is stored twice: at `task:s:c`, which has a time to live and takes the heartbeats, and
at `pub:s`, which has neither.  `Copies` says that the two agree.  Registration and deregistration
keep it, as they always write and delete both; a heartbeat keeps it unless it hits a publisher, and
time keeps it unless a publisher's hash runs out.
-/

namespace StreamGate.State

open StreamGate.Redis StreamGate.Task StreamGate.Lib

/-- The names in a stored hash are those of its key. -/
def Keyed : World → Prop :=
  Stored fun body x => ∀ s c, x.fields .stream_name = some s → x.fields .client_id = some c →
    Key.task body = buildTaskKey s c

/-- The names of a stored publisher have no colon. -/
def PlainNames : World → Prop :=
  Stored fun _ x => x.fields .type = some "publisher" → ∀ s c, x.fields .stream_name = some s →
    x.fields .client_id = some c → NoColon s ∧ NoColon c

/-- A publisher key is marked active and does not expire. -/
def PubsKept (w : World) : Prop :=
  ∀ s x, w.hashes (.pub s) = some x → x.fields .active = some "1" ∧ x.expireAt = none

/-- The two copies of every publisher agree. -/
structure Copies (w : World) : Prop where
  keyed : Keyed w
  plain : PlainNames w
  pubs : PubsKept w
  /-- The publisher of a stream has a task, the same in all fields. -/
  task : ∀ s p, pubAt w s = some p → taskAt w (buildTaskKey s p.client_id) = some p ∧ p.type = .PUBLISHER
  /-- A publisher's task is the publisher of its stream. -/
  pub : ∀ s c q, taskAt w (buildTaskKey s c) = some q → q.type = .PUBLISHER → pubAt w s = some q

section Named

variable {w : World} {t : StreamTask}

/-- A task that can be read is stored under its own key. -/
theorem Keyed.of_taskAt (hw : Keyed w) {body : String} (ht : taskAt w (.task body) = some t) :
    Key.task body = t.key := by
  obtain ⟨x, hx, hd⟩ := taskAt_eq_some ht
  obtain ⟨hs, hc, -⟩ := deserialize_some hd
  exact hw _ x hx _ _ hs hc

theorem keyed_new {body : String} (old : Fields) (hk : Key.task body = t.key) (s c : String)
    (hs : ((serializeTask t).over old) .stream_name = some s)
    (hc : ((serializeTask t).over old) .client_id = some c) : Key.task body = buildTaskKey s c := by
  obtain rfl := Option.some.inj hs
  obtain rfl := Option.some.inj hc
  exact hk

theorem Keyed.putTask (hw : Keyed w) : Keyed (putTask t w) := Stored.putTask hw fun _ old _ => keyed_new old

theorem Keyed.registerTask (hw : Keyed w) : Keyed (w.run (registerTask t)).2 :=
  Stored.registerTask hw fun _ old _ => keyed_new old

theorem Keyed.touch (hw : Keyed w) (s c : String) : Keyed (touch s c w) :=
  Stored.touch hw (fun _ _ _ _ h => by cases h) fun _ _ _ h => h

/-- A publisher that can be read is stored under its own names. -/
theorem PlainNames.of_taskAt (hplain : PlainNames w) (hkeyed : Keyed w) {s c : String}
    (ht : taskAt w (buildTaskKey s c) = some t) (hp : t.type = .PUBLISHER) :
    NoColon s ∧ NoColon c ∧ t.stream_name = s ∧ t.client_id = c := by
  obtain ⟨x, hx, hd⟩ := taskAt_eq_some ht
  obtain ⟨hs, hc, hty, -⟩ := deserialize_some hd
  rw [hp] at hty
  obtain ⟨h1, h2⟩ := hplain _ x hx hty _ _ hs hc
  obtain ⟨rfl, rfl⟩ := taskKey_inj_of_noColon h1 h2 (hkeyed _ x hx _ _ hs hc).symm
  exact ⟨h1, h2, rfl, rfl⟩

theorem Copies.names (hw : Copies w) {s c : String} (ht : taskAt w (buildTaskKey s c) = some t)
    (hp : t.type = .PUBLISHER) : NoColon s ∧ NoColon c ∧ t.stream_name = s ∧ t.client_id = c :=
  hw.plain.of_taskAt hw.keyed ht hp

/-- A publisher's names have no colon. -/
def Plain (t : StreamTask) : Prop := t.type = .PUBLISHER → NoColon t.stream_name ∧ NoColon t.client_id

theorem plain_new (ht : Plain t) (old : Fields) (hty : ((serializeTask t).over old) .type = some "publisher")
    (s c : String) (hs : ((serializeTask t).over old) .stream_name = some s)
    (hc : ((serializeTask t).over old) .client_id = some c) : NoColon s ∧ NoColon c := by
  obtain rfl := Option.some.inj hs
  obtain rfl := Option.some.inj hc
  exact ht (toString_eq_publisher.1 (Option.some.inj hty))

theorem PlainNames.putTask (hw : PlainNames w) (ht : Plain t) : PlainNames (putTask t w) :=
  Stored.putTask hw fun _ old _ _ => plain_new ht old

theorem PlainNames.touch (hw : PlainNames w) (s c : String) : PlainNames (touch s c w) :=
  Stored.touch hw (fun _ _ h => by cases h) fun _ _ _ h => h

end Named

theorem PubsKept.dropTask {w : World} (hw : PubsKept w) (id : TaskIdentifier) : PubsKept (dropTask id w) := by
  obtain ⟨s, c, ty⟩ := id
  intro s' x hx
  rw [dropTask_pub] at hx
  split at hx
  · cases hx
  · exact hw s' x hx

theorem PubsKept.indexPublisher {w : World} (hw : PubsKept w) (t : StreamTask) :
    PubsKept (indexPublisher t w) := by
  intro s x hx
  rw [indexPublisher_pub] at hx
  split at hx
  · obtain rfl := Option.some.inj hx
    refine ⟨rfl, ?_⟩
    cases hold : w.hashes (.pub s) with
    | none => rfl
    | some y => exact (hw s y hold).2
  · exact hw s x hx

/-! ### Dropping -/

/-- An identifier fits the store: what is stored for the client is of its type, and a publisher's
identifier names the publisher of the stream, if there is one. -/
def Fits (w : World) (id : TaskIdentifier) : Prop :=
  (∀ q, taskAt w (buildTaskKey id.streamName id.clientId) = some q → q.type = id.type) ∧
    (id.type = .PUBLISHER → ∀ p, pubAt w id.streamName = some p → p.client_id = id.clientId)

/-- An identifier of a task that is gone. -/
def Dead (w : World) (id : TaskIdentifier) : Prop :=
  taskAt w (buildTaskKey id.streamName id.clientId) = none ∧
    (id.type = .PUBLISHER → pubAt w id.streamName = none)

theorem Dead.fits {w : World} {id : TaskIdentifier} (h : Dead w id) : Fits w id := by
  refine ⟨fun q hq => ?_, fun hp p hpub => ?_⟩
  · rw [h.1] at hq; cases hq
  · rw [h.2 hp] at hpub; cases hpub

namespace Copies

variable {w : World}

theorem fits (hw : Copies w) {s c : String} {t : StreamTask} (ht : taskAt w (buildTaskKey s c) = some t) :
    Fits w ⟨s, c, t.type⟩ := by
  refine ⟨fun q hq => ?_, fun hp p hpub => ?_⟩
  · rw [ht] at hq
    rw [Option.some.inj hq]
  · have := hw.pub s c t ht hp
    rw [hpub] at this
    rw [Option.some.inj this]
    exact (hw.names ht hp).2.2.2

/-- A batch for one task that fits takes both copies or none. -/
theorem dropTask (hw : Copies w) {id : TaskIdentifier} (hid : Fits w id) : Copies (dropTask id w) := by
  obtain ⟨s, c, ty⟩ := id
  refine ⟨Stored.dropTask hw.keyed _, Stored.dropTask hw.plain _, hw.pubs.dropTask _, ?_, ?_⟩
  · intro s' p hp
    rw [pubAt_dropTask] at hp
    split at hp
    · cases hp
    · rename_i hne
      obtain ⟨ht, htp⟩ := hw.task s' p hp
      refine ⟨?_, htp⟩
      have hkey : buildTaskKey s' p.client_id ≠ buildTaskKey s c := by
        intro e
        rw [e] at ht
        have hty : p.type = ty := hid.1 p ht
        obtain ⟨h1, h2, h3, h4⟩ := hw.names ht htp
        obtain ⟨rfl, -⟩ := taskKey_inj_of_noColon h1 h2 e.symm
        exact hne ⟨hty ▸ htp, rfl⟩
      exact (taskAt_dropTask w s c ty _).trans ((if_neg hkey).trans ht)
  · intro s' c' q hq hqp
    have hq' := (taskAt_dropTask w s c ty _).symm.trans hq
    split at hq'
    · cases hq'
    · rename_i hkey
      have hpub := hw.pub s' c' q hq' hqp
      rw [pubAt_dropTask, if_neg, hpub]
      rintro ⟨rfl, rfl⟩
      have hcl : q.client_id = c := hid.2 rfl q hpub
      exact hkey (by rw [← (hw.names hq' hqp).2.2.2, hcl]; rfl)

/-- What happens to time stamps and sets does not matter. -/
theorem of_hashes (hw : Copies w) {w' : World} (ht : ∀ body, w'.hashes (.task body) = w.hashes (.task body))
    (hp : ∀ s, w'.hashes (.pub s) = w.hashes (.pub s)) : Copies w' where
  keyed := Stored.mono (fun body _ hx => ht body ▸ hx) hw.keyed
  plain := Stored.mono (fun body _ hx => ht body ▸ hx) hw.plain
  pubs s x hx := hw.pubs s x (hp s ▸ hx)
  task s p h := by
    rw [pubAt_congr (hp s)] at h
    rw [buildTaskKey, taskAt_congr (ht _)]
    exact hw.task s p h
  pub s c q h hq := by
    rw [buildTaskKey, taskAt_congr (ht _)] at h
    rw [pubAt_congr (hp s)]
    exact hw.pub s c q h hq

theorem setZset (hw : Copies w) (k : Key) (z : ZSet) : Copies (w.setZset k z) :=
  hw.of_hashes (fun _ => rfl) fun _ => rfl

theorem delMembers (hw : Copies w) (s : String) : Copies (w.del (memberKey s)) :=
  hw.of_hashes (fun _ => World.del_hashes_of_ne _ _ _ nofun) fun _ => World.del_hashes_of_ne _ _ _ nofun

theorem drops {w' : World} {ids : List TaskIdentifier} (hd : Drops w ids w') (hw : Copies w) : Copies w' :=
  hd.inv (fun _ _ _ _ h ht => h.dropTask (h.fits ht)) (fun _ z h _ => h.setZset _ z)
    (fun _ s h => h.delMembers s) hw

end Copies

theorem Copies.forget {w : World} (hw : Copies w) (s c : String) : Copies (forget s c w) :=
  Copies.drops (forget_drops w s c) hw

/-- A batch never brings anything back. -/
theorem Dead.dropTask {w : World} {id : TaskIdentifier} (h : Dead w id) (id' : TaskIdentifier) :
    Dead (dropTask id' w) id := by
  obtain ⟨s, c, ty⟩ := id'
  refine ⟨(taskAt_dropTask w s c ty _).trans ?_, fun hp => ?_⟩
  · split
    · rfl
    · exact h.1
  · rw [pubAt_dropTask]
    split
    · rfl
    · exact h.2 hp

/-- A batch of tasks that are gone already. -/
theorem Copies.dropTasks {w : World} (hw : Copies w) {ids : List TaskIdentifier}
    (hids : ∀ id ∈ ids, Dead w id) : Copies (dropTasks ids w) := by
  induction ids generalizing w with
  | nil => exact hw
  | cons id ids ih =>
    exact ih (hw.dropTask (hids id (by simp)).fits) fun i hi => (hids i (by simp [hi])).dropTask id

/-! ### Registering -/

section Register

variable {w : World} {t : StreamTask}

theorem readTask_over (t : StreamTask) (old : Fields) :
    readTask (some ((serializeTask t).over old)) = if t.Readable then some t.stored else none :=
  deserialize_over t old

theorem readPublisher_over (t : StreamTask) (old : Fields) :
    readPublisher (some ((serializeTask t).over old)) = if t.Readable then some t.stored else none := by
  have hactive : ((serializeTask t).over old) .active = some "1" := rfl
  rw [readPublisher, Option.bind_some, if_pos hactive]
  exact deserialize_over t old

theorem taskAt_putTask_self : taskAt (putTask t w) t.key = if t.Readable then some t.stored else none := by
  have h : (putTask t w).hashes t.key = _ := (putTask_task w _ t).trans (if_pos rfl)
  rw [taskAt, World.fieldsAt, h, Option.map_some]
  exact readTask_over t _

theorem taskAt_putTask_of_ne {body : String} (h : Key.task body ≠ t.key) :
    taskAt (putTask t w) (.task body) = taskAt w (.task body) :=
  taskAt_congr ((putTask_task w body t).trans (if_neg h))

theorem pubAt_indexPublisher_self :
    pubAt (indexPublisher t w) t.stream_name = if t.Readable then some t.stored else none := by
  have h : (indexPublisher t w).hashes (buildPublisherKey t.stream_name) = _ :=
    (indexPublisher_pub w _ t).trans (if_pos rfl)
  rw [pubAt, World.fieldsAt, h, Option.map_some]
  exact readPublisher_over t _

theorem pubAt_indexPublisher_of_ne {s : String} (h : s ≠ t.stream_name) :
    pubAt (indexPublisher t w) s = pubAt w s :=
  pubAt_congr ((indexPublisher_pub w s t).trans (if_neg h))

/-- A publisher key that is kept is read in the same way by both checks. -/
theorem taskAt_pub (hw : PubsKept w) (s : String) : taskAt w (buildPublisherKey s) = pubAt w s := by
  rw [taskAt, pubAt, World.fieldsAt]
  cases h : w.hashes (buildPublisherKey s) with
  | none => rfl
  | some x => exact (if_pos (hw s x h).1).symm

/-- Both copies of a publisher are written, on a stream that is free. -/
theorem Copies.publisher (hw : Copies w) (hp : t.type = .PUBLISHER) (hs : NoColon t.stream_name)
    (hc : NoColon t.client_id) (hfree : pubAt w t.stream_name = none) :
    Copies (indexPublisher t (putTask t w)) := by
  have htask : ∀ body, taskAt (indexPublisher t (putTask t w)) (.task body) =
      taskAt (putTask t w) (.task body) := fun body => taskAt_congr (indexPublisher_task _ _ _)
  have hself : taskAt (indexPublisher t (putTask t w)) t.key =
      if t.Readable then some t.stored else none := (htask _).trans taskAt_putTask_self
  have hput : PubsKept (putTask t w) := fun s x hx => hw.pubs s x (putTask_pub w s t ▸ hx)
  refine ⟨Stored.mono (fun body _ hx => indexPublisher_task _ body t ▸ hx) hw.keyed.putTask,
    Stored.mono (fun body _ hx => indexPublisher_task _ body t ▸ hx) (hw.plain.putTask fun _ => ⟨hs, hc⟩),
    hput.indexPublisher t, ?_, ?_⟩
  · intro s p hpub
    by_cases hst : s = t.stream_name
    · subst hst
      rw [pubAt_indexPublisher_self] at hpub
      split at hpub
      · rename_i hr
        obtain rfl := Option.some.inj hpub
        exact ⟨hself.trans (if_pos hr), hp⟩
      · cases hpub
    · rw [pubAt_indexPublisher_of_ne hst, pubAt_congr (putTask_pub w s t)] at hpub
      obtain ⟨ht, htp⟩ := hw.task s p hpub
      refine ⟨(htask _).trans ((taskAt_putTask_of_ne fun e => ?_).trans ht), htp⟩
      exact hst (taskKey_inj_of_noColon hs hc e.symm).1.symm
  · intro s c q hq hqp
    by_cases hkey : buildTaskKey s c = t.key
    · obtain ⟨rfl, rfl⟩ := taskKey_inj_of_noColon hs hc hkey.symm
      rw [pubAt_indexPublisher_self, ← hself]
      exact hq
    · have hq' := (taskAt_putTask_of_ne hkey).symm.trans ((htask _).symm.trans hq)
      have hpub := hw.pub s c q hq' hqp
      have hst : s ≠ t.stream_name := by
        rintro rfl
        rw [hfree] at hpub
        cases hpub
      rw [pubAt_indexPublisher_of_ne hst, pubAt_congr (putTask_pub w s t)]
      exact hpub

/-- A player's hash is written where no publisher is. -/
theorem Copies.player (hw : Copies w) (hp : t.type = .PLAYER) (hfree : taskAt w t.key = none) :
    Copies (indexPlayer t (putTask t w)) := by
  have hplain : PlainNames (putTask t w) := hw.plain.putTask fun h => absurd (hp.symm.trans h) nofun
  refine Copies.of_hashes (w := putTask t w) ⟨hw.keyed.putTask, hplain, fun s x hx => ?_, ?_, ?_⟩
    (fun body => indexPlayer_task _ body t) fun s => indexPlayer_pub _ s t
  · rw [putTask_pub] at hx
    exact hw.pubs s x hx
  · intro s p hpub
    rw [pubAt_congr (putTask_pub w s t)] at hpub
    obtain ⟨ht, htp⟩ := hw.task s p hpub
    refine ⟨(taskAt_putTask_of_ne fun e => ?_).trans ht, htp⟩
    have e' : buildTaskKey s p.client_id = t.key := e
    rw [e', hfree] at ht
    cases ht
  · intro s c q hq hqp
    rw [pubAt_congr (putTask_pub w s t)]
    by_cases hkey : buildTaskKey s c = t.key
    · rw [hkey, taskAt_putTask_self] at hq
      split at hq
      · obtain rfl := Option.some.inj hq
        rw [stored_type, hp] at hqp
        cases hqp
      · cases hq
    · exact hw.pub s c q ((taskAt_putTask_of_ne hkey).symm.trans hq) hqp

theorem Copies.finish (hw : Copies w) : Copies (finish t w).2 := by
  unfold State.finish
  split
  · exact hw.setZset _ _
  · exact hw.forget _ _

/-- What `deregisterTask` leaves of a client: no task, and no publisher key if it was the publisher. -/
theorem Copies.forget_dead (hw : Copies w) (s c : String) :
    taskAt (State.forget s c w) (buildTaskKey s c) = none ∧
      (∀ p, pubAt w s = some p → p.client_id = c → pubAt (State.forget s c w) s = none) := by
  unfold State.forget
  cases ht : taskAt w (buildTaskKey s c) with
  | none =>
    refine ⟨ht, fun p hp hc => ?_⟩
    have := (hw.task s p hp).1
    rw [hc, ht] at this
    cases this
  | some q =>
    refine ⟨(taskAt_dropTask w s c q.type _).trans (if_pos rfl), fun p hp hc => ?_⟩
    obtain ⟨h1, h2⟩ := hw.task s p hp
    rw [hc, ht] at h1
    obtain rfl := Option.some.inj h1
    rw [pubAt_dropTask, if_pos ⟨h2, rfl⟩]

/-- **A registration keeps the copies in step.** -/
theorem Copies.registerTask (hw : Copies w) (hplain : Plain t) :
    Copies (w.run (registerTask t)).2 := by
  rw [run_registerTask]
  cases hp : t.type with
  | PUBLISHER =>
    obtain ⟨hs, hc⟩ := hplain hp
    have hplace : ∀ v, Copies v → pubAt v t.stream_name = none → Copies (place t (putTask t v)).2 := by
      intro v hv hfree
      have hcheck : taskAt (putTask t v) (buildPublisherKey t.stream_name) = none := by
        rw [buildPublisherKey, taskAt_congr (putTask_pub v _ t)]
        exact (taskAt_pub hv.pubs _).trans hfree
      unfold place
      rw [if_pos hp, hcheck]
      exact (hv.publisher hp hs hc hfree).finish
    rw [if_pos rfl]
    split
    · rename_i hfree
      exact hplace w hw hfree
    · rename_i p hpub
      split
      · exact hw
      · rename_i hcl
        exact hplace _ (hw.forget _ _) ((hw.forget_dead _ _).2 p hpub (not_not.1 hcl))
  | PLAYER =>
    have hplace : ∀ v, Copies v → taskAt v t.key = none → Copies (place t (putTask t v)).2 := by
      intro v hv hfree
      unfold place
      rw [if_neg (by rw [hp]; decide)]
      exact (hv.player hp hfree).finish
    rw [if_neg (by decide)]
    split
    · exact hplace _ (hw.forget _ _) (hw.forget_dead _ _).1
    · rename_i hno
      refine hplace w hw (taskAt_of_none ?_)
      have : (w.hashes t.key).isSome = false := by
        have hno := Bool.eq_false_iff.2 hno
        simp only [World.hasKey, Bool.or_eq_false_iff] at hno
        exact hno.1.1
      exact Option.not_isSome_iff_eq_none.1 (Bool.eq_false_iff.1 this)

end Register

/-! ### Time stamps -/

section Stamps

variable {w : World}

/-- The time stamps are those of tasks. -/
def Stamped (w : World) : Prop :=
  ∀ k, (w.zsets buildTaskTimestampZSetKey).score k ≠ none → ∃ body, k = .task body

theorem Stamped.drops {w' : World} {ids : List TaskIdentifier} (hd : Drops w ids w') (hw : Stamped w) :
    Stamped w' := by
  refine hd.inv (fun v s c t hv _ => ?_) (fun v z hv hz k hk => ?_) (fun v s hv => ?_) hw
  · intro k hk
    exact hv k (by rw [buildTaskTimestampZSetKey, dropTask_zsets] at hk; exact hk)
  · rw [World.setZset_self] at hk
    exact hv k (hz k hk)
  · intro k hk
    have hne : buildTaskTimestampZSetKey ≠ memberKey s := nofun
    rw [World.del_zsets_of_ne _ _ _ hne] at hk
    exact hv k hk

theorem stamped_add (hw : Stamped w) (body : String) (x : ℤ) : Stamped (w.setZset buildTaskTimestampZSetKey
    ((w.zsets buildTaskTimestampZSetKey).add (.task body) x)) := by
  intro k hk
  rw [World.setZset_self, ZSet.score_add] at hk
  split at hk
  · rename_i h
    exact ⟨body, h⟩
  · exact hw k hk

theorem Stamped.registerTask (hw : Stamped w) (t : StreamTask) : Stamped (w.run (registerTask t)).2 :=
  registerTask_inv (I := Stamped) (fun w hw => hw.drops (forget_drops w _ _)) (fun _ hw => hw) (fun _ _ hw => hw)
    (fun _ _ hw => hw) (fun _ hw => stamped_add hw _ _) hw

theorem Stamped.dropTasks (hw : Stamped w) (ids : List TaskIdentifier) : Stamped (dropTasks ids w) := by
  induction ids generalizing w with
  | nil => exact hw
  | cons id ids ih =>
    refine ih fun k hk => hw k ?_
    rw [buildTaskTimestampZSetKey, dropTask_zsets] at hk
    exact hk

theorem Stamped.advance (hw : Stamped w) (t : ℤ) : Stamped (advance t w) := by
  unfold Redis.advance
  split
  · exact hw
  · exact hw

end Stamps

/-! ### Heartbeats and time -/

section Time

variable {w : World}

/-- Time does not touch a publisher key. -/
theorem PubsKept.advance_eq (hw : PubsKept w) (t : ℤ) (s : String) :
    (advance t w).hashes (.pub s) = w.hashes (.pub s) := by
  unfold advance
  split
  · show Option.filter _ (w.hashes (.pub s)) = _
    cases h : w.hashes (.pub s) with
    | none => rfl
    | some x => simp [Option.filter, Hash.expired, (hw s x h).2]
  · rfl

/-- The type in the hash of a client, whether the hash can be read or not. -/
def typeAt (w : World) (s c : String) : Option String :=
  (w.fieldsAt (buildTaskKey s c)).bind fun f => f .type

theorem typeAt_of_taskAt {s c : String} {t : StreamTask} (ht : taskAt w (buildTaskKey s c) = some t) :
    typeAt w s c = some t.type.toString := by
  obtain ⟨x, hx, hd⟩ := taskAt_eq_some ht
  rw [typeAt, World.fieldsAt, hx]
  exact (deserialize_some hd).2.2.1

/-- A heartbeat does not change the type. -/
theorem typeAt_touch (s c : String) : typeAt (touch s c w) s c = typeAt w s c := by
  have h : (touch s c w).hashes (buildTaskKey s c) = _ := (touch_task w s c _).trans (if_pos rfl)
  rw [typeAt, typeAt, World.fieldsAt, h]
  cases w.fieldsAt (buildTaskKey s c) <;> rfl

theorem Copies.touch_other (hw : Copies w) {s c : String} (htype : typeAt w s c ≠ some "publisher") :
    Copies (touch s c w) := by
  refine ⟨hw.keyed.touch s c, hw.plain.touch s c, fun s' x hx => hw.pubs s' x (touch_pub w s c s' ▸ hx), ?_, ?_⟩
  · intro s' p hp
    rw [pubAt_congr (touch_pub w s c s')] at hp
    obtain ⟨ht, htp⟩ := hw.task s' p hp
    refine ⟨(taskAt_congr ((touch_task w s c _).trans (if_neg fun e => ?_))).trans ht, htp⟩
    have e' : buildTaskKey s' p.client_id = buildTaskKey s c := e
    rw [e'] at ht
    rw [typeAt_of_taskAt ht, htp] at htype
    exact htype rfl
  · intro s' c' q hq hqp
    rw [pubAt_congr (touch_pub w s c s')]
    by_cases hkey : buildTaskKey s' c' = buildTaskKey s c
    · rw [hkey] at hq
      have := typeAt_of_taskAt hq
      rw [typeAt_touch, hqp] at this
      exact absurd this htype
    · exact hw.pub s' c' q ((taskAt_congr ((touch_task w s c _).trans (if_neg hkey))).symm.trans hq) hqp

/-- The hash of the client is not a publisher's, or has the present millisecond in it already. -/
def BeatSpares (w : World) (s c : String) : Prop :=
  ∀ f, w.fieldsAt (buildTaskKey s c) = some f → f .type = some "publisher" →
    f .last_active_time_ms = some (Decimal.to_string (ms w.clock))

theorem beat_over {f : Fields} {now : ℤ}
    (h : f .last_active_time_ms = some (Decimal.to_string (ms now))) : (beat now).over f = f := by
  funext k
  by_cases hk : k = .last_active_time_ms
  · subst hk
    rw [h]
    rfl
  · simp [beat, Fields.over, Function.update_of_ne hk]

theorem Copies.touch (hw : Copies w) {s c : String} (hs : BeatSpares w s c) : Copies (touch s c w) := by
  by_cases htype : typeAt w s c = some "publisher"
  · obtain ⟨f, hf, hty⟩ := Option.bind_eq_some_iff.1 htype
    -- the heartbeat writes what is there
    have htask : ∀ body, taskAt (State.touch s c w) (.task body) = taskAt w (.task body) := by
      intro body
      by_cases hkey : Key.task body = buildTaskKey s c
      · have h : (State.touch s c w).hashes (buildTaskKey s c) = _ := (touch_task w s c _).trans (if_pos rfl)
        rw [hf, Option.getD_some, beat_over (hs f hf hty)] at h
        rw [hkey, taskAt, taskAt, hf, World.fieldsAt, h]
        rfl
      · exact taskAt_congr ((touch_task w s c body).trans (if_neg hkey))
    refine ⟨hw.keyed.touch s c, hw.plain.touch s c, fun s' x hx => hw.pubs s' x (touch_pub w s c s' ▸ hx), ?_, ?_⟩
    · intro s' p hp
      rw [pubAt_congr (touch_pub w s c s')] at hp
      obtain ⟨ht, htp⟩ := hw.task s' p hp
      exact ⟨(htask _).trans ht, htp⟩
    · intro s' c' q hq hqp
      rw [pubAt_congr (touch_pub w s c s')]
      exact hw.pub s' c' q ((htask _).symm.trans hq) hqp
  · exact hw.touch_other htype

/-- No publisher's hash runs out by the time `t`. -/
def PublishersLast (w : World) (t : ℤ) : Prop :=
  ∀ s c q, taskAt w (buildTaskKey s c) = some q → q.type = .PUBLISHER →
    (advance t w).hashes (buildTaskKey s c) = w.hashes (buildTaskKey s c)

theorem Copies.advance (hw : Copies w) {t : ℤ} (ht : PublishersLast w t) : Copies (advance t w) := by
  have hpub := hw.pubs.advance_eq t
  refine ⟨Stored.advance hw.keyed t, Stored.advance hw.plain t, fun s x hx => hw.pubs s x (hpub s ▸ hx), ?_, ?_⟩
  · intro s p hp
    rw [pubAt_congr (hpub s)] at hp
    obtain ⟨h1, h2⟩ := hw.task s p hp
    exact ⟨(taskAt_congr (ht s _ p h1 h2)).trans h1, h2⟩
  · intro s c q hq hqp
    rw [pubAt_congr (hpub s)]
    rcases hashes_advance t w (buildTaskKey s c) with h | h
    · rw [taskAt_of_none h] at hq; cases hq
    · exact hw.pub s c q (taskAt_congr h ▸ hq) hqp

theorem Copies.initial (clock : ℤ) : Copies (World.initial clock) := by
  refine ⟨.initial clock, .initial clock, fun _ _ h => ?_, fun _ _ h => ?_, fun _ _ _ h => ?_⟩ <;> cases h

end Time

end StreamGate.State
