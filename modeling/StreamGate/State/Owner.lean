import StreamGate.State.Scan

/-!
# Who holds a stream

In the states that the program reaches a stream has one publisher: a task that can be read as a
publisher's belongs to the client that the publisher key of its stream names (`Owner`).  Unlike the
agreement of the two copies this needs nothing of heartbeats and of expiry, which is why it also
looks at hashes that cannot be read at the moment: a heartbeat can make one readable again, but it
does not change when the task started.
-/

namespace StreamGate.State

open StreamGate.Redis StreamGate.Task StreamGate.Lib

/-- The start in a hash is a time the code accepts. -/
def Started (f : Fields) : Prop :=
  ∃ v z, f .start_time_ms = some v ∧ Decimal.stoll v = some z ∧ Reasonable z

/-- A stored publisher holds its stream. -/
def Held (w : World) : Prop :=
  Stored (fun _ x => x.fields .type = some "publisher" → Started x.fields → ∀ s d,
    x.fields .stream_name = some s → x.fields .client_id = some d →
      ∃ p, pubAt w s = some p ∧ p.client_id = d) w

/-- The store of the program, as far as streams and their publishers go. -/
structure Owner (w : World) : Prop where
  keyed : Keyed w
  plain : PlainNames w
  stamped : Stamped w
  pubs : PubsKept w
  held : Held w

/-- The task that is stored at a key and could be read has a good start. -/
theorem started_of_taskAt {w : World} {k : Key} {t : StreamTask} {x : Hash} (hx : w.hashes k = some x)
    (ht : taskAt w k = some t) : deserializeTask x.fields = some t ∧ Started x.fields := by
  obtain ⟨y, hy, hd⟩ := taskAt_eq_some ht
  obtain rfl := Option.some.inj (hx.symm.trans hy)
  obtain ⟨-, -, -, ⟨v, hv, hz⟩, -, hr⟩ := deserialize_some hd
  exact ⟨hd, v, _, hv, hz, hr.1⟩

namespace Owner

variable {w : World} {s c : String} {t : StreamTask}

/-- The publisher of a task that can be read as a publisher's is its client. -/
theorem holder (hw : Owner w) {body : String} (ht : taskAt w (.task body) = some t) (hp : t.type = .PUBLISHER) :
    ∃ p, pubAt w t.stream_name = some p ∧ p.client_id = t.client_id := by
  obtain ⟨x, hx, hd⟩ := taskAt_eq_some ht
  obtain ⟨hs, hc, hty, -⟩ := deserialize_some hd
  rw [hp] at hty
  exact hw.held body x hx hty (started_of_taskAt hx ht).2 _ _ hs hc

/-- A change that adds no task hashes and leaves the publisher keys alone. -/
theorem of_pubs (hw : Owner w) {w' : World}
    (htask : ∀ body x, w'.hashes (.task body) = some x → w.hashes (.task body) = some x)
    (hpub : ∀ s, w'.hashes (.pub s) = w.hashes (.pub s)) (hz : Stamped w') : Owner w' where
  keyed := Stored.mono htask hw.keyed
  plain := Stored.mono htask hw.plain
  stamped := hz
  pubs s x hx := hw.pubs s x (hpub s ▸ hx)
  held body x hx hty hst s d hs hd := by
    obtain ⟨p, hp, hpc⟩ := hw.held body x (htask body x hx) hty hst s d hs hd
    exact ⟨p, (pubAt_congr (hpub s)).trans hp, hpc⟩

/-! ### Removing -/

/-- A task that can be read leaves, and takes no stream away that another publisher holds. -/
theorem dropTask (hw : Owner w) (ht : taskAt w (buildTaskKey s c) = some t) :
    Owner (State.dropTask ⟨s, c, t.type⟩ w) := by
  refine ⟨Stored.dropTask hw.keyed _, Stored.dropTask hw.plain _, ?_, hw.pubs.dropTask _, ?_⟩
  · intro k hk
    rw [buildTaskTimestampZSetKey, dropTask_zsets] at hk
    exact hw.stamped k hk
  · intro body x hx hty hst s' d hs hd
    rw [dropTask_task] at hx
    split at hx
    · cases hx
    · rename_i hne
      obtain ⟨p, hp, hpd⟩ := hw.held body x hx hty hst s' d hs hd
      refine ⟨p, ?_, hpd⟩
      rw [pubAt_dropTask, if_neg, hp]
      rintro ⟨htp, rfl⟩
      -- then the hash is the one that left
      obtain ⟨-, -, rfl, rfl⟩ := hw.plain.of_taskAt hw.keyed ht htp
      obtain ⟨p', hp', hpc⟩ := hw.holder ht htp
      obtain rfl := Option.some.inj (hp.symm.trans hp')
      have hbody := hw.keyed body x hx _ _ hs hd
      rw [← hpd, hpc] at hbody
      exact hne hbody

theorem delMembers (hw : Owner w) (s : String) : Owner (w.del (memberKey s)) := by
  have hne : buildTaskTimestampZSetKey ≠ memberKey s := nofun
  refine hw.of_pubs (fun body x hx => ?_) (fun s' => World.del_hashes_of_ne _ _ _ nofun) fun k hk => ?_
  · have hne : Key.task body ≠ memberKey s := nofun
    rw [World.del_hashes_of_ne _ _ _ hne] at hx
    exact hx
  · rw [World.del_zsets_of_ne _ _ _ hne] at hk
    exact hw.stamped k hk

theorem drops {w' : World} {ids : List TaskIdentifier} (hd : Drops w ids w') (hw : Owner w) : Owner w' :=
  hd.inv (I := Owner) (fun _ _ _ _ h ht => h.dropTask ht)
    (fun _ _ h hz => h.of_pubs (fun _ _ hx => hx) (fun _ => rfl) fun k hk => by
      rw [World.setZset_self] at hk
      exact h.stamped k (hz k hk))
    (fun _ s h => h.delMembers s) hw

/-- A batch entry for a task of which nothing is left changes no hash of a task or a publisher. -/
theorem dropGone (hw : Owner w) {id : TaskIdentifier} (hid : Gone w id) :
    Owner (State.dropTask id w) ∧ ∀ id', Gone w id' → Gone (State.dropTask id w) id' := by
  obtain ⟨s, c, ty⟩ := id
  have htask : ∀ body, (State.dropTask ⟨s, c, ty⟩ w).hashes (.task body) = w.hashes (.task body) := by
    intro body
    rw [dropTask_task]
    split
    · rename_i h
      rw [h]
      exact hid.1.symm
    · rfl
  have hpub : ∀ s', (State.dropTask ⟨s, c, ty⟩ w).hashes (.pub s') = w.hashes (.pub s') := by
    intro s'
    rw [dropTask_pub]
    split
    · rename_i h
      rw [h.2]
      exact (hid.2 h.1).symm
    · rfl
  refine ⟨hw.of_pubs (fun body x hx => htask body ▸ hx) hpub fun k hk => ?_, fun id' h => ⟨?_, fun hp => ?_⟩⟩
  · rw [buildTaskTimestampZSetKey, dropTask_zsets] at hk
    exact hw.stamped k hk
  · exact (htask _).trans h.1
  · exact (hpub _).trans (h.2 hp)

theorem dropTasks (hw : Owner w) {ids : List TaskIdentifier} (hids : ∀ id ∈ ids, Gone w id) :
    Owner (State.dropTasks ids w) := by
  induction ids generalizing w with
  | nil => exact hw
  | cons id ids ih =>
    obtain ⟨ho, hg⟩ := hw.dropGone (hids id (by simp))
    exact ih ho fun i hi => hg i (hids i (by simp [hi]))

theorem forget (hw : Owner w) (s c : String) : Owner (forget s c w) := hw.drops (forget_drops w s c)

/-! ### Registering -/

theorem finish (hw : Owner w) : Owner (finish t w).2 := by
  unfold State.finish
  split
  · exact hw.of_pubs (fun _ _ hx => hx) (fun _ => rfl) (stamped_add hw.stamped _ _)
  · exact hw.forget _ _

/-- The hash of a player. -/
theorem put_player (hw : Owner w) (hp : t.type = .PLAYER) : Owner (indexPlayer t (putTask t w)) := by
  have hplain : Plain t := fun h => absurd (hp.symm.trans h) nofun
  have hput : Owner (putTask t w) := by
    refine ⟨hw.keyed.putTask, hw.plain.putTask hplain, hw.stamped, fun s x hx => ?_, ?_⟩
    · rw [putTask_pub] at hx
      exact hw.pubs s x hx
    · intro body x hx hty hst s d hs hd
      rw [putTask_task] at hx
      split at hx
      · obtain rfl := Option.some.inj hx
        have : t.type = .PUBLISHER := toString_eq_publisher.1 (Option.some.inj hty)
        cases hp.symm.trans this
      · obtain ⟨p, h, hpd⟩ := hw.held body x hx hty hst s d hs hd
        exact ⟨p, (pubAt_congr (putTask_pub w s t)).trans h, hpd⟩
  exact hput.of_pubs (fun body x hx => indexPlayer_task _ body t ▸ hx) (fun s => indexPlayer_pub _ s t) hput.stamped

/-- Both copies of a publisher, on a stream that is free or its own. -/
theorem put_publisher (hw : Owner w) (hplain : Plain t)
    (hmade : t.start_time = t.last_active_time)
    (hown : ∀ p, pubAt w t.stream_name = some p → p.client_id = t.client_id) :
    Owner (indexPublisher t (putTask t w)) := by
  have htask : ∀ body x, (indexPublisher t (putTask t w)).hashes (.task body) = some x →
      (putTask t w).hashes (.task body) = some x := fun body x hx => indexPublisher_task _ body t ▸ hx
  have hput : PubsKept (putTask t w) := fun s x hx => hw.pubs s x (putTask_pub w s t ▸ hx)
  refine ⟨hw.keyed.putTask.mono htask, Stored.mono htask (hw.plain.putTask hplain), hw.stamped,
    hput.indexPublisher t, ?_⟩
  intro body x hx hty hst s d hs hd
  have hx := htask body x hx
  rw [putTask_task] at hx
  split at hx
  · -- the new task: its start is good, and so is its last activity
    obtain rfl := Option.some.inj hx
    obtain rfl := Option.some.inj hs
    obtain rfl := Option.some.inj hd
    obtain ⟨v, z, hv, hz, hr⟩ := hst
    obtain rfl := Option.some.inj hv
    have hread : t.Readable := by
      by_contra hno
      refine stoll_of_not_reasonable (t := ms t.start_time) (fun h => hno ⟨h, hmade ▸ h⟩) hz hr
    exact ⟨t.stored, pubAt_indexPublisher_self.trans (if_pos hread), rfl⟩
  · rename_i hne
    obtain ⟨p, h, hpd⟩ := hw.held body x hx hty hst s d hs hd
    have hst : s ≠ t.stream_name := by
      rintro rfl
      -- then it is the hash of the same client
      have hbody := hw.keyed body x hx _ _ hs hd
      rw [← hpd, hown p h] at hbody
      exact hne hbody
    exact ⟨p, (pubAt_indexPublisher_of_ne hst).trans ((pubAt_congr (putTask_pub w s t)).trans h), hpd⟩

/-- **A registration keeps the owners.** -/
theorem registerTask (hw : Owner w) (hplain : Plain t) (hmade : t.start_time = t.last_active_time) :
    Owner (w.run (registerTask t)).2 := by
  rw [run_registerTask]
  cases hp : t.type with
  | PUBLISHER =>
    have hplace : ∀ v, Owner v → (∀ p, pubAt v t.stream_name = some p → p.client_id = t.client_id) →
        Owner (place t (putTask t v)).2 := by
      intro v hv hown
      have hcheck : taskAt (putTask t v) (buildPublisherKey t.stream_name) = pubAt v t.stream_name := by
        rw [buildPublisherKey, taskAt_congr (putTask_pub v _ t)]
        exact taskAt_pub hv.pubs _
      unfold place
      rw [if_pos hp, hcheck, if_neg]
      · exact (hv.put_publisher hplain hmade hown).finish
      · rw [Option.any_eq_true]
        rintro ⟨p, h, hne⟩
        exact of_decide_eq_true hne (hown p h)
    rw [if_pos rfl]
    split
    · rename_i hfree
      exact hplace w hw fun p h => by rw [hfree] at h; cases h
    · rename_i p hpub
      split
      · exact hw
      · rename_i hcl
        refine hplace _ (hw.forget _ _) fun p' h => ?_
        have hsame := forget_pub_eq_or_none w t.stream_name t.client_id t.stream_name
        rcases hsame with hnone | hsame
        · rw [pubAt_of_none hnone] at h
          cases h
        · rw [pubAt_congr hsame, hpub] at h
          obtain rfl := Option.some.inj h
          exact not_not.1 hcl
  | PLAYER =>
    have hplace : ∀ v, Owner v → Owner (place t (putTask t v)).2 := by
      intro v hv
      unfold place
      rw [if_neg (by rw [hp]; decide)]
      exact (hv.put_player hp).finish
    rw [if_neg (by decide)]
    split
    · exact hplace _ (hw.forget _ _)
    · exact hplace w hw

/-! ### Heartbeats and time -/

theorem touch (hw : Owner w) (s c : String) : Owner (touch s c w) := by
  have hheld : Held (State.touch s c w) := by
    refine Stored.touch (Stored.mono (fun _ _ h => h) ?_) (fun _ _ h => by cases h) fun _ _ _ h => h
    intro body x hx hty hst s' d hs hd
    obtain ⟨p, h, hpd⟩ := hw.held body x hx hty hst s' d hs hd
    exact ⟨p, (pubAt_congr (touch_pub w s c s')).trans h, hpd⟩
  exact ⟨hw.keyed.touch s c, hw.plain.touch s c, stamped_add hw.stamped _ _,
    fun s' x hx => hw.pubs s' x (touch_pub w s c s' ▸ hx), hheld⟩

theorem advance (hw : Owner w) (t : ℤ) : Owner (advance t w) := by
  refine hw.of_pubs (fun body x hx => ?_) (hw.pubs.advance_eq t) (hw.stamped.advance t)
  rcases hashes_advance t w (.task body) with h | h
  · rw [h] at hx; cases hx
  · exact h ▸ hx

theorem initial (clock : ℤ) : Owner (World.initial clock) :=
  ⟨.initial clock, .initial clock, fun _ h => absurd rfl h, (fun _ _ h => nomatch h), .initial clock⟩

end Owner

end StreamGate.State
