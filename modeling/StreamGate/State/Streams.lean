import StreamGate.State.Drops

/-!
# What is left of a stream

The keys named by a stream: its publisher, its entry among the active streams, and its members.  A
batch takes the first two away if it has an entry of a publisher of the stream, and the cascade
takes the members as well.
-/

namespace StreamGate.State

open StreamGate.Redis StreamGate.Task StreamGate.Lib

/-- A list of identifiers has one of a publisher of the stream. -/
def NamesPublisher (ids : List TaskIdentifier) (s : String) : Prop :=
  ∃ id ∈ ids, id.type = .PUBLISHER ∧ id.streamName = s

/-- Some member of the stream has a task that can be read and is a publisher's. -/
def HasPublisher (w : World) (s : String) : Prop :=
  ∃ m ∈ w.sets (memberKey s), (taskAt w (buildTaskKey s m)).any fun t => t.type = .PUBLISHER

instance (ids : List TaskIdentifier) (s : String) : Decidable (NamesPublisher ids s) :=
  inferInstanceAs (Decidable (∃ id ∈ ids, id.type = .PUBLISHER ∧ id.streamName = s))

instance (w : World) (s : String) : Decidable (HasPublisher w s) :=
  inferInstanceAs (Decidable (∃ m ∈ (w.sets (memberKey s)).elems,
    (taskAt w (buildTaskKey s m)).any fun t => t.type = .PUBLISHER))

section Batch

variable (w : World) (ids : List TaskIdentifier) (s : String)

theorem dropTasks_pub : (dropTasks ids w).hashes (.pub s) =
    if NamesPublisher ids s then none else w.hashes (.pub s) := by
  induction ids generalizing w with
  | nil => simp [NamesPublisher, dropTasks]
  | cons id ids ih =>
    obtain ⟨s', c, ty⟩ := id
    apply (ih _).trans
    rw [dropTask_pub]
    by_cases hhead : ty = .PUBLISHER ∧ s = s'
    · have : NamesPublisher (⟨s', c, ty⟩ :: ids) s := ⟨_, List.mem_cons_self, hhead.1, hhead.2.symm⟩
      rw [if_pos hhead, if_pos this, ite_self]
    · have : NamesPublisher (⟨s', c, ty⟩ :: ids) s ↔ NamesPublisher ids s := by
        unfold NamesPublisher
        rw [List.exists_mem_cons_iff]
        exact or_iff_right fun h => hhead ⟨h.1, h.2.symm⟩
      rw [if_neg hhead]
      simp only [this]

/-- Taken out first, or later. -/
theorem not_and_and_ne {p q a : Prop} : ¬ q ∧ a ∧ ¬ p ↔ ¬ (p ∨ q) ∧ a := by
  constructor
  · rintro ⟨hq, ha, hp⟩
    exact ⟨fun h => h.elim hp hq, ha⟩
  · rintro ⟨h, ha⟩
    exact ⟨fun hq => h (.inr hq), ha, fun hp => h (.inl hp)⟩

theorem mem_dropTasks_active : s ∈ (dropTasks ids w).sets .active_pubs ↔
    ¬ NamesPublisher ids s ∧ s ∈ w.sets .active_pubs := by
  induction ids generalizing w with
  | nil => simp [NamesPublisher, dropTasks]
  | cons id ids ih =>
    obtain ⟨s', c, ty⟩ := id
    apply (ih _).trans
    rw [dropTask_active]
    unfold NamesPublisher
    rw [List.exists_mem_cons_iff]
    by_cases hp : ty = .PUBLISHER
    · rw [if_pos hp, RSet.mem_rem]
      simp only [hp, true_and, eq_comm (a := s')]
      exact not_and_and_ne
    · rw [if_neg hp]
      simp only [hp, false_and, false_or]

theorem namesPublisher_memberTasks (s' : String) :
    NamesPublisher (memberTasks w s (w.sets (memberKey s)).elems) s' ↔ HasPublisher w s ∧ s' = s := by
  constructor
  · rintro ⟨id, hid, htype, hs⟩
    obtain ⟨c, hc, hid⟩ := List.mem_filterMap.1 hid
    obtain ⟨t, ht, rfl⟩ := Option.map_eq_some_iff.1 hid
    have htype : t.type = .PUBLISHER := htype
    exact ⟨⟨c, hc, by rw [ht, Option.any_some, htype]; rfl⟩, hs.symm⟩
  · rintro ⟨⟨c, hc, h⟩, rfl⟩
    obtain ⟨t, ht, htype⟩ := (Option.any_eq_true _ _).1 h
    refine ⟨⟨s', c, t.type⟩, List.mem_filterMap.2 ⟨c, hc, ?_⟩, of_decide_eq_true htype, rfl⟩
    rw [ht]
    rfl

/-- The cascade frees its stream if it finds the publisher among the members. -/
theorem clearStream_pub (s' : String) : (clearStream s w).hashes (.pub s') =
    if HasPublisher w s ∧ s' = s then none else w.hashes (.pub s') := by
  have hne : Key.pub s' ≠ memberKey s := nofun
  rw [clearStream, World.del_hashes_of_ne _ _ _ hne, dropTasks_pub]
  simp only [namesPublisher_memberTasks]

theorem clearStream_members : (clearStream s w).sets (memberKey s) = .empty := World.del_sets_self _ _

theorem dropTasks_clock : (dropTasks ids w).clock = w.clock := by
  induction ids generalizing w with
  | nil => rfl
  | cons id ids ih => exact (ih _).trans (dropTask_clock w id)

theorem clearStream_clock : (clearStream s w).clock = w.clock := dropTasks_clock w _

end Batch

/-! ### What can be read afterwards -/

/-- The task of the client can be read and is a publisher's. -/
def publishing (w : World) (s c : String) : Bool :=
  (taskAt w (buildTaskKey s c)).any fun t => t.type = .PUBLISHER

section Read

variable (w : World) (s c s' body : String)

/-- After a deregistration the client has no task. -/
theorem taskAt_forget : taskAt (forget s c w) (.task body) =
    if Key.task body = buildTaskKey s c then none else taskAt w (.task body) := by
  unfold forget
  cases ht : taskAt w (buildTaskKey s c) with
  | none =>
    by_cases hk : Key.task body = buildTaskKey s c
    · rw [if_pos hk, hk]
      exact ht
    · rw [if_neg hk]
      rfl
  | some t => exact taskAt_dropTask w s c _ body

/-- A deregistration frees the stream if the client is read as its publisher. -/
theorem forget_pub : (forget s c w).hashes (.pub s') =
    if publishing w s c ∧ s' = s then none else w.hashes (.pub s') := by
  unfold forget publishing
  cases ht : taskAt w (buildTaskKey s c) with
  | none =>
    rw [if_neg fun h => Bool.false_ne_true h.1]
    rfl
  | some t =>
    simp only [Option.any_some, decide_eq_true_eq]
    exact dropTask_pub w s c s' _

theorem pubAt_forget : pubAt (forget s c w) s' =
    if publishing w s c ∧ s' = s then none else pubAt w s' := by
  have h := forget_pub w s c s'
  split at h
  · rename_i hp; rw [if_pos hp, pubAt_of_none h]
  · rename_i hp; rw [if_neg hp, pubAt_congr h]

/-- A client that is not read as a publisher leaves the list of the active streams as it is. -/
theorem forget_active (h : publishing w s c = false) :
    (forget s c w).sets .active_pubs = w.sets .active_pubs := by
  unfold forget
  unfold publishing at h
  cases ht : taskAt w (buildTaskKey s c) with
  | none => rfl
  | some t =>
    rw [ht, Option.any_some, decide_eq_false_iff_not] at h
    exact (dropTask_active w s c _).trans (if_neg h)

theorem dropTasks_task (ids : List TaskIdentifier) : (dropTasks ids w).hashes (.task body) =
    if ∃ id ∈ ids, Key.task body = buildTaskKey id.streamName id.clientId then none
    else w.hashes (.task body) := by
  induction ids generalizing w with
  | nil => simp [dropTasks]
  | cons id ids ih =>
    apply (ih _).trans
    rw [dropTask_task]
    by_cases hk : Key.task body = buildTaskKey id.streamName id.clientId
    · simp [hk]
    · simp [hk]

/-- After a cascade no member of the stream has a task. -/
theorem taskAt_clearStream : taskAt (clearStream s w) (.task body) =
    if ∃ m ∈ w.sets (memberKey s), Key.task body = buildTaskKey s m then none
    else taskAt w (.task body) := by
  have hne : Key.task body ≠ memberKey s := nofun
  have hash : (clearStream s w).hashes (.task body) = _ :=
    (World.del_hashes_of_ne _ _ _ hne).trans (dropTasks_task w body _)
  split at hash
  · rename_i h
    obtain ⟨id, hid, hk⟩ := h
    obtain ⟨m, hm, hid⟩ := List.mem_filterMap.1 hid
    obtain ⟨t, -, rfl⟩ := Option.map_eq_some_iff.1 hid
    rw [taskAt_of_none hash, if_pos ⟨m, hm, hk⟩]
  · rename_i h
    rw [taskAt_congr hash]
    split
    · rename_i hmem
      obtain ⟨m, hm, hk⟩ := hmem
      -- a member that the batch does not have could not be read
      cases ht : taskAt w (.task body) with
      | none => rfl
      | some t =>
        refine absurd ⟨⟨s, m, t.type⟩, List.mem_filterMap.2 ⟨m, hm, ?_⟩, hk⟩ h
        rw [← hk, ht]
        rfl
    · rfl

theorem pubAt_clearStream : pubAt (clearStream s w) s' =
    if HasPublisher w s ∧ s' = s then none else pubAt w s' := by
  have h := clearStream_pub w s s'
  split at h
  · rename_i hp; rw [if_pos hp, pubAt_of_none h]
  · rename_i hp; rw [if_neg hp, pubAt_congr h]

end Read

/-! ### What does not come back -/

section Back

variable {w w' : World} {ids : List TaskIdentifier} {s : String}

/-- Publisher keys do not come back. -/
theorem Drops.pub (hd : Drops w ids w') (h : w.hashes (.pub s) = none) : w'.hashes (.pub s) = none := by
  refine hd.inv (I := fun v => v.hashes (.pub s) = none) (fun v s' c t hv _ => ?_) (fun v z hv _ => hv)
    (fun v s' hv => ?_) h
  · rw [dropTask_pub]
    split
    · rfl
    · exact hv
  · have hne : Key.pub s ≠ memberKey s' := nofun
    rw [World.del_hashes_of_ne _ _ _ hne]
    exact hv

theorem Drops.active (hd : Drops w ids w') (h : ¬ s ∈ w.sets .active_pubs) : ¬ s ∈ w'.sets .active_pubs := by
  refine hd.inv (I := fun v => ¬ s ∈ v.sets .active_pubs) (fun v s' c t hv _ => ?_) (fun v z hv _ => hv)
    (fun v s' hv => ?_) h
  · rw [dropTask_active]
    split
    · rw [RSet.mem_rem]
      exact fun h => hv h.1
    · exact hv
  · have hne : Key.active_pubs ≠ memberKey s' := nofun
    rw [World.del_sets_of_ne _ _ _ hne]
    exact hv

theorem Drops.members (hd : Drops w ids w') (h : w.sets (memberKey s) = .empty) :
    w'.sets (memberKey s) = .empty := by
  refine hd.inv (I := fun v => v.sets (memberKey s) = .empty) (fun v s' c t hv _ => ?_) (fun v z hv _ => hv)
    (fun v s' hv => ?_) h
  · have hv : v.sets (.members s) = .empty := hv
    rw [memberKey, dropTask_members]
    split
    · rename_i hs
      rw [← hs, hv]
      exact RSet.eq_empty_iff.2 fun m hm => (RSet.mem_empty.1 (RSet.mem_rem.1 hm).1)
    · exact hv
  · rw [World.del_sets_apply]
    split
    · rfl
    · exact hv

end Back

/-- A publisher gets a free stream while the clock is in range. -/
theorem registerTask_free {w : World} {t : StreamTask} (hp : t.type = .PUBLISHER)
    (hfree : w.hashes (.pub t.stream_name) = none) :
    (w.run (registerTask t)).1 = decide (Reasonable (ms w.clock)) := by
  have hcheck : taskAt (putTask t w) (buildPublisherKey t.stream_name) = none :=
    taskAt_of_none ((putTask_pub w _ t).trans hfree)
  rw [run_registerTask, if_pos hp, pubAt_of_none hfree]
  dsimp only
  unfold place
  rw [if_pos hp, hcheck, Option.any_none, if_neg Bool.false_ne_true]
  unfold finish
  rw [indexPublisher_clock, putTask_clock]
  split
  · rename_i h; rw [decide_eq_true h]
  · rename_i h; rw [decide_eq_false h]

end StreamGate.State
