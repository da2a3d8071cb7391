import Mathlib.Data.List.Induction
import StreamGate.State.Alone

/-!
# What deregistration can do

Everything the state manager does to get rid of tasks is a sequence of `dropTask` for tasks that
can be read at that moment, with changes to old time stamps and deletions of member sets in
between: the relation `Drops`.  An invariant that these three keep is kept by `deregisterTask`, by
the cascade and by the scan.
-/

namespace StreamGate.State

open StreamGate.Redis StreamGate.Task StreamGate.Lib

/-! ### Reading after a change -/

section Reading

variable {w w' : World} {k : Key} {s c s' : String}

theorem taskAt_congr (h : w'.hashes k = w.hashes k) : taskAt w' k = taskAt w k := by
  rw [taskAt, taskAt, World.fieldsAt, World.fieldsAt, h]

theorem pubAt_congr (h : w'.hashes (.pub s) = w.hashes (.pub s)) : pubAt w' s = pubAt w s := by
  rw [pubAt, pubAt, World.fieldsAt, World.fieldsAt, buildPublisherKey, h]

theorem taskAt_of_none (h : w.hashes k = none) : taskAt w k = none := by
  rw [taskAt, World.fieldsAt, h]; rfl

theorem pubAt_of_none (h : w.hashes (.pub s) = none) : pubAt w s = none := by
  rw [pubAt, World.fieldsAt, buildPublisherKey, h]; rfl

theorem taskAt_eq_some {t : StreamTask} (h : taskAt w k = some t) :
    ∃ x, w.hashes k = some x ∧ deserializeTask x.fields = some t := by
  obtain ⟨f, hf, ht⟩ := Option.bind_eq_some_iff.1 h
  obtain ⟨x, hx, rfl⟩ := Option.map_eq_some_iff.1 hf
  exact ⟨x, hx, ht⟩

theorem pubAt_eq_some {t : StreamTask} (h : pubAt w s = some t) :
    ∃ x, w.hashes (.pub s) = some x ∧ x.fields .active = some "1" ∧
      deserializeTask x.fields = some t := by
  obtain ⟨f, hf, ht⟩ := Option.bind_eq_some_iff.1 h
  obtain ⟨x, hx, rfl⟩ := Option.map_eq_some_iff.1 hf
  split at ht
  · exact ⟨x, hx, ‹_›, ht⟩
  · cases ht

variable (w s c s') in
theorem taskAt_dropTask (ty : StreamType) (body : String) :
    taskAt (dropTask ⟨s, c, ty⟩ w) (.task body) =
      if Key.task body = buildTaskKey s c then none else taskAt w (.task body) := by
  have h := dropTask_task w s c body ty
  split at h
  · rename_i hk; rw [if_pos hk, taskAt_of_none h]
  · rename_i hk; rw [if_neg hk, taskAt_congr h]

variable (w s c s') in
theorem pubAt_dropTask (ty : StreamType) : pubAt (dropTask ⟨s, c, ty⟩ w) s' =
    if ty = .PUBLISHER ∧ s' = s then none else pubAt w s' := by
  have h := dropTask_pub w s c s' ty
  split at h
  · rename_i hk; rw [if_pos hk, pubAt_of_none h]
  · rename_i hk; rw [if_neg hk, pubAt_congr h]

end Reading

/-! ### Sequences of drops -/

/-- A sorted set without new members. -/
def NoneNew (z z' : ZSet) : Prop := ∀ k, z'.score k ≠ none → z.score k ≠ none

theorem noneNew_rem (z : ZSet) (k : Key) : NoneNew z (z.rem k) := by
  intro k' h
  rw [ZSet.score_rem] at h
  split at h
  · exact absurd rfl h
  · exact h

theorem noneNew_add {z : ZSet} {k : Key} (hk : z.score k ≠ none) (x : ℤ) :
    NoneNew z ((z.rem k).add k x) := by
  intro k' h
  rw [ZSet.score_add] at h
  split at h
  · rename_i e; rw [e]; exact hk
  · exact noneNew_rem z k k' h

/-- `w'` comes from `w` by dropping the tasks of the list, each of which could be read when its turn
came, with changes to old time stamps and deletions of member sets in between. -/
inductive Drops (w : World) : List TaskIdentifier → World → Prop
  | refl : Drops w [] w
  | drop {ids : List TaskIdentifier} {w' : World} {s c : String} {t : StreamTask} (h : Drops w ids w')
      (ht : taskAt w' (buildTaskKey s c) = some t) :
      Drops w (ids ++ [⟨s, c, t.type⟩]) (dropTask ⟨s, c, t.type⟩ w')
  | stamp {ids : List TaskIdentifier} {w' : World} {z : ZSet} (h : Drops w ids w')
      (hz : NoneNew (w'.zsets buildTaskTimestampZSetKey) z) :
      Drops w ids (w'.setZset buildTaskTimestampZSetKey z)
  | clear {ids : List TaskIdentifier} {w' : World} (s : String) (h : Drops w ids w') :
      Drops w ids (w'.del (memberKey s))

namespace Drops

variable {w w' w'' : World} {ids ids' : List TaskIdentifier}

theorem trans (h : Drops w ids w') (h' : Drops w' ids' w'') : Drops w (ids ++ ids') w'' := by
  induction h' with
  | refl => rw [List.append_nil]; exact h
  | drop h' ht ih => rw [← List.append_assoc]; exact .drop ih ht
  | stamp h' hz ih => exact .stamp ih hz
  | clear s h' ih => exact .clear s ih

/-- **Invariants of drops.** -/
theorem inv {I : World → Prop}
    (hdrop : ∀ w s c t, I w → taskAt w (buildTaskKey s c) = some t → I (dropTask ⟨s, c, t.type⟩ w))
    (hstamp : ∀ w z, I w → NoneNew (w.zsets buildTaskTimestampZSetKey) z →
      I (w.setZset buildTaskTimestampZSetKey z))
    (hclear : ∀ w s, I w → I (w.del (memberKey s))) (h : Drops w ids w') (hw : I w) : I w' := by
  induction h with
  | refl => exact hw
  | drop h ht ih => exact hdrop _ _ _ _ ih ht
  | stamp h hz ih => exact hstamp _ _ ih hz
  | clear s h ih => exact hclear _ s ih

/-- Nothing new comes up. -/
theorem hashes (h : Drops w ids w') {body : String} {x : Hash} (hx : w'.hashes (.task body) = some x) :
    w.hashes (.task body) = some x := by
  refine h.inv (I := fun v => ∀ x, v.hashes (.task body) = some x → w.hashes (.task body) = some x)
    (fun v s c t hv _ x hx => hv x ?_) (fun v z hv _ => hv) (fun v s hv x hx => hv x ?_) (fun _ h => h) x hx
  · rw [dropTask_task] at hx
    split at hx
    · cases hx
    · exact hx
  · have hne : Key.task body ≠ memberKey s := nofun
    rw [World.del_hashes_of_ne _ _ _ hne] at hx
    exact hx

end Drops

section Operations

variable (w : World)

theorem forget_drops (s c : String) :
    Drops w ((taskAt w (buildTaskKey s c)).map fun t => TaskIdentifier.mk s c t.type).toList (forget s c w) := by
  unfold forget
  cases ht : taskAt w (buildTaskKey s c) with
  | none => exact .stamp .refl (noneNew_rem _ _)
  | some t => exact Drops.refl.drop ht

/-- Dropping other clients of a stream leaves the task of a client alone. -/
theorem taskAt_dropTasks {s c : String} {ids : List TaskIdentifier}
    (hids : ∀ id ∈ ids, id.streamName = s ∧ id.clientId ≠ c) :
    taskAt (dropTasks ids w) (buildTaskKey s c) = taskAt w (buildTaskKey s c) := by
  induction ids generalizing w with
  | nil => rfl
  | cons id ids ih =>
    obtain ⟨hs, hne⟩ := hids id (by simp)
    show taskAt (dropTasks ids (dropTask id w)) _ = _
    rw [ih _ fun i hi => hids i (by simp [hi])]
    obtain ⟨s', c', ty⟩ := id
    obtain rfl : s' = s := hs
    exact (taskAt_dropTask w s' c' ty _).trans (if_neg fun e => hne (taskKey_client.1 e).symm)

/-- The readable tasks of different clients of one stream, one after the other. -/
theorem dropTasks_drops (s : String) {cids : List String} (hn : cids.Nodup) :
    Drops w (memberTasks w s cids) (dropTasks (memberTasks w s cids) w) := by
  induction cids using List.reverseRecOn with
  | nil => exact .refl
  | append_singleton cids c ih =>
    rw [List.nodup_append] at hn
    have hc : c ∉ cids := fun h => hn.2.2 c h c (by simp) rfl
    have hsplit : memberTasks w s (cids ++ [c]) = memberTasks w s cids ++ memberTasks w s [c] := by
      simp [memberTasks]
    rw [hsplit, dropTasks, List.foldl_append]
    apply (ih hn.1).trans
    -- the task of `c` is as it was in `w`
    have hsame : taskAt (dropTasks (memberTasks w s cids) w) (buildTaskKey s c) = taskAt w (buildTaskKey s c) := by
      refine taskAt_dropTasks w fun id hid => ?_
      obtain ⟨c', hc', hid⟩ := List.mem_filterMap.1 hid
      obtain ⟨t, -, rfl⟩ := Option.map_eq_some_iff.1 hid
      exact ⟨rfl, fun e => hc (e ▸ hc')⟩
    cases ht : taskAt w (buildTaskKey s c) with
    | none => simp only [memberTasks, List.filterMap_cons, ht]; exact .refl
    | some t =>
      rw [ht] at hsame
      simp only [memberTasks, List.filterMap_cons, ht, Option.map_some, List.filterMap_nil]
      exact Drops.refl.drop hsame

theorem clearStream_drops (s : String) :
    Drops w (memberTasks w s (w.sets (memberKey s)).elems) (clearStream s w) :=
  .clear s (dropTasks_drops w s (w.sets (memberKey s)).nodup)

theorem scanKey_drops (now_ms timeout : ℤ) (k : Key) : ∃ ids, Drops w ids (scanKey now_ms timeout k w).2 := by
  have hrem := Drops.stamp (Drops.refl (w := w)) (noneNew_rem (w.zsets buildTaskTimestampZSetKey) k)
  unfold scanKey
  split
  · rename_i hk
    dsimp only
    split
    · exact ⟨_, hrem⟩
    · split
      · -- the entry is taken out and put back
        rw [World.setZset_setZset, World.setZset_self]
        exact ⟨_, .stamp .refl (noneNew_add (Option.isSome_iff_ne_none.1 hk) _)⟩
      · exact ⟨_, hrem.trans (forget_drops _ _ _)⟩
  · exact ⟨_, hrem⟩

theorem scanLoop_drops (now_ms timeout : ℤ) (keys : List Key) :
    ∃ ids, Drops w ids (w.run (scanLoop now_ms timeout keys)).2 := by
  induction keys generalizing w with
  | nil => exact ⟨_, .refl⟩
  | cons k keys ih =>
    rw [run_scanLoop_cons]
    obtain ⟨ids, h⟩ := scanKey_drops w now_ms timeout k
    obtain ⟨ids', h'⟩ := ih (scanKey now_ms timeout k w).2
    exact ⟨_, h.trans h'⟩

theorem scan_drops (timeout : ℤ) : ∃ ids, Drops w ids (w.run (scanTimeoutTasks timeout)).2 := by
  rw [run_scanTimeoutTasks]
  exact scanLoop_drops w _ _ _

end Operations

theorem forget_task_of_ne {w : World} {s c body : String} (h : Key.task body ≠ buildTaskKey s c) :
    (forget s c w).hashes (.task body) = w.hashes (.task body) := by
  unfold forget
  split
  · rfl
  · exact (dropTask_task w s c body _).trans (if_neg h)

theorem forget_clock (w : World) (s c : String) : (forget s c w).clock = w.clock := by
  unfold forget
  split
  · rfl
  · exact dropTask_clock w _

theorem forget_pub_eq_or_none (w : World) (s c s' : String) :
    (forget s c w).hashes (.pub s') = none ∨ (forget s c w).hashes (.pub s') = w.hashes (.pub s') := by
  unfold forget
  split
  · exact .inr rfl
  · rw [dropTask_pub]
    split
    · exact .inl rfl
    · exact .inr rfl

theorem dropTasks_task_of_ne {w : World} {ids : List TaskIdentifier} {body : String}
    (h : ∀ id ∈ ids, Key.task body ≠ buildTaskKey id.streamName id.clientId) :
    (dropTasks ids w).hashes (.task body) = w.hashes (.task body) := by
  induction ids generalizing w with
  | nil => rfl
  | cons id ids ih =>
    refine (ih fun i hi => h i (by simp [hi])).trans ?_
    exact (dropTask_task w _ _ body id.type).trans (if_neg (h id (by simp)))

/-- The cascade of a stream leaves other streams alone. -/
theorem clearStream_task_of_ne {w : World} {s body : String} (h : ∀ c, Key.task body ≠ buildTaskKey s c) :
    (clearStream s w).hashes (.task body) = w.hashes (.task body) := by
  have hne : Key.task body ≠ memberKey s := nofun
  refine (World.del_hashes_of_ne _ _ _ hne).trans (dropTasks_task_of_ne fun id hid => ?_)
  obtain ⟨c, -, hid⟩ := List.mem_filterMap.1 hid
  obtain ⟨t, -, rfl⟩ := Option.map_eq_some_iff.1 hid
  exact h c

/-! ### Invariants of a registration -/

/-- **Invariants of a registration**: what the removal of the old task, the two writes of the new one
and the entry of its time stamp keep. -/
theorem registerTask_inv {I : World → Prop} {t : StreamTask}
    (hforget : ∀ w, I w → I (forget t.stream_name t.client_id w)) (hput : ∀ w, I w → I (putTask t w))
    (hpub : t.type = .PUBLISHER → ∀ w, I w → I (indexPublisher t w))
    (hplay : t.type = .PLAYER → ∀ w, I w → I (indexPlayer t w))
    (hstamp : ∀ w, I w → I (w.setZset buildTaskTimestampZSetKey
      ((w.zsets buildTaskTimestampZSetKey).add t.key (ms w.clock))))
    {w : World} (hw : I w) : I (w.run (registerTask t)).2 := by
  have hfinish : ∀ w, I w → I (finish t w).2 := by
    intro w hw
    unfold finish
    split
    · exact hstamp w hw
    · exact hforget w hw
  have hplace : ∀ w, I w → I (place t w).2 := by
    intro w hw
    unfold place
    split
    · rename_i hp
      split
      · exact hforget w hw
      · exact hfinish _ (hpub hp w hw)
    · rename_i hp
      refine hfinish _ (hplay ?_ w hw)
      cases ht : t.type with
      | PUBLISHER => exact absurd ht hp
      | PLAYER => rfl
  rw [run_registerTask]
  split
  · split
    · exact hplace _ (hput _ hw)
    · split
      · exact hw
      · exact hplace _ (hput _ (hforget _ hw))
  · split
    · exact hplace _ (hput _ (hforget _ hw))
    · exact hplace _ (hput _ hw)

/-- A registration leaves the hashes of other clients alone. -/
theorem registerTask_task_of_ne {w : World} {t : StreamTask} {body : String} (h : Key.task body ≠ t.key) :
    (w.run (registerTask t)).2.hashes (.task body) = w.hashes (.task body) :=
  registerTask_inv (I := fun v => v.hashes (.task body) = w.hashes (.task body))
    (fun _ hv => (forget_task_of_ne h).trans hv) (fun v hv => ((putTask_task v body t).trans (if_neg h)).trans hv)
    (fun _ v hv => (indexPublisher_task v body t).trans hv) (fun _ v hv => (indexPlayer_task v body t).trans hv)
    (fun _ hv => hv) rfl

/-! ### Properties of every stored hash -/

/-- Every stored hash of a task has the property `Q`. -/
def Stored (Q : String → Hash → Prop) (w : World) : Prop :=
  ∀ body x, w.hashes (.task body) = some x → Q body x

namespace Stored

variable {Q : String → Hash → Prop} {w w' : World}

/-- A change that adds no hashes. -/
theorem mono (h : ∀ body x, w'.hashes (.task body) = some x → w.hashes (.task body) = some x)
    (hw : Stored Q w) : Stored Q w' := fun body x hx => hw body x (h body x hx)

theorem dropTask (hw : Stored Q w) (id : TaskIdentifier) : Stored Q (dropTask id w) := by
  obtain ⟨s, c, ty⟩ := id
  refine hw.mono fun body x hx => ?_
  rw [dropTask_task] at hx
  split at hx
  · cases hx
  · exact hx

theorem drops {ids : List TaskIdentifier} (hd : Drops w ids w') (hw : Stored Q w) : Stored Q w' :=
  hw.mono fun _ _ => hd.hashes

theorem putTask {t : StreamTask} (hw : Stored Q w)
    (ht : ∀ body old e, Key.task body = t.key → Q body ⟨(serializeTask t).over old, e⟩) :
    Stored Q (putTask t w) := by
  intro body x hx
  rw [putTask_task] at hx
  split at hx
  · rename_i hk
    obtain rfl := Option.some.inj hx
    exact ht body _ _ hk
  · exact hw body x hx

theorem registerTask {t : StreamTask} (hw : Stored Q w)
    (ht : ∀ body old e, Key.task body = t.key → Q body ⟨(serializeTask t).over old, e⟩) :
    Stored Q (w.run (registerTask t)).2 :=
  registerTask_inv (I := Stored Q) (fun w hw => hw.drops (forget_drops w _ _)) (fun _ hw => hw.putTask ht)
    (fun _ w hw => hw.mono fun body _ hx => indexPublisher_task w body t ▸ hx)
    (fun _ w hw => hw.mono fun body _ hx => indexPlayer_task w body t ▸ hx) (fun _ hw => hw) hw

theorem touch {s c : String} (hw : Stored Q w)
    (hnew : ∀ body e, Q body ⟨(beat w.clock).over fun _ => none, e⟩)
    (hold : ∀ body x e, Q body x → Q body ⟨(beat w.clock).over x.fields, e⟩) : Stored Q (touch s c w) := by
  intro body x hx
  rw [touch_task] at hx
  split at hx
  · rename_i hk
    obtain rfl := Option.some.inj hx
    cases hy : w.hashes (.task body) with
    | none =>
      rw [World.fieldsAt, ← hk, hy]
      exact hnew body _
    | some y =>
      rw [World.fieldsAt, ← hk, hy]
      exact hold body y _ (hw body y hy)
  · exact hw body x hx

theorem advance (hw : Stored Q w) (t : ℤ) : Stored Q (advance t w) := by
  refine hw.mono fun body x hx => ?_
  rcases hashes_advance t w (.task body) with h | h
  · rw [h] at hx; cases hx
  · exact h ▸ hx

theorem initial (clock : ℤ) : Stored Q (World.initial clock) := fun _ _ h => by cases h

end Stored

end StreamGate.State
