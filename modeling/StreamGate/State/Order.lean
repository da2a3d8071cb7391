import StreamGate.State.Registration

/-!
# The order of the commands of a registration

A registration enters its client among the members once, and a publisher writes its key once.  The time
stamp comes last: it is sent only after the member has been entered.
-/

namespace StreamGate.State

open StreamGate.Redis StreamGate.Task StreamGate.Lib

/-- The client is entered among the members of the stream. -/
def Joins (s c : String) (cmd : Cmd) : Prop := cmd = .sadd (memberKey s) c

/-- The publisher key of the stream is written. -/
def Claims (s : String) (cmd : Cmd) : Prop := ∃ f, cmd = .hset (buildPublisherKey s) f

/-- The time stamp of a task is written. -/
def Stamps (s c : String) (cmd : Cmd) : Prop := ∃ x, cmd = .zadd buildTaskTimestampZSetKey (buildTaskKey s c) x

/-- The commands that write nothing but the count of players. -/
def Removes : Cmd → Prop
  | .hset _ _ | .sadd _ _ | .zadd _ _ _ | .expire _ _ => False
  | .hincrby k _ _ => k = buildGlobalPlayerCountKey
  | _ => True

theorem removes_of_reads {cmd : Cmd} (h : Reads cmd) : Removes cmd := by
  cases cmd <;> trivial

theorem batchCmds_removes (id : TaskIdentifier) : ∀ cmd ∈ batchCmds id, Removes cmd := by
  obtain ⟨s, c, ty⟩ := id
  cases ty <;> simp [batchCmds, Removes]

theorem deregisterTask_removes (s c : String) : (deregisterTask s c).Only Removes :=
  deregisterTask_obeys_of (fun _ => trivial) trivial fun _ t _ _ => batchCmds_removes ⟨s, c, t.type⟩

/-! ### Pipelines -/

section Pipeline

variable {D Q : Cmd → Prop} {pre post : List Cmd} {c : Cmd}

theorem sendRest_after (hpre : ∀ x ∈ pre, ¬ D x) (hpost : ∀ x ∈ post, Q x) :
    (sendRest (pre ++ c :: post)).After D Q := by
  have hrest : (sendRest post).Only Q := obeys_sendRest hpost
  induction pre with
  | nil => exact fun _ => ⟨fun _ => hrest, hrest.after⟩
  | cons x pre ih =>
    refine fun _ => ⟨fun hx => absurd hx (hpre x List.mem_cons_self), ih fun y hy => hpre y (List.mem_cons_of_mem x hy)⟩

/-- One command of a pipeline, those before it and those after it. -/
theorem pipeline_after (hpre : ∀ x ∈ pre, ¬ D x) (hpost : ∀ x ∈ post, Q x) :
    (pipeline (pre ++ c :: post)).After D Q := by
  cases pre with
  | nil =>
    rintro (_ | r)
    · exact ⟨fun _ => trivial, trivial⟩
    · have hrest : (do sendRest post; .ret true : RProg Bool).Only Q := (obeys_sendRest hpost).bind fun _ => trivial
      exact ⟨fun _ => hrest, hrest.after⟩
  | cons x pre =>
    have hx : ¬ D x := hpre x List.mem_cons_self
    rintro (_ | r)
    · exact ⟨fun h => absurd h hx, trivial⟩
    · refine ⟨fun h => absurd h hx, Prog.After.bind_only (sendRest_after (fun y hy => ?_) hpost) fun _ => trivial⟩
      exact hpre y (List.mem_cons_of_mem x hy)

end Pipeline

/-! ### Registrations -/

section Register

variable {t : StreamTask} {G Q : Cmd → Prop} {P : {α : Type} → RProg α → Prop}

/-- The commands before the indices. -/
theorem registerTask_phase (hP : Prog.Phase G Q P) (hremoves : ∀ cmd, Removes cmd → G cmd)
    (hput : G (.hset t.key (serializeTask t))) (hexpire : ∀ n, G (.expire t.key n)) (hindices : P (registerIndices t)) :
    P (registerTask t) := by
  have hdereg : (deregisterTask t.stream_name t.client_id).Only G :=
    (deregisterTask_removes _ _).mono (fun _ _ => id) hremoves
  have hread : ∀ k, G (.hgetall k) := fun k => hremoves _ trivial
  have hhash : P (registerHash t) := by
    refine hP.before (obeys_ask hput _ _) fun b => ?_
    cases b
    · exact hP.ret _
    · refine hP.before (obeys_ask (hexpire _) _ _) fun b => ?_
      cases b
      · exact hP.before (obeys_ask (hremoves (.del _) trivial) _ _) fun _ => hP.ret _
      · exact hindices
  unfold registerTask
  split
  · refine hP.before ((obeys_ask (hread _) _ _).bind fun _ => trivial) fun existing => ?_
    cases existing with
    | none => exact hhash
    | some p =>
      show P (if p.client_id ≠ t.client_id then (return false) else _)
      split
      · exact hP.ret _
      · exact hP.before hdereg fun _ => hhash
  · refine hP.before (obeys_ask (hremoves (.existsKey _) trivial) _ _) fun b => ?_
    cases b
    · exact hhash
    · exact hP.before hdereg fun _ => hhash

/-- The indices and what comes after them. -/
theorem registerIndices_phase (hP : Prog.Phase G Q P) (hread : ∀ k, G (.hgetall k))
    (hremoves : ∀ cmd, Removes cmd → Q cmd) (hzadd : ∀ x, Q (.zadd buildTaskTimestampZSetKey t.key x))
    (hpub : P (pipeline [.hset (buildPublisherKey t.stream_name) (serializeTask t),
      .sadd (memberKey t.stream_name) t.client_id, .sadd buildActivePublishersKey t.stream_name]))
    (hplay : t.type ≠ .PUBLISHER → P (registerPlayerIndices t)) : P (registerIndices t) := by
  have hend := registerTimestamp_obeys_of (t := t) (hremoves .now trivial) hzadd
    ((deregisterTask_removes _ _).mono (fun _ _ => id) hremoves)
  unfold registerIndices
  split
  · refine hP.after (hP.before ((obeys_ask (hread _) _ _).bind fun _ => trivial) fun current => ?_) hend
    split
    · exact hP.ret _
    · exact hpub
  · rename_i hp
    exact hP.after (hplay hp) hend

theorem Removes.not_joins {s c : String} {cmd : Cmd} (h : Removes cmd) : ¬ Joins s c cmd := by
  rintro rfl
  exact h

theorem Removes.not_claims {s : String} {cmd : Cmd} (h : Removes cmd) : ¬ Claims s cmd := by
  rintro ⟨f, rfl⟩
  exact h

theorem Removes.not_stamps {s c : String} {cmd : Cmd} (h : Removes cmd) : ¬ Stamps s c cmd := by
  rintro ⟨x, rfl⟩
  exact h

/-- The member is entered once. -/
theorem registerTask_joins_once (t : StreamTask) :
    (registerTask t).After (Joins t.stream_name t.client_id) fun cmd => ¬ Joins t.stream_name t.client_id cmd := by
  have hP := Prog.After.phase (E := iface) (Joins t.stream_name t.client_id)
    fun cmd => ¬ Joins t.stream_name t.client_id cmd
  refine registerTask_phase hP (fun _ => Removes.not_joins) (by rintro ⟨⟩) (fun _ => by rintro ⟨⟩) ?_
  refine registerIndices_phase hP (fun _ => by rintro ⟨⟩) (fun _ => Removes.not_joins) (fun _ => by rintro ⟨⟩) ?_
    fun _ => ?_
  · change (pipeline ([_] ++ _ :: [_])).After _ _
    refine pipeline_after ?_ ?_
    · simp [Joins]
    · simp [Joins, memberKey, buildActivePublishersKey]
  · rintro (_ | r)
    · exact ⟨fun _ => trivial, trivial⟩
    · have hcount : (do
          let _ ← hashIncrBy buildGlobalPlayerCountKey .total 1
          return true : RProg Bool).Only fun cmd => ¬ Joins t.stream_name t.client_id cmd :=
        Prog.Obeys.bind (obeys_ask (by rintro ⟨⟩) _ _) fun _ => trivial
      exact ⟨fun _ => hcount, hcount.after⟩

/-- The publisher key is written once. -/
theorem registerTask_claims_once (t : StreamTask) (s : String) :
    (registerTask t).After (Claims s) fun cmd => ¬ Claims s cmd := by
  have hP := Prog.After.phase (E := iface) (Claims s) fun cmd => ¬ Claims s cmd
  have hput : ¬ Claims s (.hset t.key (serializeTask t)) := by rintro ⟨f, hf⟩; cases hf
  refine registerTask_phase hP (fun _ => Removes.not_claims) hput (fun _ => by rintro ⟨f, ⟨⟩⟩) ?_
  refine registerIndices_phase hP (fun _ => by rintro ⟨f, ⟨⟩⟩) (fun _ => Removes.not_claims)
    (fun _ => by rintro ⟨f, ⟨⟩⟩) ?_ fun _ => ?_
  · change (pipeline ([] ++ _ :: [_, _])).After _ _
    refine pipeline_after (by simp) ?_
    simp [Claims]
  · have hplay : (registerPlayerIndices t).Only fun cmd => ¬ Claims s cmd := by
      refine Prog.Obeys.bind (obeys_ask (by rintro ⟨f, ⟨⟩⟩) _ _) fun b => ?_
      cases b
      · trivial
      · exact Prog.Obeys.bind (obeys_ask (by rintro ⟨f, ⟨⟩⟩) _ _) fun _ => trivial
    exact hplay.after

/-- A player does not write a publisher key. -/
theorem registerTask_claims_none (ht : t.type ≠ .PUBLISHER) (s : String) :
    (registerTask t).Only fun cmd => ¬ Claims s cmd := by
  refine registerTask_obeys_of (fun _ => ⟨?_, ?_⟩) ?_ ?_ (fun _ => ?_) ?_ (fun _ => ?_) (fun h => absurd h ht) ?_
    (fun _ => ?_) ((deregisterTask_removes _ _).mono (fun _ _ => id) fun _ => Removes.not_claims) <;>
  · rintro ⟨f, hf⟩
    cases hf

/-- The time stamp is sent only after the member has been entered. -/
theorem registerTask_stamps_last (t : StreamTask) : (registerTask t).Until (Joins t.stream_name t.client_id)
    fun cmd => ¬ Stamps t.stream_name t.client_id cmd := by
  have hP := Prog.Until.phase (E := iface) (Joins t.stream_name t.client_id)
    fun cmd => ¬ Stamps t.stream_name t.client_id cmd
  refine registerTask_phase hP (fun _ => Removes.not_stamps) (by rintro ⟨x, ⟨⟩⟩) (fun _ => by rintro ⟨x, ⟨⟩⟩) ?_
  have hback : (rollBack t).Only fun cmd => ¬ Stamps t.stream_name t.client_id cmd :=
    ((deregisterTask_removes _ _).mono (fun _ _ => id) fun _ => Removes.not_stamps).bind fun _ => trivial
  have hend : ∀ b : Bool, ¬ (b = true) → (if b then registerTimestamp t else rollBack t : RProg Bool).Until
      (Joins t.stream_name t.client_id) fun cmd => ¬ Stamps t.stream_name t.client_id cmd := by
    rintro (_ | _) hb
    · exact hback.until
    · exact absurd rfl hb
  unfold registerIndices
  split
  · refine Prog.Until.bind_earns ?_ ?_ hend
    · refine Prog.Only.until (Prog.Obeys.bind ((obeys_ask (by rintro ⟨x, ⟨⟩⟩) _ _).bind fun _ => trivial) fun _ => ?_)
      split
      · trivial
      · refine obeys_pipeline ?_
        simp [Stamps]
    · refine Prog.Earns.bind_right _ fun current => ?_
      split
      · exact Bool.false_ne_true
      · exact ⟨fun _ => .inr fun _ => .inl rfl, Bool.false_ne_true⟩
  · have hplay : (registerPlayerIndices t).Earns (Joins t.stream_name t.client_id) (· = true) :=
      ⟨fun _ => .inl rfl, Bool.false_ne_true⟩
    refine Prog.Until.bind_earns (Prog.Only.until ?_) hplay hend
    refine Prog.Obeys.bind (obeys_ask (by rintro ⟨x, ⟨⟩⟩) _ _) fun b => ?_
    cases b
    · trivial
    · exact Prog.Obeys.bind (obeys_ask (by rintro ⟨x, ⟨⟩⟩) _ _) fun _ => trivial

end Register

end StreamGate.State
