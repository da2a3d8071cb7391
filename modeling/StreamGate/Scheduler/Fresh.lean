import StreamGate.Scheduler.Cleanup
import StreamGate.Scheduler.Ops

/-!
# Fresh registrations

One iteration of the cleanup thread among publish and play requests, and a request whose client has no
registration on the stream yet.  If the request succeeds, its registration is there at the end unless the
iteration got in its way: the member was entered before `DEL stream:members:s`, or the publisher key was
written before a `DEL pub:s` of the iteration (`fresh_registration_iff`).
-/

namespace StreamGate.Scheduler

open StreamGate.Redis StreamGate.Task StreamGate.Lib StreamGate.State

section Fresh

variable {ι : Type} [DecidableEq ι] {node_config : NodeConfig} {task_timeout : ℤ} {hooks : ι → Hook}
  {w : World} {r : ι}

/-- The other requests leave the task of `r` alone from `mid` on: they are for other streams, or
they are play requests of other clients that begin after `mid` and have no publisher's hash. -/
def Aside (hooks : ι → Hook) (r : ι) (es₁ es₂ : List (Ev (Option ι) ℤ)) (mid : World) : Prop :=
  ∀ j, j ≠ r → Conf.TakesPart (some j) es₂ →
    (hooks j).stream_name ≠ (hooks r).stream_name ∨
      ((hooks j).type = .PLAYER ∧ (hooks j).client_id ≠ (hooks r).client_id ∧
        NoColon (hooks j).client_id ∧ ¬ Conf.TakesPart (some j) es₁ ∧
        NoPublisher (mid.fieldsAt (buildTaskKey (hooks j).stream_name (hooks j).client_id)))

/-- The players that join the stream of `r` have no publisher's hash. -/
def Unharmed (hooks : ι → Hook) (r : ι) (es₂ : List (Ev (Option ι) ℤ)) (w : World) : Prop :=
  ∀ j, j ≠ r → Conf.TakesPart (some j) es₂ → (hooks j).stream_name = (hooks r).stream_name →
    NoPublisher (w.fieldsAt (buildTaskKey (hooks r).stream_name (hooks j).client_id))

/-- The commands of threads that leave one task alone. -/
def Elsewhere (s x : String) (cmd : Cmd) : Prop :=
  OffStream s cmd ∨ ∃ y, y ≠ x ∧ OnTask s y .PLAYER cmd

/-- Wherever a request is, it sends only commands for its task. -/
theorem hook_only_mid {es : List (Ev (Option ι) ℤ)}
    {mid : Conf iface World (Option ι) (Option SchedulerResult)}
    (hmid : (system node_config task_timeout hooks w).exec machine es = some mid) (j : ι) :
    (mid.thr (some j)).Only (OnTask (hooks j).stream_name (hooks j).client_id .PUBLISHER) := by
  refine Conf.exec_only ?_ hmid
  exact Prog.Obeys.bind (hook_obeys (.inl rfl) (.inl rfl)) fun _ => trivial

/-- A reply of a store in which the players have no publisher's hash. -/
def Replied (hooks : ι → Hook) (r : ι) (es₂ : List (Ev (Option ι) ℤ)) (c : Cmd) (x : c.Reply) : Prop :=
  ∃ w, Unharmed hooks r es₂ w ∧ x = (handle c w).1

section Aside

variable {es₁ es₂ : List (Ev (Option ι) ℤ)} {mid : Conf iface World (Option ι) (Option SchedulerResult)}

omit [DecidableEq ι] in
theorem Aside.joins {w : World} (h : Aside hooks r es₁ es₂ w) {j : ι} (hj : j ≠ r)
    (hpart : Conf.TakesPart (some j) es₂) (hst : (hooks j).stream_name = (hooks r).stream_name) :
    NoColon (hooks j).client_id ∧ (hooks j).client_id ≠ (hooks r).client_id := by
  obtain hne | ⟨-, hcl, hnc, -, -⟩ := h j hj hpart
  · exact absurd hst hne
  · exact ⟨hnc, hcl⟩

omit [DecidableEq ι] in
theorem Aside.unharmed {w : World} (h : Aside hooks r es₁ es₂ w) : Unharmed hooks r es₂ w := fun j hj hpart hst => by
  obtain hne | ⟨-, -, -, -, hnp⟩ := h j hj hpart
  · exact absurd hst hne
  · rw [hst] at hnp
    exact hnp

/-- A request that stays aside sends commands for elsewhere. -/
theorem Aside.obeys (h : Aside hooks r es₁ es₂ mid.st)
    (hmid : (system node_config task_timeout hooks w).exec machine es₁ = some mid) {j : ι} (hj : j ≠ r)
    (hpart : Conf.TakesPart (some j) es₂) :
    (mid.thr (some j)).Obeys (Replied hooks r es₂) (Elsewhere (hooks r).stream_name (hooks r).client_id) := by
  rcases h j hj hpart with hne | ⟨hplay, hcl, -, hnew, -⟩
  · exact (hook_only_mid hmid j).mono (fun _ _ _ => trivial) fun _ h => .inl ⟨_, hne, .inr ⟨_, h⟩⟩
  · by_cases hst : (hooks j).stream_name = (hooks r).stream_name
    · rw [Conf.exec_not_takesPart hnew hmid]
      have hob : ((hooks j).prog node_config).Obeys (Replied hooks r es₂)
          (OnTask (hooks j).stream_name (hooks j).client_id .PLAYER) := by
        refine hook_obeys (.inr hplay) (.inr ?_)
        rintro f ⟨w', hw', rfl⟩
        rw [hst]
        exact hw' j hj hpart hst
      exact Prog.Obeys.bind (hob.mono (fun _ _ => id) fun _ h => .inr ⟨_, hcl, hst ▸ h⟩) fun _ => trivial
    · exact (hook_only_mid hmid j).mono (fun _ _ _ => trivial) fun _ h => .inl ⟨_, hst, .inr ⟨_, h⟩⟩

omit [DecidableEq ι] in
/-- A command for elsewhere spares the task, and makes no publisher's hash for a player of the stream. -/
theorem Elsewhere.keeps {cmd : Cmd} (hcmd : Elsewhere (hooks r).stream_name (hooks r).client_id cmd)
    {T : ℤ} {w₁ : World} (hs : NoColon (hooks r).stream_name) (hx : NoColon (hooks r).client_id)
    (haside : Aside hooks r es₁ es₂ w₁) {w : World} (hw : Unharmed hooks r es₂ w) :
    Spares False (hooks r).stream_name (hooks r).client_id T w (handle cmd w).2 ∧
      Unharmed hooks r es₂ (handle cmd w).2 := by
  rcases hcmd with ⟨s', hne, rfl | ⟨c', h⟩⟩ | ⟨y, hy, h⟩
  · refine ⟨spares_del_members hne w, fun j hj hpart hst => ?_⟩
    have hne : buildTaskKey (hooks r).stream_name (hooks j).client_id ≠ memberKey s' :=
      fun e => Key.noConfusion e
    have hsame : (w.del (memberKey s')).fieldsAt (buildTaskKey _ _) = w.fieldsAt (buildTaskKey _ _) :=
      congrArg (Option.map Hash.fields) (World.del_hashes_of_ne w _ _ hne)
    exact hsame ▸ hw j hj hpart hst
  · refine ⟨OnTask.spares h (fun e => hne (taskKey_inj_of_noColon hs hx e).1.symm) (.inl hne) w,
      fun j hj hpart hst => OnTask.noPublisher h (.inl fun e => ?_) (hw j hj hpart hst)⟩
    exact hne (taskKey_inj_of_noColon hs (haside.joins hj hpart hst).1 e).1.symm
  · exact ⟨OnTask.spares h (fun e => hy (taskKey_client.1 e).symm) (.inr ⟨hy, rfl⟩) w,
      fun j hj hpart hst => OnTask.noPublisher h (.inr rfl) (hw j hj hpart hst)⟩

end Aside

/-- Every store on the way is sound. -/
theorem sound_of_run (hw : Reached w) {es : List (Ev (Option ι) ℤ)}
    {m : Conf iface World (Option ι) (Option SchedulerResult)}
    (hrun : (system node_config task_timeout hooks w).exec machine es = some m) : Sound m.st := by
  refine (Conf.exec_obeys (G := Proper) (fun c _ hv => hv.taskStamps c) (fun _ _ hc hv => hv.after hc)
    (fun t _ _ hv => hv.advance t) (fun i => ?_) hw.sound hrun).2
  cases i with
  | none => exact (timeoutCleanup_proper task_timeout).bind fun _ => trivial
  | some i => exact Prog.Obeys.bind (hook_proper (hooks i)) fun _ => trivial

/-- A client without a registration on a stream. -/
structure Absent (s x : String) (w : World) : Prop where
  stamp : (w.zsets buildTaskTimestampZSetKey).score (buildTaskKey s x) = none
  member : ¬ x ∈ w.sets (memberKey s)
  pub : ¬ HeldBy s x w

theorem advance_zsets (t : ℤ) (w : World) : (advance t w).zsets = w.zsets := by
  unfold advance
  split <;> rfl

theorem advance_sets (t : ℤ) (w : World) : (advance t w).sets = w.sets := by
  unfold advance
  split <;> rfl

theorem heldBy_advance {s x : String} {t : ℤ} {w : World} (h : HeldBy s x (advance t w)) : HeldBy s x w := by
  obtain ⟨y, hy, hc⟩ := h
  rcases hashes_advance t w (buildPublisherKey s) with e | e
  · cases e.symm.trans hy
  · exact ⟨y, e.symm.trans hy, hc⟩

/-- Such a client does not show in any reply. -/
theorem unseen {s x : String} (hw : Sound w)
    (hstamp : (w.zsets buildTaskTimestampZSetKey).score (buildTaskKey s x) = none)
    (hmember : ¬ x ∈ w.sets (memberKey s)) (c : Cmd) : Unseen s x c (handle c w).1 := by
  cases c with
  | zrangebyscore k lo hi =>
    rintro rfl m hm
    obtain ⟨n, hn, -⟩ := ZSet.mem_rangeByScore.1 hm
    refine ⟨?_, hw.stamped m (by rw [hn]; exact Option.some_ne_none n)⟩
    rintro rfl
    cases hstamp.symm.trans hn
  | smembers k =>
    rintro rfl hm
    exact hmember hm
  | hgetall k =>
    rintro t ht ⟨body, rfl⟩
    exact (hw.keyed.of_taskAt ht).symm
  | _ => trivial

/-! ### From the first write on -/

/-- The commands of the threads from then on: the iteration strips, the request registers its task, and the others are
elsewhere. -/
def Kind (hooks : ι → Hook) (r : ι) : Option ι → Cmd → Prop
  | none => Strips
  | some j =>
    if j = r then OnTask (hooks r).stream_name (hooks r).client_id .PUBLISHER
    else Elsewhere (hooks r).stream_name (hooks r).client_id

/-- The request `r` has only read up to `mid`, and from then on the others stay aside. -/
structure Joining (node_config : NodeConfig) (task_timeout : ℤ) (hooks : ι → Hook) (w : World) (r : ι)
    (es₁ es₂ : List (Ev (Option ι) ℤ)) (mid : Conf iface World (Option ι) (Option SchedulerResult)) : Prop where
  stream : NoColon (hooks r).stream_name
  client : NoColon (hooks r).client_id
  start : (system node_config task_timeout hooks w).exec machine es₁ = some mid
  fresh : Conf.OnlySent machine Reads (system node_config task_timeout hooks w) (some r) es₁
  aside : Aside hooks r es₁ es₂ mid.st

/-- The iteration has not come across the client: no time stamp, no member, and no publisher key but by the
request. -/
structure Clearing (hooks : ι → Hook) (r : ι) (mid : Conf iface World (Option ι) (Option SchedulerResult))
    (past : List (Ev (Option ι) ℤ)) (m : Conf iface World (Option ι) (Option SchedulerResult)) : Prop where
  stamp : (m.st.zsets buildTaskTimestampZSetKey).score
    (buildTaskKey (hooks r).stream_name (hooks r).client_id) = none
  member : ¬ (hooks r).client_id ∈ m.st.sets (memberKey (hooks r).stream_name)
  pub : HeldBy (hooks r).stream_name (hooks r).client_id m.st →
    Conf.WasServed machine (Claims (hooks r).stream_name) mid (some r) past
  iteration : (m.thr none).Obeys (Unseen (hooks r).stream_name (hooks r).client_id)
    (Clears (hooks r).stream_name (hooks r).client_id)

/-- A hash changes only by the commands for it; those of an iteration take it away. -/
theorem hashes_strips {cmd : Cmd} (h : Strips cmd) {k : Key} (hk : k ≠ buildGlobalPlayerCountKey) (w : World) :
    (cmd = .del k ∧ (handle cmd w).2.hashes k = none) ∨ (handle cmd w).2.hashes k = w.hashes k := by
  cases cmd with
  | hincrby l f n =>
    obtain rfl : l = _ := h
    exact .inr (World.hset_of_ne _ _ _ _ hk)
  | del l =>
    by_cases hl : k = l
    · subst hl
      exact .inl ⟨rfl, World.del_hashes_self _ _⟩
    · exact .inr (World.del_hashes_of_ne _ _ _ hl)
  | hset l f => exact h.elim
  | expire l n => exact h.elim
  | _ => exact .inr rfl

theorem not_joins_of_strips {s x : String} {cmd : Cmd} (h : Strips cmd) : ¬ Joins s x cmd := by
  rintro rfl
  exact h

theorem not_claims_of_strips {s : String} {cmd : Cmd} (h : Strips cmd) : ¬ Claims s cmd := by
  rintro ⟨f, rfl⟩
  exact h

theorem counts_of_strips {cmd : Cmd} (h : Strips cmd) : Counts cmd := by
  rintro k f n rfl
  exact h

namespace Elsewhere

variable {s x : String} {cmd : Cmd}

theorem not_joins (h : Elsewhere s x cmd) : ¬ Joins s x cmd := by
  rintro rfl
  rcases h with ⟨s', hne, h | ⟨c, ⟨h, -⟩ | ⟨-, h, -⟩⟩⟩ | ⟨y, hy, ⟨-, h⟩ | ⟨-, h, -⟩⟩
  · cases h
  · exact hne (Key.members.inj h).symm
  · cases h
  · exact hy h.symm
  · cases h

theorem not_claims (h : Elsewhere s x cmd) : ¬ Claims s cmd := by
  rintro ⟨f, rfl⟩
  rcases h with ⟨s', hne, h | ⟨c, ⟨h, -⟩ | ⟨-, h⟩⟩⟩ | ⟨y, hy, ⟨h, -⟩ | ⟨h, -⟩⟩
  · cases h
  · cases h
  · exact hne (Key.pub.inj h).symm
  · cases h
  · cases h

theorem not_stamps (hs : NoColon s) (hx : NoColon x) (h : Elsewhere s x cmd) : ¬ Stamps s x cmd := by
  rintro ⟨n, rfl⟩
  rcases h with ⟨s', hne, h | ⟨c, -, h⟩⟩ | ⟨y, hy, -, h⟩
  · cases h
  · exact hne (taskKey_inj_of_noColon hs hx h).1.symm
  · exact hy (taskKey_client.1 h).symm

theorem counts (h : Elsewhere s x cmd) : Counts cmd := by
  rcases h with ⟨s', -, rfl | ⟨c, h⟩⟩ | ⟨y, -, h⟩
  · rintro k f n ⟨⟩
  · exact OnTask.counts h
  · exact OnTask.counts h

end Elsewhere

theorem Kind.counts {i : Option ι} {cmd : Cmd} (h : Kind hooks r i cmd) : Counts cmd := by
  cases i with
  | none => exact counts_of_strips h
  | some j =>
    rw [Kind] at h
    split at h
    · exact OnTask.counts h
    · exact Elsewhere.counts h

/-- The registration of a request is there: the hash, the member and, for a publisher, the publisher key. -/
def Stays (k : Hook) (res : SchedulerResult) (w : World) : Prop :=
  ∃ t, res.task = some t ∧ t.stream_name = k.stream_name ∧ t.client_id = k.client_id ∧ t.type = k.type ∧
    Wrote w t.key t ∧ t.client_id ∈ w.sets (memberKey t.stream_name) ∧
    (t.type = .PUBLISHER → Wrote w (buildPublisherKey t.stream_name) t)

namespace Joining

variable {es₁ es₂ : List (Ev (Option ι) ℤ)} {mid : Conf iface World (Option ι) (Option SchedulerResult)}

theorem obeys (h : Joining node_config task_timeout hooks w r es₁ es₂ mid) (i : Option ι)
    (hi : Conf.TakesPart i es₂) : (mid.thr i).Obeys (Replied hooks r es₂) (Kind hooks r i) := by
  cases i with
  | none =>
    have hstart : ((system node_config task_timeout hooks w).thr none).Only Strips :=
      (timeoutCleanup_strips task_timeout).bind fun _ => trivial
    have hstrips : (mid.thr none).Only Strips := Conf.exec_only hstart h.start
    exact hstrips.mono (fun _ _ _ => trivial) fun _ => id
  | some j =>
    by_cases hj : j = r
    · subst hj
      exact (hook_only_mid h.start j).mono (fun _ _ _ => trivial) fun _ hc => by rw [Kind, if_pos rfl]; exact hc
    · exact (h.aside.obeys h.start hj hi).mono (fun _ _ => id) fun _ hc => by rw [Kind, if_neg hj]; exact hc

theorem unharmed (h : Joining node_config task_timeout hooks w r es₁ es₂ mid) {i : Option ι} {cmd : Cmd}
    (hcmd : Kind hooks r i cmd) {v : World} (hv : Unharmed hooks r es₂ v) : Unharmed hooks r es₂ (handle cmd v).2 := by
  cases i with
  | none =>
    intro j hj hpart hst
    have hk : buildTaskKey (hooks r).stream_name (hooks j).client_id ≠ buildGlobalPlayerCountKey :=
      fun e => Key.noConfusion e
    rcases hashes_strips hcmd hk v with ⟨-, e⟩ | e
    · intro t ht
      rw [World.fieldsAt, e] at ht
      cases ht
    · rw [World.fieldsAt, e]
      exact hv j hj hpart hst
  | some j =>
    by_cases hj : j = r
    · subst hj
      rw [Kind, if_pos rfl] at hcmd
      refine fun i hi hpart hst => OnTask.noPublisher hcmd (.inl fun e => ?_) (hv i hi hpart hst)
      exact (h.aside.joins hi hpart hst).2 (taskKey_client.1 e)
    · rw [Kind, if_neg hj] at hcmd
      exact (hcmd.keeps (T := 0) h.stream h.client h.aside hv).2

/-- Wherever the schedule has come to, the threads send their own kind of commands. -/
theorem guarantees (h : Joining node_config task_timeout hooks w r es₁ es₂ mid) {past : List (Ev (Option ι) ℤ)}
    {m : Conf iface World (Option ι) (Option SchedulerResult)} (hpast : past <+: es₂)
    (hm : mid.exec machine past = some m) :
    (∀ i, Conf.TakesPart i es₂ → (m.thr i).Obeys (Replied hooks r es₂) (Kind hooks r i)) ∧ Unharmed hooks r es₂ m.st :=
  Conf.exec_guarantees (M := machine) (fun _ v hv => ⟨v, hv, rfl⟩) (fun _ _ _ _ hcmd hv => h.unharmed hcmd hv)
    (fun t _ _ hv j hj hpart hst => noPublisher_advance t (hv j hj hpart hst))
    (fun _ ⟨e, he, hi⟩ => ⟨e, hpast.subset he, hi⟩) h.obeys h.aside.unharmed hm

/-- A served command is one of its thread's kind. -/
theorem kind (h : Joining node_config task_timeout hooks w r es₁ es₂ mid) {past : List (Ev (Option ι) ℤ)}
    {m : Conf iface World (Option ι) (Option SchedulerResult)} {i : Option ι} (hpre : past ++ [.run i] <+: es₂)
    (hm : mid.exec machine past = some m) {cmd : Cmd} (hcmd : (m.thr i).head = some cmd) : Kind hooks r i cmd :=
  ((h.guarantees ((List.prefix_append _ _).trans hpre) hm).1 i
    ⟨_, hpre.subset (List.mem_append_right _ (List.mem_singleton_self _)), .inl rfl⟩).head hcmd

/-! ### A registration that is in the way -/

/-- What the request does once and a later command of the iteration undoes stays undone. -/
theorem undone (h : Joining node_config task_timeout hooks w r es₁ es₂ mid) {D D' : Cmd → Prop} {J : World → Prop}
    (honce : (mid.thr (some r)).After D fun cmd => ¬ D cmd) (hundo : ∀ cmd v, D' cmd → J (handle cmd v).2)
    (hstrips : ∀ cmd, Strips cmd → ¬ D cmd)
    (helse : ∀ cmd, Elsewhere (hooks r).stream_name (hooks r).client_id cmd → ¬ D cmd)
    (hkeep : ∀ i cmd v, Kind hooks r i cmd → ¬ D cmd → J v → J (handle cmd v).2) (henv : ∀ t v, J v → J (advance t v))
    {fin : Conf iface World (Option ι) (Option SchedulerResult)} (hfin : mid.exec machine es₂ = some fin)
    (hprec : Conf.Precedes machine D (some r) D' none mid es₂) : J fin.st := by
  obtain ⟨past, rest, m, rfl, hm, hrest, hsent, cmd, v, hD', hst⟩ := hprec.after hfin
  have hown : (m.thr (some r)).Only fun cmd => ¬ D cmd := Conf.only_of_sent honce hsent hm
  have hstart : J m.st := hst ▸ hundo cmd v hD'
  refine (Conf.exec_induction (fun _ d => (d.thr (some r)).Only (fun cmd => ¬ D cmd) ∧ J d.st) ⟨hown, hstart⟩ ?_
    hrest).2
  rintro fs e d d' hpre hfs ⟨honly, hJ⟩ hs
  refine ⟨Conf.step_obeys (fun _ => trivial) honly hs, ?_⟩
  rcases Conf.step_cases hs with ⟨i, cmd, rfl, hcmd, hst⟩ | ⟨_, _, hst⟩ | ⟨t, _, hst⟩
  · have hpre' : (past ++ fs) ++ [.run i] <+: past ++ rest := by
      rw [List.append_assoc]
      exact (List.prefix_append_right_inj past).2 hpre
    have hkind := h.kind hpre' (Conf.exec_append_eq_some.2 ⟨m, hm, hfs⟩) hcmd
    rw [hst]
    refine hkeep i cmd d.st hkind ?_ hJ
    cases i with
    | none => exact hstrips cmd hkind
    | some j =>
      by_cases hj : j = r
      · subst hj
        exact honly.head hcmd
      · rw [Kind, if_neg hj] at hkind
        exact helse cmd hkind
  · rw [hst]
    exact hJ
  · rw [hst]
    exact henv t d.st hJ

/-- A member that was entered before the members are deleted is gone. -/
theorem member_lost (h : Joining node_config task_timeout hooks w r es₁ es₂ mid)
    {fin : Conf iface World (Option ι) (Option SchedulerResult)} (hfin : mid.exec machine es₂ = some fin)
    (hprec : Conf.Precedes machine (Joins (hooks r).stream_name (hooks r).client_id) (some r)
      (Sweep (hooks r).stream_name) none mid es₂) :
    ¬ (hooks r).client_id ∈ fin.st.sets (memberKey (hooks r).stream_name) := by
  have honce : (mid.thr (some r)).After (Joins (hooks r).stream_name (hooks r).client_id)
      fun cmd => ¬ Joins (hooks r).stream_name (hooks r).client_id cmd :=
    Conf.exec_after hook_joins_once h.start
  refine h.undone (J := fun v => ¬ (hooks r).client_id ∈ v.sets (memberKey (hooks r).stream_name)) honce ?_
    (fun _ => not_joins_of_strips) (fun _ => Elsewhere.not_joins) (fun _ _ _ _ hD hv => not_mem_after hv hD)
    ?_ hfin hprec
  · rintro cmd v rfl
    rw [after_del, World.del_sets_self]
    exact RSet.mem_empty.1
  · intro t v hv
    rw [advance_sets]
    exact hv

/-- A publisher key that was written before it is deleted is gone. -/
theorem publisher_lost (h : Joining node_config task_timeout hooks w r es₁ es₂ mid)
    {fin : Conf iface World (Option ι) (Option SchedulerResult)} (hfin : mid.exec machine es₂ = some fin)
    (hprec : Conf.Precedes machine (Claims (hooks r).stream_name) (some r)
      (· = .del (buildPublisherKey (hooks r).stream_name)) none mid es₂) :
    fin.st.fieldsAt (buildPublisherKey (hooks r).stream_name) = none := by
  have honce : (mid.thr (some r)).After (Claims (hooks r).stream_name) fun cmd => ¬ Claims (hooks r).stream_name cmd :=
    Conf.exec_after (hook_claims_once _) h.start
  refine h.undone (J := fun v => v.fieldsAt (buildPublisherKey (hooks r).stream_name) = none) honce ?_
    (fun _ => not_claims_of_strips) (fun _ => Elsewhere.not_claims) ?_ ?_ hfin hprec
  · rintro cmd v rfl
    rw [World.fieldsAt, after_del, World.del_hashes_self]
    rfl
  · intro i cmd v hkind hD hv
    exact (pub_after hD hkind.counts v).elim id fun e => e.trans hv
  · intro t v hv
    rw [World.fieldsAt]
    rcases hashes_advance t v (buildPublisherKey (hooks r).stream_name) with e | e
    · rw [e]
      rfl
    · rw [e]
      exact hv

/-- Only a publish request writes the publisher key. -/
theorem publishes (h : Joining node_config task_timeout hooks w r es₁ es₂ mid) {D' : Cmd → Prop}
    (hprec : Conf.Precedes machine (Claims (hooks r).stream_name) (some r) D' none mid es₂) :
    (hooks r).type = .PUBLISHER := by
  obtain ⟨past, rest, rfl, ⟨p, q, m, cmd, rfl, hm, hcmd, hcl⟩, -⟩ := hprec
  by_contra hne
  have hnone : (m.thr (some r)).Only fun cmd => ¬ Claims (hooks r).stream_name cmd :=
    Conf.exec_only (hook_claims_none hne _) (Conf.exec_append_eq_some.2 ⟨mid, h.start, hm⟩)
  exact hnone.head hcmd hcl

/-! ### A registration that is not in the way -/

/-- The request has entered no member yet as long as the iteration has the deletion of the members before it. -/
theorem not_joined (hserved : Conf.WasServed machine (Sweep (hooks r).stream_name) mid none es₂)
    (hprec : ¬ Conf.Precedes machine (Joins (hooks r).stream_name (hooks r).client_id) (some r)
      (Sweep (hooks r).stream_name) none mid es₂) {past : List (Ev (Option ι) ℤ)}
    {m : Conf iface World (Option ι) (Option SchedulerResult)} (hpast : past <+: es₂)
    (hm : mid.exec machine past = some m)
    (hsent : ¬ Conf.Sent machine (Sweep (hooks r).stream_name) mid none past) :
    ¬ Conf.WasServed machine (Joins (hooks r).stream_name (hooks r).client_id) mid (some r) past := by
  obtain ⟨rest, rfl⟩ := hpast
  intro hjoined
  rcases Conf.wasServed_append hm hserved with hs | hs
  · exact hsent hs.sent
  · exact hprec ⟨past, rest, rfl, hjoined, m, hm, hs⟩

/-- Until then it sends no time stamp. -/
theorem until_joined (h : Joining node_config task_timeout hooks w r es₁ es₂ mid) :
    (mid.thr (some r)).Until (Joins (hooks r).stream_name (hooks r).client_id)
      fun cmd => ¬ Stamps (hooks r).stream_name (hooks r).client_id cmd := by
  have hstart : ((system node_config task_timeout hooks w).thr (some r)).Until
      (Joins (hooks r).stream_name (hooks r).client_id)
      fun cmd => ¬ Stamps (hooks r).stream_name (hooks r).client_id cmd := hook_stamps_last
  refine (Conf.wasServed_or_until hstart h.start).resolve_left ?_
  rintro ⟨past, rest, m, cmd, rfl, hm, hcmd, rfl⟩
  obtain ⟨cmd', hcmd', hreads⟩ := h.fresh past (.run (some r)) m ⟨rest, by simp⟩ (.inl rfl) hm
  obtain rfl := Option.some.inj (hcmd.symm.trans hcmd')
  exact hreads

/-- As long as it has not, nobody enters the client, and only the request writes the publisher key. -/
theorem sends (h : Joining node_config task_timeout hooks w r es₁ es₂ mid) {past : List (Ev (Option ι) ℤ)}
    {d : Conf iface World (Option ι) (Option SchedulerResult)} {i : Option ι} {cmd : Cmd}
    (hc : Clearing hooks r mid past d) (hd : mid.exec machine past = some d) (hcmd : (d.thr i).head = some cmd)
    (hkind : Kind hooks r i cmd)
    (hnojoin : ¬ Conf.WasServed machine (Joins (hooks r).stream_name (hooks r).client_id) mid (some r)
      (past ++ [.run i])) :
    ¬ Stamps (hooks r).stream_name (hooks r).client_id cmd ∧ ¬ Joins (hooks r).stream_name (hooks r).client_id cmd ∧
      (Claims (hooks r).stream_name cmd → i = some r) := by
  cases i with
  | none =>
    obtain ⟨hstrips, -, -, hstamps⟩ := hc.iteration.head hcmd
    exact ⟨hstamps, not_joins_of_strips hstrips, fun hcl => absurd hcl (not_claims_of_strips hstrips)⟩
  | some j =>
    by_cases hj : j = r
    · subst hj
      have huntil := (Conf.wasServed_or_until h.until_joined hd).resolve_left fun hs => hnojoin (hs.append _)
      exact ⟨huntil.head hcmd, fun hjoin => hnojoin ⟨past, [], d, cmd, rfl, hd, hcmd, hjoin⟩, fun _ => rfl⟩
    · rw [Kind, if_neg hj] at hkind
      exact ⟨hkind.not_stamps h.stream h.client, hkind.not_joins, fun hcl => absurd hcl hkind.not_claims⟩

/-- Before the members are deleted the iteration does not come across the client. -/
theorem clearing (h : Joining node_config task_timeout hooks w r es₁ es₂ mid) (hw : Reached w)
    (habsent : ∀ past m, past <+: es₁ → (system node_config task_timeout hooks w).exec machine past = some m →
      Absent (hooks r).stream_name (hooks r).client_id m.st)
    (hserved : Conf.WasServed machine (Sweep (hooks r).stream_name) mid none es₂)
    (hprec : ¬ Conf.Precedes machine (Joins (hooks r).stream_name (hooks r).client_id) (some r)
      (Sweep (hooks r).stream_name) none mid es₂) {past : List (Ev (Option ι) ℤ)}
    {m : Conf iface World (Option ι) (Option SchedulerResult)} (hpast : past <+: es₂)
    (hm : mid.exec machine past = some m)
    (hsent : ¬ Conf.Sent machine (Sweep (hooks r).stream_name) mid none past) : Clearing hooks r mid past m := by
  refine Conf.exec_induction (fun past d => ¬ Conf.Sent machine (Sweep (hooks r).stream_name) mid none past →
    Clearing hooks r mid past d) (fun _ => ?_) ?_ hm hsent
  · have hmid := habsent es₁ mid (List.prefix_refl es₁) h.start
    have hstart : ((system node_config task_timeout hooks w).thr none).Obeys
        (Unseen (hooks r).stream_name (hooks r).client_id) (Clears (hooks r).stream_name (hooks r).client_id) :=
      (timeoutCleanup_clears h.stream h.client task_timeout).bind fun _ => trivial
    refine ⟨hmid.stamp, hmid.member, fun hh => absurd hh hmid.pub, Conf.exec_thr_obeys ?_ hstart h.start⟩
    intro past d hpre hd cmd
    have hd' := habsent past d hpre hd
    exact unseen (sound_of_run hw hd) hd'.stamp hd'.member cmd
  · intro past e d d' hpre hd ih hstep hnot
    have hpre' : past ++ [e] <+: es₂ := hpre.trans hpast
    have hd' : mid.exec machine (past ++ [e]) = some d' := Conf.exec_snoc hd hstep
    have hc : Clearing hooks r mid past d := ih fun hs => hnot (hs.append [e])
    have hsound : Sound d.st := sound_of_run hw (Conf.exec_append_eq_some.2 ⟨mid, h.start, hd⟩)
    have hiter : (d'.thr none).Obeys (Unseen (hooks r).stream_name (hooks r).client_id)
        (Clears (hooks r).stream_name (hooks r).client_id) :=
      Conf.step_obeys (unseen hsound hc.stamp hc.member) hc.iteration hstep
    have hnojoin := not_joined hserved hprec hpre' hd' hnot
    rcases Conf.step_cases hstep with ⟨i, cmd, rfl, hcmd, hst⟩ | ⟨i, rfl, hst⟩ | ⟨t, rfl, hst⟩
    · have hkind := h.kind hpre' hd hcmd
      obtain ⟨hstamps, hjoins, hclaims⟩ := h.sends hc hd hcmd hkind hnojoin
      refine ⟨hst ▸ score_after hc.stamp hstamps, hst ▸ not_mem_after hc.member hjoins, fun hheld => ?_, hiter⟩
      by_cases hcl : Claims (hooks r).stream_name cmd
      · obtain rfl := hclaims hcl
        exact ⟨past, [], d, cmd, rfl, hd, hcmd, hcl⟩
      · exact (hc.pub (heldBy_after hcl hkind.counts (hst ▸ hheld))).append _
    · exact ⟨hst ▸ hc.stamp, hst ▸ hc.member, fun hheld => (hc.pub (hst ▸ hheld)).append _, hiter⟩
    · replace hst : d'.st = advance t d.st := hst
      exact ⟨by rw [hst, advance_zsets]; exact hc.stamp, by rw [hst, advance_sets]; exact hc.member,
        fun hheld => (hc.pub (heldBy_advance (hst ▸ hheld))).append _, hiter⟩

/-- A command of the iteration that keeps away from the client spares its registration. -/
theorem spares_clears {s x : String} {T : ℤ} {cmd : Cmd} (hcmd : Clears s x cmd) {v : World}
    (hmember : ¬ x ∈ v.sets (memberKey s)) (hpub : HeldBy s x v → cmd ≠ .del (buildPublisherKey s)) :
    Spares False s x T v (handle cmd v).2 := by
  obtain ⟨hstrips, -, hdel, -⟩ := hcmd
  have htask : buildTaskKey s x ≠ buildGlobalPlayerCountKey := fun e => Key.noConfusion e
  have hkey : buildPublisherKey s ≠ buildGlobalPlayerCountKey := fun e => Key.noConfusion e
  refine spares_of_kept ?_ ?_ (fun hheld => ?_) fun hm => absurd hm hmember
  · exact (hashes_strips hstrips htask v).resolve_left fun h => hdel h.1
  · rintro n rfl
    exact hstrips
  · exact (hashes_strips hstrips hkey v).resolve_left fun h => hpub hheld h.1

/-- Whatever the others do spares the registration of the request. -/
theorem spares (h : Joining node_config task_timeout hooks w r es₁ es₂ mid)
    (hphase : ∀ past m, past <+: es₂ → mid.exec machine past = some m →
      (m.thr none).Only (OffStream (hooks r).stream_name) ∨ Clearing hooks r mid past m)
    (hprec : ¬ Conf.Precedes machine (Claims (hooks r).stream_name) (some r)
      (· = .del (buildPublisherKey (hooks r).stream_name)) none mid es₂)
    {T : ℤ} (htime : ∀ t, Ev.env t ∈ es₂ → ms t ≤ T) {past : List (Ev (Option ι) ℤ)} {e : Ev (Option ι) ℤ}
    {m m' : Conf iface World (Option ι) (Option SchedulerResult)} (hpre : past ++ [e] <+: es₂)
    (hm : mid.exec machine past = some m) (he : ¬ Conf.EventOf (some r) e) (hstep : m.step machine e = some m') :
    Spares False (hooks r).stream_name (hooks r).client_id T m.st m'.st := by
  have hpast : past <+: es₂ := (List.prefix_append _ _).trans hpre
  have hunharmed := (h.guarantees hpast hm).2
  rcases Conf.step_cases hstep with ⟨i, cmd, rfl, hcmd, hst⟩ | ⟨i, rfl, hst⟩ | ⟨t, rfl, hst⟩
  · rw [hst]
    cases i with
    | none =>
      rcases hphase past m hpast hm with hoff | hc
      · have helse : Elsewhere (hooks r).stream_name (hooks r).client_id cmd := .inl (hoff.head hcmd)
        exact (helse.keeps h.stream h.client h.aside hunharmed).1
      · refine spares_clears (hc.iteration.head hcmd) hc.member fun hheld hdel => hprec ?_
        obtain ⟨rest, rfl⟩ := hpre
        exact ⟨past, .run none :: rest, by simp, hc.pub hheld, m, hm, [], rest, m, cmd, rfl, rfl, hcmd, hdel⟩
    | some j =>
      have hj : j ≠ r := fun e => he (.inl (e ▸ rfl))
      have hkind := h.kind hpre hm hcmd
      rw [Kind, if_neg hj] at hkind
      exact (hkind.keeps h.stream h.client h.aside hunharmed).1
  · rw [hst]
    exact Spares.refl False _ _ T m.st
  · rw [hst]
    exact Spares.advance False _ _ (htime t (hpre.subset (by simp))) m.st

/-- **A registration that nothing is in the way of stands.** -/
theorem stands (h : Joining node_config task_timeout hooks w r es₁ es₂ mid) (hw : Reached w)
    (hphase : ∀ past m, past <+: es₂ → mid.exec machine past = some m →
      (m.thr none).Only (OffStream (hooks r).stream_name) ∨ Clearing hooks r mid past m)
    (hprec : ¬ Conf.Precedes machine (Claims (hooks r).stream_name) (some r)
      (· = .del (buildPublisherKey (hooks r).stream_name)) none mid es₂)
    (htime : ∀ t, Ev.env t ∈ es₂ → ms t ≤ ms mid.st.clock + 1000 * TASK_TTL_SEC)
    {fin : Conf iface World (Option ι) (Option SchedulerResult)} (hfin : mid.exec machine es₂ = some fin)
    {res : SchedulerResult} (hres : (fin.thr (some r)).result = some (some res)) (hok : res.isSuccess) :
    Stays (hooks r) res fin.st := by
  let B := ms mid.st.clock + 1000 * TASK_TTL_SEC
  have hearly : Early (hooks r).stream_name B mid.st := ⟨le_rfl, (sound_of_run hw h.start).pubs _⟩
  have hwp : (mid.thr (some r)).wp handle (Spares False (hooks r).stream_name (hooks r).client_id B)
      (Registers (hooks r) B B) mid.st :=
    (Conf.upto_of_onlySent (hook_upto B B) h.fresh h.start).wp (fun _ w h => h.after w)
      (fun _ _ hs h => h.spares hs) hearly
  have hend : (fin.thr (some r)).wp handle (Spares False (hooks r).stream_name (hooks r).client_id B)
      (Registers (hooks r) B B) fin.st :=
    Conf.exec_wp (M := machine) (Spares.refl False _ _ B) (fun _ _ _ => Spares.trans)
      (fun _ _ _ _ hpre hm he hstep => h.spares hphase hprec htime hpre hm he hstep) hwp hfin
  obtain ⟨t, ht, hts, htc, htt, hst⟩ := Conf.wp_result (M := machine) (Spares.refl False _ _ B) hend hres res rfl hok
  obtain ⟨old, d, -, hh⟩ := hst.hash le_rfl
  refine ⟨t, ht, hts, htc, htt, ⟨old, ?_⟩, hst.indexed.member, hst.indexed.pub⟩
  rw [World.fieldsAt, hh]
  rfl

end Joining

/-- **Fresh registrations.**  One iteration of the cleanup thread among requests, from a store that calls have
reached.  Up to `mid` the request `r` has only read, and from then on the other requests stay aside.  Either its client
has no registration on the stream up to `mid`, and the iteration deletes the members of the stream later, or it has
sent that command before.  If `r` succeeds within the time to live of its hash, its task is registered at the end,
unless the iteration deleted the members after `r` had entered its client, or the publisher key after `r` had written
it. -/
theorem fresh_registration_iff (hw : Reached w) (hs : NoColon (hooks r).stream_name) (hx : NoColon (hooks r).client_id)
    {es₁ es₂ : List (Ev (Option ι) ℤ)} {mid fin : Conf iface World (Option ι) (Option SchedulerResult)}
    (hmid : (system node_config task_timeout hooks w).exec machine es₁ = some mid)
    (hfin : mid.exec machine es₂ = some fin)
    (hfresh : Conf.OnlySent machine Reads (system node_config task_timeout hooks w) (some r) es₁)
    (haside : Aside hooks r es₁ es₂ mid.st)
    (hsweep : ((∀ past m, past <+: es₁ → (system node_config task_timeout hooks w).exec machine past = some m →
        Absent (hooks r).stream_name (hooks r).client_id m.st) ∧
        Conf.WasServed machine (Sweep (hooks r).stream_name) mid none es₂) ∨
      Conf.Sent machine (Sweep (hooks r).stream_name) (system node_config task_timeout hooks w) none es₁)
    (htime : ∀ t, Ev.env t ∈ es₂ → ms t ≤ ms mid.st.clock + 1000 * TASK_TTL_SEC)
    {res : SchedulerResult} (hres : (fin.thr (some r)).result = some (some res)) (hok : res.isSuccess) :
    Stays (hooks r) res fin.st ↔
      ¬ Conf.Precedes machine (Joins (hooks r).stream_name (hooks r).client_id) (some r)
          (Sweep (hooks r).stream_name) none mid es₂ ∧
        ¬ Conf.Precedes machine (Claims (hooks r).stream_name) (some r)
          (· = .del (buildPublisherKey (hooks r).stream_name)) none mid es₂ := by
  have h : Joining node_config task_timeout hooks w r es₁ es₂ mid := ⟨hs, hx, hmid, hfresh, haside⟩
  constructor
  · rintro ⟨t, -, hts, htc, htt, -, hmember, hpub⟩
    refine ⟨fun hprec => h.member_lost hfin hprec ?_, fun hprec => ?_⟩
    · rw [hts, htc] at hmember
      exact hmember
    · obtain ⟨old, hold⟩ := hpub (htt.trans (h.publishes hprec))
      rw [hts] at hold
      cases (h.publisher_lost hfin hprec).symm.trans hold
  · rintro ⟨hjoins, hclaims⟩
    refine h.stands hw (fun past m hpast hm => ?_) hclaims htime hfin hres hok
    have hafter : ((system node_config task_timeout hooks w).thr none).After
        (Sweep (hooks r).stream_name) (OffStream (hooks r).stream_name) :=
      (timeoutCleanup_after _ task_timeout).bind_only fun _ => trivial
    rcases hsweep with ⟨habsent, hserved⟩ | hswept
    · by_cases hsent : Conf.Sent machine (Sweep (hooks r).stream_name) mid none past
      · have hmidafter : (mid.thr none).After (Sweep (hooks r).stream_name) (OffStream (hooks r).stream_name) :=
          Conf.exec_after hafter hmid
        exact .inl (Conf.only_of_sent hmidafter hsent hm)
      · exact .inr (h.clearing hw habsent hserved hjoins hpast hm hsent)
    · exact .inl (Conf.only_of_sent hafter (hswept.append past) (Conf.exec_append_eq_some.2 ⟨mid, hmid, hm⟩))

/-- The publisher `a` of the stream `live` was registered sixty seconds ago. -/
def stale : World :=
  advance 1700000060000000000 ((World.initial 1700000000000000000).run
    (onPublish {} { stream_name := "live", client_id := "a", auth_token := "t" })).2

/-- A new publisher `b` of the stream. -/
def newcomer : Unit → Hook := fun _ =>
  .publish { stream_name := "live", client_id := "b", auth_token := "t" }

/-- `n` commands of one thread. -/
def rounds (n : ℕ) (i : Option Unit) : List (Ev (Option Unit) ℤ) := List.replicate n (.run i)

/-- `SADD` of a member, `HSET` of a key and `DEL` of a key. -/
def isJoin (s c : String) : Cmd → Bool
  | .sadd k m => k = memberKey s && m = c
  | _ => false

def isPut (k : Key) : Cmd → Bool
  | .hset l _ => l = k
  | _ => false

def isDel (k : Key) : Cmd → Bool
  | .del l => l = k
  | _ => false

theorem isJoin_iff (s c : String) (cmd : Cmd) : isJoin s c cmd = true ↔ Joins s c cmd := by
  cases cmd <;> simp [isJoin, Joins]

theorem isPut_iff (s : String) (cmd : Cmd) : isPut (buildPublisherKey s) cmd = true ↔ Claims s cmd := by
  cases cmd <;> simp [isPut, Claims]

theorem isDel_iff (k : Key) (cmd : Cmd) : isDel k cmd = true ↔ cmd = .del k := by
  cases cmd <;> simp [isDel]

theorem reached_stale : Reached stale := by
  have hreg : Reached ((World.initial 1700000000000000000).run
      (onPublish {} { stream_name := "live", client_id := "a", auth_token := "t" })).2 := by
    rw [run_onPublish, if_pos (by decide)]
    exact (Reached.initial 1700000000000000000).register _
  exact hreg.advance 1700000060000000000

/-- The new publisher writes its hash after the scan, the iteration ends, and the new publisher writes its indices: it
stands. -/
theorem fresh_registration_astride :
    ∃ fin res, (system {} 60 newcomer stale).exec machine
        (rounds 9 none ++ rounds 5 (some ()) ++ rounds 6 none ++ rounds 6 (some ())) = some fin ∧
      (fin.thr (some ())).result = some (some res) ∧ Stays (newcomer ()) res fin.st := by
  have hfin : ((system {} 60 newcomer stale).exec machine
      (rounds 9 none ++ rounds 5 (some ()) ++ rounds 6 none ++ rounds 6 (some ()))).any
      (fun f => ((f.thr (some ())).result.bind id).any SchedulerResult.isSuccess) = true := by decide +kernel
  obtain ⟨fin, hfin, hres⟩ := (Option.any_eq_true _ _).1 hfin
  obtain ⟨res, hres, hok⟩ := (Option.any_eq_true _ _).1 hres
  obtain ⟨o, ho, rfl⟩ := Option.bind_eq_some_iff.1 hres
  have habsent : Absent "live" "b" stale := by
    refine ⟨by decide +kernel, by decide +kernel, ?_⟩
    rintro ⟨x, hx, hc⟩
    have hall : (stale.hashes (buildPublisherKey "live")).all (fun x => x.fields .client_id ≠ some "b") = true := by
      decide +kernel
    rw [hx] at hall
    exact of_decide_eq_true hall hc
  have hmid : (system {} 60 newcomer stale).exec machine [] = some _ := rfl
  refine ⟨fin, res, hfin, ho,
    (@fresh_registration_iff _ _ _ _ newcomer _ () reached_stale (by decide) (by decide) _ _ _ _ hmid
      hfin ?_ (fun _ hj => absurd rfl hj) (.inl ⟨?_, ?_⟩) ?_ _ ho hok).2 ⟨?_, ?_⟩⟩
  · intro past e m hpre
    simpa using hpre.length_le
  · intro past m hpre hm
    obtain rfl := List.prefix_nil.1 hpre
    obtain rfl := Option.some.inj hm
    exact habsent
  · exact (Conf.everServed_iff (isDel_iff _)).1 (by decide +kernel)
  · intro t ht
    simp [rounds] at ht
  · exact Conf.not_precedes (isJoin_iff _ _) (isDel_iff _) (by decide +kernel)
  · exact Conf.not_precedes (isPut_iff _) (isDel_iff _) (by decide +kernel)

/-- The new publisher registers after the scan has freed the stream, and the rest of the iteration
removes it. -/
theorem fresh_registration_lost :
    ∃ mid fin, (system {} 60 newcomer stale).exec machine (rounds 9 none ++ rounds 11 (some ())) = some mid ∧
      mid.exec machine (rounds 11 none) = some fin ∧
      ((mid.thr (some ())).result.bind id).any SchedulerResult.isSuccess = true ∧
      mid.st.hashes (buildPublisherKey "live") ≠ none ∧
      (fin.thr none).result = some none ∧ fin.st.hashes (buildTaskKey "live" "b") = none ∧
      ¬ "b" ∈ fin.st.sets (memberKey "live") ∧ fin.st.hashes (buildPublisherKey "live") = none := by
  have hall : ((system {} 60 newcomer stale).exec machine (rounds 9 none ++ rounds 11 (some ()))).any
      (fun m => (((m.thr (some ())).result.bind id).any SchedulerResult.isSuccess &&
          (m.st.hashes (buildPublisherKey "live")).isSome) &&
        (m.exec machine (rounds 11 none)).any fun f =>
          (decide ((f.thr none).result = some none) && (f.st.hashes (buildTaskKey "live" "b")).isNone) &&
          (decide (¬ "b" ∈ f.st.sets (memberKey "live")) &&
            (f.st.hashes (buildPublisherKey "live")).isNone)) = true := by decide +kernel
  obtain ⟨mid, hmid, h⟩ := (Option.any_eq_true _ _).1 hall
  simp only [Bool.and_eq_true] at h
  obtain ⟨fin, hfin, h'⟩ := (Option.any_eq_true _ _).1 h.2
  simp only [Bool.and_eq_true, decide_eq_true_iff, Option.isNone_iff_eq_none] at h'
  refine ⟨mid, fin, hmid, hfin, h.1.1, fun e => ?_, h'.1.1, h'.1.2, h'.2.1, h'.2.2⟩
  rw [e] at h
  exact absurd h.1.2 (by decide)

end Fresh

end StreamGate.Scheduler
