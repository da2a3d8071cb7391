import StreamGate.State.Registration

/-!
# Two publishers race for one stream

Two calls `registerTask` for the same stream, interleaved command by command.  The stream is
checked twice, by the first and by the fourth command of a call, and taken by the fifth.  Nothing
ties the second check to the write, so two calls that are both between their fourth and their
fifth command both succeed; apart from that the check works (`not_both_of_apart`).

The argument follows each call through its stages: before the second check (`early`), between the
check and the write (`afterCheck`), after the write (`Late`), or certain to return `false`.
-/

namespace StreamGate.State

open StreamGate.Redis StreamGate.Task StreamGate.Lib

/-! ### The stages of a publisher's registration -/

section Stages

variable (t : StreamTask)

/-- The hash has been written. -/
def afterHash : RProg Bool := do
  if ← keyExpire t.key TASK_TTL_SEC then registerIndices t
  else do
    let _ ← keyDel t.key
    return false

/-- The second check has passed. -/
def afterCheck : RProg Bool := do
  let index_ok ← pipeline [.hset (buildPublisherKey t.stream_name) (serializeTask t),
    .sadd (memberKey t.stream_name) t.client_id, .sadd buildActivePublishersKey t.stream_name]
  if index_ok then registerTimestamp t else rollBack t

/-- The publisher key has been written. -/
def afterPub : RProg Bool := do
  sendRest [.sadd (memberKey t.stream_name) t.client_id, .sadd buildActivePublishersKey t.stream_name]
  registerTimestamp t

/-- The member index has been written. -/
def afterMember : RProg Bool := do
  sendRest [.sadd buildActivePublishersKey t.stream_name]
  registerTimestamp t

/-- The clock has been read. -/
def afterClock (now : ℤ) : RProg Bool := do
  if ← zsetAdd buildTaskTimestampZSetKey (ms now) t.key then return true
  else rollBack t

/-- The stages before the second check, by the number of commands served. -/
def early : ℕ → RProg Bool
  | 0 => registerTask t
  | 1 => registerHash t
  | 2 => afterHash t
  | _ => registerIndices t

/-- The stages after the write of the publisher key. -/
inductive Late : RProg Bool → Prop
  | pub : Late (afterPub t)
  | member : Late (afterMember t)
  | indices : Late (registerTimestamp t)
  | clock {now : ℤ} (h : Reasonable (ms now)) : Late (afterClock t now)
  | done : Late (.ret true)

/-- What the call does with the publisher it finds. -/
def onFound (found : Option StreamTask) : RProg Bool :=
  match found with
  | none => registerHash t
  | some existing_pub =>
    if existing_pub.client_id ≠ t.client_id then .ret false
    else do
      let _ ← deregisterTask t.stream_name t.client_id
      registerHash t

variable {t} (w : World)

theorem next_registerTask (hp : t.type = .PUBLISHER) :
    (registerTask t).next handle w =
      some (onFound t (readPublisher (w.fieldsAt (buildPublisherKey t.stream_name))), w) := by
  rw [registerTask, if_pos hp]
  rfl

theorem next_registerHash :
    (registerHash t).next handle w = some (afterHash t, w.hset t.key (serializeTask t)) := rfl

theorem next_afterHash :
    (afterHash t).next handle w = some
      (if (w.hashes t.key).isSome then registerIndices t else (do let _ ← keyDel t.key; return false),
        w.expire t.key TASK_TTL_SEC) := rfl

theorem next_registerIndices (hp : t.type = .PUBLISHER) :
    (registerIndices t).next handle w = some
      (if (readTask (w.fieldsAt (buildPublisherKey t.stream_name))).any
          fun p => p.client_id ≠ t.client_id then rollBack t else afterCheck t, w) := by
  unfold registerIndices
  rw [if_pos hp]
  simp only [registerPublisherIndices, getTaskByKey, hashGetAll, ask, Prog.call_bind, Prog.ret_bind,
    Prog.pure_eq, Prog.next_call]
  congr 2
  split <;> rename_i h
  · exact (if_pos h).symm
  · exact (if_neg h).symm

theorem next_afterCheck :
    (afterCheck t).next handle w =
      some (afterPub t, w.hset (buildPublisherKey t.stream_name) (serializeTask t)) := rfl

theorem next_afterPub :
    (afterPub t).next handle w = some (afterMember t,
      w.setSet (memberKey t.stream_name) ((w.sets (memberKey t.stream_name)).add t.client_id)) := rfl

theorem next_afterMember :
    (afterMember t).next handle w = some (registerTimestamp t,
      w.setSet buildActivePublishersKey ((w.sets buildActivePublishersKey).add t.stream_name)) := rfl

theorem next_registerTimestamp :
    (registerTimestamp t).next handle w =
      some (if Reasonable (ms w.clock) then afterClock t w.clock else rollBack t, w) := by
  simp only [registerTimestamp, systemClock, Prog.exec_bind, Prog.next_exec]
  congr 2
  show (if ¬ Reasonable (ms w.clock) then rollBack t else afterClock t w.clock) = _
  split <;> simp_all

theorem next_afterClock (now : ℤ) :
    (afterClock t now).next handle w = some (.ret true, w.setZset buildTaskTimestampZSetKey
      ((w.zsets buildTaskTimestampZSetKey).add t.key (ms now))) := rfl

/-- The publisher key of a stream as it is after `t` took the free stream. -/
def Holds (w : World) (t : StreamTask) : Prop :=
  w.hashes (buildPublisherKey t.stream_name) = some ⟨serializeTask t, none⟩

/-- No publisher key. -/
def Free (w : World) (stream_name : String) : Prop := w.hashes (buildPublisherKey stream_name) = none

theorem readPublisher_of_holds {w : World} (h : Holds w t) (hr : t.Readable) :
    readPublisher (w.fieldsAt (buildPublisherKey t.stream_name)) = some t.stored := by
  have : w.fieldsAt (buildPublisherKey t.stream_name) = some (serializeTask t) := by
    rw [World.fieldsAt, h]; rfl
  rw [this]
  show (if some "1" = some "1" then deserializeTask (serializeTask t) else none) = _
  rw [if_pos rfl, deserialize_serialize, if_pos hr]

theorem readTask_of_holds {w : World} (h : Holds w t) (hr : t.Readable) :
    readTask (w.fieldsAt (buildPublisherKey t.stream_name)) = some t.stored := by
  have : w.fieldsAt (buildPublisherKey t.stream_name) = some (serializeTask t) := by
    rw [World.fieldsAt, h]; rfl
  rw [this]
  show deserializeTask (serializeTask t) = _
  rw [deserialize_serialize, if_pos hr]

theorem fieldsAt_of_free {w : World} {s : String} (h : Free w s) :
    w.fieldsAt (buildPublisherKey s) = none := by rw [World.fieldsAt, h]; rfl

theorem taskKey_ne_pub (s c s' : String) : buildPublisherKey s' ≠ buildTaskKey s c := nofun

/-- The publisher key is nobody's, or that of another client whose task can be read. -/
def Foreign (w : World) (t : StreamTask) : Prop :=
  Free w t.stream_name ∨
    ∃ u, Holds w u ∧ u.stream_name = t.stream_name ∧ u.client_id ≠ t.client_id ∧ u.Readable

/-- A command before the second check leaves the publisher key alone.  The call loses, or goes on
to its next stage; it passes the second check only if the stream is free. -/
theorem early_step (hp : t.type = .PUBLISHER) {w w' : World} {q : RProg Bool} {n : ℕ} (hn : n < 4)
    (hcell : Foreign w t) (h : (early t n).next handle w = some (q, w')) :
    w'.hashes (buildPublisherKey t.stream_name) = w.hashes (buildPublisherKey t.stream_name) ∧
      (q.Leaves (· = false) ∨ (n < 3 ∧ q = early t (n + 1)) ∨
        (n = 3 ∧ Free w t.stream_name ∧ q = afterCheck t)) := by
  have hkey := taskKey_ne_pub t.stream_name t.client_id t.stream_name
  match n, hn with
  | 0, _ =>
    rw [early, next_registerTask w hp] at h
    obtain ⟨rfl, rfl⟩ := Prod.mk.inj (Option.some.inj h)
    refine ⟨rfl, ?_⟩
    rcases hcell with hf | ⟨u, hu, hus, huc, hur⟩
    · rw [fieldsAt_of_free hf]
      exact .inr (.inl ⟨by omega, rfl⟩)
    · rw [← hus, readPublisher_of_holds hu hur]
      left
      show (if u.client_id ≠ t.client_id then Prog.ret false else _ : RProg Bool).Leaves (· = false)
      rw [if_pos huc]
      rfl
  | 1, _ =>
    rw [early, next_registerHash] at h
    obtain ⟨rfl, rfl⟩ := Prod.mk.inj (Option.some.inj h)
    exact ⟨World.hset_of_ne _ _ _ _ hkey, .inr (.inl ⟨by omega, rfl⟩)⟩
  | 2, _ =>
    rw [early, next_afterHash] at h
    obtain ⟨rfl, rfl⟩ := Prod.mk.inj (Option.some.inj h)
    refine ⟨World.expire_of_ne _ _ _ _ hkey, ?_⟩
    split
    · exact .inr (.inl ⟨by omega, rfl⟩)
    · exact .inl fun _ => rfl
  | 3, _ =>
    rw [show early t 3 = registerIndices t from rfl, next_registerIndices w hp] at h
    obtain ⟨rfl, rfl⟩ := Prod.mk.inj (Option.some.inj h)
    refine ⟨rfl, ?_⟩
    rcases hcell with hf | ⟨u, hu, hus, huc, hur⟩
    · rw [fieldsAt_of_free hf]
      exact .inr (.inr ⟨rfl, hf, rfl⟩)
    · rw [← hus, readTask_of_holds hu hur]
      left
      have hany : (some u.stored).any (fun p => decide (p.client_id ≠ t.client_id)) = true :=
        decide_eq_true huc
      rw [if_pos hany]
      exact rollBack_leaves t

theorem early_ne_ret (hp : t.type = .PUBLISHER) (n : ℕ) (b : Bool) : early t n ≠ .ret b := by
  match n with
  | 0 => rw [early, registerTask, if_pos hp]; exact nofun
  | 1 => exact nofun
  | 2 => exact nofun
  | n + 3 =>
    rw [show early t (n + 3) = registerIndices t from rfl, registerIndices, if_pos hp]
    exact nofun

/-- A command after the write leaves every hash alone. -/
theorem late_step {w w' : World} {p q : RProg Bool} (hl : Late t p)
    (h : p.next handle w = some (q, w')) :
    w'.hashes = w.hashes ∧ w'.clock = w.clock ∧
      (Late t q ∨ (¬ Reasonable (ms w.clock) ∧ q.Leaves (· = false))) := by
  cases hl with
  | pub =>
    rw [next_afterPub] at h
    obtain ⟨rfl, rfl⟩ := Prod.mk.inj (Option.some.inj h)
    exact ⟨rfl, rfl, .inl .member⟩
  | member =>
    rw [next_afterMember] at h
    obtain ⟨rfl, rfl⟩ := Prod.mk.inj (Option.some.inj h)
    exact ⟨rfl, rfl, .inl .indices⟩
  | indices =>
    rw [next_registerTimestamp] at h
    obtain ⟨rfl, rfl⟩ := Prod.mk.inj (Option.some.inj h)
    refine ⟨rfl, rfl, ?_⟩
    split <;> rename_i hc
    · exact .inl (.clock hc)
    · exact .inr ⟨hc, rollBack_leaves t⟩
  | clock hc =>
    rw [next_afterClock] at h
    obtain ⟨rfl, rfl⟩ := Prod.mk.inj (Option.some.inj h)
    exact ⟨rfl, rfl, .inl .done⟩
  | done => simp at h

/-- The write takes a free stream. -/
theorem afterCheck_step {w w' : World} {q : RProg Bool} (hf : Free w t.stream_name)
    (h : (afterCheck t).next handle w = some (q, w')) : q = afterPub t ∧ Holds w' t := by
  rw [next_afterCheck] at h
  obtain ⟨rfl, rfl⟩ := Prod.mk.inj (Option.some.inj h)
  refine ⟨rfl, ?_⟩
  have hover : (serializeTask t).over (fun _ => none) = serializeTask t := by
    funext f
    cases f <;> rfl
  rw [Holds, World.hset_self, fieldsAt_of_free hf, show w.hashes _ = none from hf, Option.getD_none, hover]
  rfl

/-- Time does not touch a publisher key. -/
theorem free_advance {w : World} {s : String} (h : Free w s) (x : ℤ) : Free (advance x w) s := by
  unfold advance
  split
  · show Option.filter _ _ = none
    rw [show w.hashes (buildPublisherKey s) = none from h]; rfl
  · exact h

theorem holds_advance {w : World} (h : Holds w t) (x : ℤ) : Holds (advance x w) t := by
  unfold advance
  split
  · show Option.filter _ _ = _
    rw [show w.hashes (buildPublisherKey t.stream_name) = _ from h]; rfl
  · exact h

end Stages

/-! ### The race -/

/-- The two callers. -/
inductive Caller where
  | c | d
  deriving DecidableEq

def Caller.other : Caller → Caller
  | .c => .d
  | .d => .c

/-- The two calls before their first command. -/
def race (w : World) (task : Caller → StreamTask) : Conf iface World Caller Bool :=
  ⟨w, fun i => registerTask (task i)⟩

/-- At some moment both calls have made their second check, the fourth command of a call, and
neither has written the publisher key, its fifth command. -/
def Overlap (es : List (Ev Caller ℤ)) : Prop :=
  ∃ past, past <+: es ∧ served .c past = 4 ∧ served .d past = 4

/-- Both calls have returned `true`. -/
def BothSucceed (fin : Conf iface World Caller Bool) : Prop :=
  (fin.thr .c).result = some true ∧ (fin.thr .d).result = some true

instance (fin : Conf iface World Caller Bool) : Decidable (BothSucceed fin) :=
  inferInstanceAs (Decidable (_ ∧ _))

theorem BothSucceed.result {fin : Conf iface World Caller Bool} (h : BothSucceed fin) (i : Caller) :
    (fin.thr i).result = some true := by
  cases i
  · exact h.1
  · exact h.2

/-- Where a call is: before the second check, between check and write, or after the write. -/
inductive Phase where
  | pre | mid | post
  deriving DecidableEq

/-- What is left of a call that has sent `n` commands and is in a phase. -/
def At (t : StreamTask) (p : RProg Bool) (n : ℕ) : Phase → Prop
  | .pre => n < 4 ∧ p = early t n
  | .mid => n = 4 ∧ p = afterCheck t
  | .post => Late t p

/-- A race in which nobody has lost: nobody has written and somebody is still before the second
check, or one has written and the other is still before the second check. -/
def Orderly (task : Caller → StreamTask) (s : String) (past : List (Ev Caller ℤ))
    (cf : Conf iface World Caller Bool) : Prop :=
  ∃ φ : Caller → Phase, (∀ i, At (task i) (cf.thr i) (served i past) (φ i)) ∧
    ((Free cf.st s ∧ (∀ i, φ i ≠ .post) ∧ ∃ i, φ i = .pre) ∨
      ∃ i, φ i = .post ∧ φ i.other = .pre ∧ Holds cf.st (task i))

/-- A call that is bound to return `false`. -/
def Lost (cf : Conf iface World Caller Bool) : Prop := ∃ i, (cf.thr i).Leaves (· = false)

theorem Lost.step {cf cf' : Conf iface World Caller Bool} (h : Lost cf) {e : Ev Caller ℤ}
    (he : ∀ i, e ≠ .fail i) (hs : cf.step machine e = some cf') : Lost cf' := by
  obtain ⟨i, hi⟩ := h
  refine ⟨i, ?_⟩
  cases e with
  | run j =>
    obtain ⟨q, w', hq, rfl⟩ := Conf.step_run.1 hs
    by_cases hij : i = j
    · subst hij
      simpa using hi.next hq
    · simpa [Function.update_of_ne hij] using hi
  | fail j => exact absurd rfl (he j)
  | env x =>
    obtain rfl := Option.some.inj hs
    exact hi

section Race

variable {task : Caller → StreamTask} {s : String}

theorem Caller.eq_or_other (i j : Caller) : j = i ∨ j = i.other := by
  cases i <;> cases j <;> simp [Caller.other]

theorem Caller.other_ne (i : Caller) : i.other ≠ i := by cases i <;> simp [Caller.other]

theorem Caller.other_other (i : Caller) : i.other.other = i := by cases i <;> rfl

/-- The phases that an orderly race allows over a store. -/
def Course (task : Caller → StreamTask) (s : String) (w : World) (φ : Caller → Phase) : Prop :=
  (Free w s ∧ (∀ i, φ i ≠ .post) ∧ ∃ i, φ i = .pre) ∨ ∃ i, φ i = .post ∧ φ i.other = .pre ∧ Holds w (task i)

section Course

variable {w w' : World} {φ : Caller → Phase} {i : Caller}

theorem Course.congr (h : Course task s w φ) (hs : ∀ i, (task i).stream_name = s)
    (hcell : w'.hashes (buildPublisherKey s) = w.hashes (buildPublisherKey s)) : Course task s w' φ := by
  rcases h with ⟨hf, hnp, hpre⟩ | ⟨j, hj, hjo, hh⟩
  · exact .inl ⟨by rw [Free, hcell]; exact hf, hnp, hpre⟩
  · exact .inr ⟨j, hj, hjo, by rw [Holds, hs, hcell, ← hs j]; exact hh⟩

/-- Only the other call can have written while `i` has not. -/
theorem Course.post_eq {j : Caller} (hi : φ i ≠ .post) (hj : φ j = .post) : j = i.other :=
  (Caller.eq_or_other i j).resolve_left fun e => hi (e ▸ hj)

/-- What thread `i` finds at the publisher key while it is before its second check. -/
theorem Course.foreign (h : Course task s w φ) (hs : ∀ i, (task i).stream_name = s)
    (hne : (task .c).client_id ≠ (task .d).client_id) (hr : ∀ i, (task i).Readable) (hi : φ i = .pre) :
    Foreign w (task i) := by
  rcases h with ⟨hf, -, -⟩ | ⟨j, hj, -, hh⟩
  · exact .inl (by rw [hs i]; exact hf)
  · have hij : i ≠ j := by rintro rfl; rw [hi] at hj; cases hj
    refine .inr ⟨task j, hh, by rw [hs, hs], ?_, hr j⟩
    cases i <;> cases j <;> first | exact absurd rfl hij | exact hne | exact hne.symm

/-- A call between its check and its write is alone there. -/
theorem Course.of_mid (h : Course task s w φ) (hi : φ i = .mid) : Free w s ∧ φ i.other = .pre := by
  have hpre : φ i ≠ .pre := by rw [hi]; exact Phase.noConfusion
  rcases h with ⟨hf, -, j, hj⟩ | ⟨j, hj, hjo, -⟩
  · have hij : j = i.other := (Caller.eq_or_other i j).resolve_left fun e => hpre (e ▸ hj)
    exact ⟨hf, hij ▸ hj⟩
  · have hij : j = i.other := Course.post_eq (by rw [hi]; exact Phase.noConfusion) hj
    rw [hij, Caller.other_other] at hjo
    exact absurd hjo hpre

/-- A second check that passes finds the stream free, so the other call has not written; it is not between its
check and its write either, if the two are never there together. -/
theorem Course.other_pre (h : Course task s w φ) (hs : ∀ i, (task i).stream_name = s)
    (hfree : Free w s) (hmid : φ i.other ≠ .mid) : φ i.other = .pre := by
  cases hφo : φ i.other with
  | pre => rfl
  | mid => exact absurd hφo hmid
  | post =>
    rcases h with ⟨-, hnp, -⟩ | ⟨j, hj, hjo, hh⟩
    · exact absurd hφo (hnp _)
    · rw [Holds, hs, show w.hashes (buildPublisherKey s) = none from hfree] at hh
      cases hh

/-- The call `i` goes from its check to its write. -/
theorem Course.to_mid (hfree : Free w s) (ho : φ i.other = .pre) : Course task s w (Function.update φ i .mid) := by
  refine .inl ⟨hfree, fun j => ?_, i.other, ?_⟩
  · rcases Caller.eq_or_other i j with rfl | rfl
    · rw [Function.update_self]
      exact Phase.noConfusion
    · rw [Function.update_of_ne (Caller.other_ne i), ho]
      exact Phase.noConfusion
  · rw [Function.update_of_ne (Caller.other_ne i), ho]

end Course

/-- One thread has moved to the phase `ψ`, the other stays where it is. -/
theorem At.move {past : List (Ev Caller ℤ)} {thr : Caller → RProg Bool} {φ : Caller → Phase} {i : Caller}
    {q : RProg Bool} {ψ : Phase} (hat : ∀ j, At (task j) (thr j) (served j past) (φ j))
    (hψ : At (task i) q (served i past + 1) ψ) (j : Caller) :
    At (task j) (Function.update thr i q j) (served j (past ++ [Ev.run i])) (Function.update φ i ψ j) := by
  rw [served_append_run]
  by_cases hij : j = i
  · subst hij
    simpa using hψ
  · have : i ≠ j := fun e => hij e.symm
    simpa [Function.update_of_ne hij, this] using hat j

variable (hp : ∀ i, (task i).type = .PUBLISHER) (hs : ∀ i, (task i).stream_name = s)
  (hne : (task .c).client_id ≠ (task .d).client_id) (hr : ∀ i, (task i).Readable)

include hp hs hne hr in
/-- **One command of an orderly race.**  The race stays orderly, or somebody loses, unless the
command is a second check that passes while the other call is between check and write. -/
theorem Orderly.run {past : List (Ev Caller ℤ)} {cf cf' : Conf iface World Caller Bool} {i : Caller}
    (h : Orderly task s past cf) (hstep : cf.step machine (.run i) = some cf')
    (hapart : ¬ (served .c (past ++ [Ev.run i]) = 4 ∧ served .d (past ++ [Ev.run i]) = 4)) :
    Orderly task s (past ++ [.run i]) cf' ∨ Lost cf' := by
  obtain ⟨φ, hat, (hst : Course task s cf.st φ)⟩ := h
  obtain ⟨q, w', hq, rfl⟩ := Conf.step_run.1 hstep
  have hlost : q.Leaves (· = false) → Lost (⟨w', Function.update cf.thr i q⟩ : Conf _ _ _ _) :=
    fun hl => ⟨i, by simpa using hl⟩
  have hati := hat i
  cases hφ : φ i with
  | pre =>
    rw [hφ] at hati
    obtain ⟨hn, hpi⟩ := hati
    rw [hpi] at hq
    obtain ⟨hcell, hcase⟩ := early_step (hp i) hn (hst.foreign hs hne hr hφ) hq
    rw [hs i] at hcell
    have hst' := hst.congr hs hcell
    rcases hcase with hl | ⟨hn3, rfl⟩ | ⟨hn3, hf, rfl⟩
    · exact .inr (hlost hl)
    · left
      refine ⟨_, At.move hat (ψ := .pre) ⟨by omega, rfl⟩, ?_⟩
      have hupd : Function.update φ i .pre = φ := by rw [← hφ]; exact Function.update_eq_self i φ
      rw [hupd]
      exact hst'
    · left
      rw [hs i] at hf
      have hmid : φ i.other ≠ .mid := by
        intro hφo
        have hato := hat i.other
        rw [hφo] at hato
        apply hapart
        rw [served_append_run, served_append_run]
        have h4 := hato.1
        cases i <;> simp [Caller.other] at h4 ⊢ <;> omega
      have hf' : Free w' s := by rw [Free, hcell]; exact hf
      exact ⟨_, At.move hat (ψ := .mid) ⟨by omega, rfl⟩, Course.to_mid hf' (hst.other_pre hs hf hmid)⟩
  | mid =>
    rw [hφ] at hati
    obtain ⟨hn, hpi⟩ := hati
    rw [hpi] at hq
    obtain ⟨hfree, ho⟩ := hst.of_mid hφ
    obtain ⟨rfl, hh⟩ := afterCheck_step (by rw [hs i]; exact hfree) hq
    left
    refine ⟨_, At.move hat (ψ := .post) .pub, .inr ⟨i, Function.update_self .., ?_, hh⟩⟩
    rw [Function.update_of_ne (Caller.other_ne i), ho]
  | post =>
    rw [hφ] at hati
    obtain ⟨hh, -, hcase⟩ := late_step hati hq
    rcases hcase with hl | ⟨-, hl⟩
    · left
      refine ⟨_, At.move hat (ψ := .post) hl, ?_⟩
      have hupd : Function.update φ i .post = φ := by rw [← hφ]; exact Function.update_eq_self i φ
      rw [hupd]
      exact hst.congr hs (by rw [hh])
    · exact .inr (hlost hl)

/-- Time passes in an orderly race. -/
theorem Orderly.env {past : List (Ev Caller ℤ)} {cf : Conf iface World Caller Bool} (x : ℤ)
    (h : Orderly task s past cf) :
    Orderly task s (past ++ [.env x]) ⟨advance x cf.st, cf.thr⟩ := by
  obtain ⟨φ, hat, hst⟩ := h
  refine ⟨φ, fun i => ?_, ?_⟩
  · rw [served_append_env]
    exact hat i
  · rcases hst with ⟨hf, hnp, hpre⟩ | ⟨j, hj, hjo, hh⟩
    · exact .inl ⟨free_advance hf x, hnp, hpre⟩
    · exact .inr ⟨j, hj, hjo, holds_advance hh x⟩

include hp hs hne hr in
/-- **Two calls whose checks and writes do not overlap do not both succeed.** -/
theorem not_both_of_apart {w : World} (hfree : Free w s) {es : List (Ev Caller ℤ)} (hok : NoErrors es)
    {fin : Conf iface World Caller Bool} (hrun : (race w task).exec machine es = some fin)
    (hapart : ¬ Overlap es) : ¬ BothSucceed fin := by
  have hinv : Orderly task s es fin ∨ Lost fin := by
    refine Conf.exec_induction (fun past cf => Orderly task s past cf ∨ Lost cf) ?_ ?_ hrun
    · exact .inl ⟨fun _ => .pre, fun i => ⟨by simp, rfl⟩, .inl ⟨hfree, by simp, .c, rfl⟩⟩
    · intro past e cf cf' hpre _ hinv hstep
      have hmem : e ∈ es := hpre.subset (by simp)
      have hnofail : ∀ i, e ≠ .fail i := fun i he => hok i (he ▸ hmem)
      rcases hinv with ho | hl
      · cases e with
        | run i => exact ho.run hp hs hne hr hstep fun h4 => hapart ⟨_, hpre, h4⟩
        | fail i => exact absurd rfl (hnofail i)
        | env x =>
          obtain rfl := Option.some.inj hstep
          exact .inl (ho.env x)
      · exact .inr (hl.step hnofail hstep)
  intro hboth
  have hret : ∀ i, fin.thr i = .ret true := fun i => Prog.result_eq_some.1 (hboth.result i)
  rcases hinv with ⟨φ, hat, hst⟩ | ⟨i, hl⟩
  · -- a call that has returned is after its write
    have hpost : ∀ i, φ i = .post := by
      intro i
      have := hat i
      rw [hret i] at this
      cases hφ : φ i with
      | pre =>
        rw [hφ] at this
        exact absurd this.2.symm (early_ne_ret (hp i) _ _)
      | mid => rw [hφ] at this; cases this.2
      | post => rfl
    rcases hst with ⟨-, hnp, -⟩ | ⟨j, -, hjo, -⟩
    · exact hnp .c (hpost .c)
    · rw [hpost] at hjo; cases hjo
  · rw [hret i] at hl
    exact Bool.noConfusion hl

end Race

/-! ### Two overlapping calls -/

/-- On a free stream nothing stops a call before its write: the next command of each early stage
leads to the next stage. -/
theorem early_next_free {t : StreamTask} (hp : t.type = .PUBLISHER) {w : World} {n : ℕ} (hn : n < 4)
    (hf : Free w t.stream_name) (hhash : n = 2 → (w.hashes t.key).isSome) :
    ∃ w', (early t n).next handle w = some (if n < 3 then early t (n + 1) else afterCheck t, w') ∧
      w'.clock = w.clock ∧ Free w' t.stream_name ∧ (∀ k, (w.hashes k).isSome → (w'.hashes k).isSome) ∧
      (n = 1 → (w'.hashes t.key).isSome) := by
  have hkey : buildPublisherKey t.stream_name ≠ t.key := nofun
  match n, hn with
  | 0, _ =>
    refine ⟨w, ?_, rfl, hf, fun _ => id, nofun⟩
    rw [early, next_registerTask w hp, fieldsAt_of_free hf]
    rfl
  | 1, _ =>
    refine ⟨_, next_registerHash w, rfl, ?_, ?_, ?_⟩
    · rw [Free, World.hset_of_ne _ _ _ _ hkey]; exact hf
    · intro k hk
      by_cases h : k = t.key
      · rw [h, World.hset_self]; rfl
      · rw [World.hset_of_ne _ _ _ _ h]; exact hk
    · intro _
      rw [World.hset_self]; rfl
  | 2, _ =>
    refine ⟨w.expire t.key TASK_TTL_SEC, ?_, rfl, ?_, ?_, nofun⟩
    · rw [early, next_afterHash, if_pos (hhash rfl)]
      rfl
    · rw [Free, World.expire_of_ne _ _ _ _ hkey]; exact hf
    · intro k hk
      by_cases h : k = t.key
      · rw [h, World.expire_self, Option.isSome_map, ← h]; exact hk
      · rw [World.expire_of_ne _ _ _ _ h]; exact hk
  | 3, _ =>
    refine ⟨w, ?_, rfl, hf, fun _ => id, nofun⟩
    rw [show early t 3 = registerIndices t from rfl, next_registerIndices w hp, fieldsAt_of_free hf]
    rfl

/-- Nobody has written: both calls are where the number of their commands says. -/
structure Abreast (task : Caller → StreamTask) (s : String) (clock : ℤ) (past : List (Ev Caller ℤ))
    (cf : Conf iface World Caller Bool) : Prop where
  clock : cf.st.clock = clock
  free : Free cf.st s
  thr : ∀ i, cf.thr i = if served i past < 4 then early (task i) (served i past) else afterCheck (task i)
  hash : ∀ i, served i past = 2 → (cf.st.hashes (task i).key).isSome

/-- Both calls are past their second check, and nobody can lose any more. -/
def Bound (task : Caller → StreamTask) (cf : Conf iface World Caller Bool) : Prop :=
  Reasonable (ms cf.st.clock) ∧ ∀ i, cf.thr i = afterCheck (task i) ∨ Late (task i) (cf.thr i)

section Overlap

variable {task : Caller → StreamTask} {s : String}

/-- One command while nobody has written. -/
theorem Abreast.run (hp : ∀ i, (task i).type = .PUBLISHER) (hs : ∀ i, (task i).stream_name = s)
    {clock : ℤ} {past : List (Ev Caller ℤ)} {cf cf' : Conf iface World Caller Bool}
    {i : Caller} (h : Abreast task s clock past cf) (hstep : cf.step machine (.run i) = some cf')
    (h4 : served i past < 4) : Abreast task s clock (past ++ [.run i]) cf' := by
  obtain ⟨q, w', hq, rfl⟩ := Conf.step_run.1 hstep
  have hthr := h.thr i
  rw [if_pos h4] at hthr
  obtain ⟨w'', hnext, hclock, hfree, hmore, hhash⟩ :=
    early_next_free (hp i) h4 (by rw [hs i]; exact h.free) (h.hash i)
  rw [hthr, show machine.handle = handle from rfl, hnext] at hq
  obtain ⟨rfl, rfl⟩ := Prod.mk.inj (Option.some.inj hq)
  refine ⟨hclock.trans h.clock, by rw [hs i] at hfree; exact hfree, ?_, ?_⟩
  · intro j
    rw [served_append_run]
    by_cases hij : j = i
    · subst hij
      simp only [Function.update_self, if_true]
      by_cases h3 : served j past < 3
      · rw [if_pos h3, if_pos (by omega)]
      · rw [if_neg h3, if_neg (by omega)]
    · have hji : i ≠ j := fun e => hij e.symm
      simpa [Function.update_of_ne hij, hji] using h.thr j
  · intro j hj
    rw [served_append_run] at hj
    by_cases hij : i = j
    · subst hij
      exact hhash (by simpa using hj)
    · exact hmore _ (h.hash j (by simpa [hij] using hj))

theorem Bound.run {cf cf' : Conf iface World Caller Bool} {i : Caller} (h : Bound task cf)
    (hstep : cf.step machine (.run i) = some cf') : Bound task cf' := by
  obtain ⟨hc, hthr⟩ := h
  obtain ⟨q, w', hq, rfl⟩ := Conf.step_run.1 hstep
  have hi : w'.clock = cf.st.clock ∧ Late (task i) q := by
    rcases hthr i with h | h
    · rw [h, show machine.handle = handle from rfl, next_afterCheck] at hq
      obtain ⟨rfl, rfl⟩ := Prod.mk.inj (Option.some.inj hq)
      exact ⟨rfl, .pub⟩
    · obtain ⟨-, hclock, hl | ⟨hn, -⟩⟩ := late_step h hq
      · exact ⟨hclock, hl⟩
      · exact absurd hc hn
  refine ⟨hi.1 ▸ hc, fun j => ?_⟩
  by_cases hij : j = i
  · subst hij
    simpa using .inr hi.2
  · simpa [Function.update_of_ne hij] using hthr j

/-- A schedule of commands alone: nothing fails and no time passes. -/
def OnlyRuns (es : List (Ev Caller ℤ)) : Prop := ∀ e ∈ es, ∃ i, e = Ev.run i

theorem served_le_of_prefix {past es : List (Ev Caller ℤ)} (h : past <+: es) (i : Caller) :
    served i past ≤ served i es := h.sublist.count_le _

/-- A call past its second check in an overlap returns `true` if it returns. -/
theorem true_of_overlap (hp : ∀ i, (task i).type = .PUBLISHER) (hs : ∀ i, (task i).stream_name = s)
    {w : World} (hfree : Free w s) (hc : Reasonable (ms w.clock)) {es : List (Ev Caller ℤ)}
    (hes : OnlyRuns es) {fin : Conf iface World Caller Bool}
    (hrun : (race w task).exec machine es = some fin) (ho : Overlap es) (i : Caller) {b : Bool}
    (hb : (fin.thr i).result = some b) : (fin.thr i).result = some true := by
  obtain ⟨past, ⟨rest, rfl⟩, hserved⟩ := ho
  obtain ⟨mid, hmid, hrest⟩ := Conf.exec_append_eq_some.1 hrun
  have h4 : ∀ i, served i past = 4 := fun i => by cases i <;> simp [hserved]
  have hab : Abreast task s w.clock past mid := by
    have hnone : ∀ i : Caller, served i ([] : List (Ev Caller ℤ)) ≠ 2 := by
      intro i
      rw [served_nil]
      decide
    refine Conf.exec_induction (Abreast task s w.clock)
      ⟨rfl, hfree, fun i => rfl, fun i h => absurd h (hnone i)⟩ ?_ hmid
    intro p e cf cf' hpre _ hinv hstep
    obtain ⟨j, rfl⟩ := hes e (List.mem_append_left _ (hpre.subset (by simp)))
    apply hinv.run hp hs hstep
    have := served_le_of_prefix hpre j
    rw [served_append_run, if_pos rfl, h4] at this
    omega
  have hbound : Bound task fin := by
    refine Conf.exec_invariant (Bound task) ⟨by rw [hab.clock]; exact hc, fun j => .inl ?_⟩ ?_ hrest
    · rw [hab.thr, if_neg (by rw [h4]; omega)]
    · intro e he cf cf' hinv hstep
      obtain ⟨j, rfl⟩ := hes e (List.mem_append_right _ he)
      exact hinv.run hstep
  have hret := Prog.result_eq_some.1 hb
  rcases hbound.2 i with h | h
  · rw [hret] at h; cases h
  · rw [hret] at h ⊢; cases h; rfl

/-- **Publisher mutual exclusion.**  Two clients register for one free stream, with any
interleaving of their commands and any passing of time, and no Redis error.  They do not both
succeed unless the checks and writes of the two calls overlap; and if they do overlap, two
complete calls with no time in between both succeed. -/
theorem registerTask_exclusive (hp : ∀ i, (task i).type = .PUBLISHER)
    (hs : ∀ i, (task i).stream_name = s) (hne : (task .c).client_id ≠ (task .d).client_id)
    (hr : ∀ i, (task i).Readable) {w : World} (hfree : Free w s) {es : List (Ev Caller ℤ)}
    (hok : NoErrors es) {fin : Conf iface World Caller Bool}
    (hrun : (race w task).exec machine es = some fin) :
    (¬ Overlap es → ¬ BothSucceed fin) ∧
      (OnlyRuns es → Reasonable (ms w.clock) → (∀ i, (fin.thr i).result.isSome) →
        (¬ BothSucceed fin ↔ ¬ Overlap es)) := by
  have hapart := not_both_of_apart hp hs hne hr hfree hok hrun
  refine ⟨hapart, fun hes hc hfin => ⟨fun hboth ho => hboth ⟨?_, ?_⟩, hapart⟩⟩
  · obtain ⟨b, hb⟩ := Option.isSome_iff_exists.1 (hfin .c)
    exact true_of_overlap hp hs hfree hc hes hrun ho .c hb
  · obtain ⟨b, hb⟩ := Option.isSome_iff_exists.1 (hfin .d)
    exact true_of_overlap hp hs hfree hc hes hrun ho .d hb

/-- Two publishers of the stream `live`, at the time 1700000000 s. -/
def rivals : Caller → StreamTask
  | .c => { stream_name := "live", client_id := "a", type := .PUBLISHER
            start_time := 1700000000000000000, last_active_time := 1700000000000000000 }
  | .d => { stream_name := "live", client_id := "b", type := .PUBLISHER
            start_time := 1700000000000000000, last_active_time := 1700000000000000000 }

/-- The world before the two calls. -/
def before : World := .initial 1700000000000000000

/-- `n` commands of one caller. -/
def turns (n : ℕ) (i : Caller) : List (Ev Caller ℤ) := List.replicate n (.run i)

theorem turns_noErrors (n : ℕ) (i j : Caller) : Ev.fail j ∉ turns n i := by
  intro h
  cases List.eq_of_mem_replicate h

/-- One call after the other: the second is refused. -/
theorem registerTask_exclusive_in_turn :
    ∃ fin, (race before rivals).exec machine (turns 9 .c ++ turns 1 .d) = some fin ∧
      ¬ BothSucceed fin := by
  have hsome : ((race before rivals).exec machine (turns 9 .c ++ turns 1 .d)).isSome = true := by
    decide +kernel
  refine ⟨_, (Option.some_get hsome).symm, ?_⟩
  have hfree : Free before "live" := rfl
  refine (registerTask_exclusive ?_ ?_ (by decide) ?_ hfree ?_ (Option.some_get hsome).symm).1 ?_
  · rintro (_ | _) <;> rfl
  · rintro (_ | _) <;> rfl
  · rintro (_ | _) <;> decide
  · exact fun i h => (List.mem_append.1 h).elim (turns_noErrors _ _ _) (turns_noErrors _ _ _)
  · rintro ⟨past, hpre, -, hd⟩
    have := served_le_of_prefix hpre .d
    rw [hd] at this
    exact absurd this (by decide)

/-- Four commands of each call, then the rest of each: both succeed. -/
theorem registerTask_both_succeed :
    ∃ fin, (race before rivals).exec machine
        (turns 4 .c ++ turns 4 .d ++ turns 5 .c ++ turns 5 .d) = some fin ∧ BothSucceed fin := by
  have hsome : ((race before rivals).exec machine
      (turns 4 .c ++ turns 4 .d ++ turns 5 .c ++ turns 5 .d)).any (BothSucceed ·) = true := by
    decide +kernel
  obtain ⟨fin, hfin, hboth⟩ := (Option.any_eq_true _ _).1 hsome
  exact ⟨fin, hfin, of_decide_eq_true hboth⟩

end Overlap

end StreamGate.State
