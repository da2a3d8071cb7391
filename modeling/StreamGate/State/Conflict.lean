import StreamGate.State.Race

/-!
# The loser of a conflict

A call that loses after it has written its own hash rolls back through `deregisterTask`, which
deletes the publisher keys by the name of the stream: it takes down the winner.  A call that is
refused by its first check has written nothing and harms nobody (`registerTask_winner_kept`).
-/

namespace StreamGate.State

open StreamGate.Redis StreamGate.Task StreamGate.Lib

/-- The first check of `d` refuses it: when the first command of `d` is served, another client
holds the stream. -/
def Refused (w : World) (task : Caller → StreamTask) (es : List (Ev Caller ℤ)) : Prop :=
  ∃ past rest mid, es = past ++ .run .d :: rest ∧ ¬ Conf.TakesPart .d past ∧
    (race w task).exec machine past = some mid ∧
    ∃ p, readPublisher (mid.st.fieldsAt (buildPublisherKey (task .d).stream_name)) = some p ∧
      p.client_id ≠ (task .d).client_id

/-- The latest time a schedule mentions, in milliseconds. -/
def latest : List (Ev Caller ℤ) → ℤ
  | [] => 0
  | .env x :: es => max (ms x) (latest es)
  | _ :: es => latest es

theorem le_latest {x : ℤ} {es : List (Ev Caller ℤ)} (h : Ev.env x ∈ es) : ms x ≤ latest es := by
  induction es with
  | nil => cases h
  | cons e es ih =>
    rcases List.mem_cons.1 h with rfl | htail
    · exact le_max_left _ _
    · cases e with
      | env y => exact (ih htail).trans (le_max_right _ _)
      | run i => exact ih htail
      | fail i => exact ih htail

section Conflict

variable {task : Caller → StreamTask} {T : ℤ} {Q : Bool → World → Prop}

/-- While `d` sends nothing, or has returned, `c` is alone with the passing of time. -/
theorem exec_wp_alone {cf cf' : Conf iface World Caller Bool} {es : List (Ev Caller ℤ)}
    (hd : Conf.TakesPart .d es → ∃ b, cf.thr .d = .ret b) (hT : ∀ x, Ev.env x ∈ es → ms x ≤ T)
    (hwp : (cf.thr .c).wp handle (SparesTask True (task .c) T) Q cf.st) (hrun : cf.exec machine es = some cf') :
    (cf'.thr .c).wp handle (SparesTask True (task .c) T) Q cf'.st := by
  refine Conf.exec_wp (M := machine) (Spares.refl _ _ _ _) (fun _ _ _ => Spares.trans) ?_ hwp hrun
  intro past e m m' hpre hpast he hstep
  have hin : e ∈ es := hpre.subset (List.mem_append_right _ (List.mem_singleton_self e))
  have hdone : ¬ Conf.EventOf .d e := by
    intro hde
    obtain ⟨b, hb⟩ := hd ⟨e, hin, hde⟩
    have hret : m.thr .d = .ret b := Conf.exec_thr (P := (· = .ret b)) (fun _ _ _ _ h hn => by subst h; cases hn)
      (fun _ _ h hf => by subst h; cases hf) hb hpast
    exact Conf.step_ret hret hde hstep
  cases e with
  | run i => cases i with
    | c => exact absurd (.inl rfl) he
    | d => exact absurd (.inl rfl) hdone
  | fail i => cases i with
    | c => exact absurd (.inr rfl) he
    | d => exact absurd (.inr rfl) hdone
  | env x =>
    obtain rfl := Option.some.inj hstep
    exact Spares.advance _ _ _ (hT x hin) m.st

/-- **A loser that is refused does not harm the winner.**  Two publishers of one stream, in any
interleaving and with any passing of time.  If `c` has returned `true` and `d` was refused by its
first check, the publisher key holds the task of `c` and the stream is listed as active. -/
theorem registerTask_winner_kept (hp : ∀ i, (task i).type = .PUBLISHER) {w : World}
    (hfix : PubFixed (task .c).stream_name w) {es : List (Ev Caller ℤ)}
    {fin : Conf iface World Caller Bool} (hrun : (race w task).exec machine es = some fin)
    (hc : (fin.thr .c).result = some true) (href : Refused w task es) :
    Wrote fin.st (buildPublisherKey (task .c).stream_name) (task .c) ∧
      (task .c).stream_name ∈ fin.st.sets buildActivePublishersKey := by
  obtain ⟨past, rest, mid, rfl, hpast, hmid, p, hpub, hne⟩ := href
  obtain ⟨mid', hmid', hrest⟩ := Conf.exec_append_eq_some.1 hrun
  obtain rfl : mid = mid' := Option.some.inj (hmid.symm.trans hmid')
  obtain ⟨mid₁, hstep, hrest⟩ := Conf.exec_cons_eq_some.1 hrest
  let T := latest (past ++ .run .d :: rest)
  have hT : ∀ x, Ev.env x ∈ past ++ .run .d :: rest → ms x ≤ T := fun x => le_latest
  have hwp := wp_registerTask (A := True) (t := task .c) (T := T) ⟨le_rfl, hfix⟩
  have hmidwp := exec_wp_alone (fun h => absurd h hpast)
    (fun x hx => hT x (List.mem_append_left _ hx)) hwp hmid
  -- `d` has sent nothing yet, and its first command ends the call
  have hthr : mid.thr .d = registerTask (task .d) := Conf.exec_not_takesPart hpast hmid
  obtain ⟨q, w', hq, rfl⟩ := Conf.step_run.1 hstep
  rw [hthr, show machine.handle = handle from rfl, next_registerTask _ (hp .d), hpub] at hq
  obtain ⟨rfl, rfl⟩ := Prod.mk.inj (Option.some.inj hq)
  have hret : onFound (task .d) (some p) = .ret false := if_pos hne
  have hdone : (Function.update mid.thr .d (onFound (task .d) (some p))) .d = .ret false := by
    rw [Function.update_self, hret]
  have hfinwp := exec_wp_alone (fun _ => ⟨false, hdone⟩)
    (fun x hx => hT x (List.mem_append_right _ (List.mem_cons_of_mem _ hx)))
    (by simpa using hmidwp) hrest
  have hst := Conf.wp_result (M := machine) (Spares.refl _ _ _ _) hfinwp hc rfl
  exact ⟨hst.indexed.pub (hp .c), hst.indexed.active trivial (hp .c)⟩

/-- One call after the other: the second is refused and the first stands. -/
theorem registerTask_winner_kept_in_turn :
    ∃ fin, (race before rivals).exec machine (turns 9 .c ++ turns 1 .d) = some fin ∧
      (fin.thr .d).result = some false ∧ Wrote fin.st (buildPublisherKey "live") (rivals .c) ∧
      "live" ∈ fin.st.sets buildActivePublishersKey := by
  have hmid : ((race before rivals).exec machine (turns 9 .c)).any (fun m =>
      (readPublisher (m.st.fieldsAt (buildPublisherKey "live"))).any (·.client_id ≠ "b")) = true := by
    decide +kernel
  obtain ⟨mid, hmid, hp⟩ := (Option.any_eq_true _ _).1 hmid
  obtain ⟨p, hp, hne⟩ := (Option.any_eq_true _ _).1 hp
  have hfin : ((race before rivals).exec machine (turns 9 .c ++ turns 1 .d)).any (fun m =>
      decide ((m.thr .c).result = some true) && decide ((m.thr .d).result = some false)) = true := by
    decide +kernel
  obtain ⟨fin, hfin, hres⟩ := (Option.any_eq_true _ _).1 hfin
  rw [Bool.and_eq_true, decide_eq_true_iff, decide_eq_true_iff] at hres
  refine ⟨fin, hfin, hres.2, ?_⟩
  refine registerTask_winner_kept ?_ ?_ hfin hres.1 ?_
  · rintro (_ | _) <;> rfl
  · exact fun h hh => by cases hh
  · refine ⟨turns 9 .c, [], mid, rfl, ?_, hmid, p, hp, of_decide_eq_true hne⟩
    rintro ⟨e, he, h⟩
    obtain rfl := List.eq_of_mem_replicate he
    rcases h with h | h <;> cases h

/-- `d` makes its first check, `c` registers, and `d` goes on: it loses and takes `c` down. -/
theorem registerTask_winner_lost :
    ∃ fin, (race before rivals).exec machine (turns 1 .d ++ turns 9 .c ++ turns 8 .d) = some fin ∧
      (fin.thr .c).result = some true ∧ (fin.thr .d).result = some false ∧
      fin.st.hashes (buildPublisherKey "live") = none ∧
      ¬ "live" ∈ fin.st.sets buildActivePublishersKey := by
  have hfin : ((race before rivals).exec machine (turns 1 .d ++ turns 9 .c ++ turns 8 .d)).any
      (fun m => decide ((m.thr .c).result = some true) && decide ((m.thr .d).result = some false) &&
        (m.st.hashes (buildPublisherKey "live")).isNone &&
        decide (¬ "live" ∈ m.st.sets buildActivePublishersKey)) = true := by
    decide +kernel
  obtain ⟨fin, hfin, hres⟩ := (Option.any_eq_true _ _).1 hfin
  simp only [Bool.and_eq_true, decide_eq_true_iff, Option.isNone_iff_eq_none] at hres
  exact ⟨fin, hfin, hres.1.1.1, hres.1.1.2, hres.1.2, hres.2⟩

end Conflict

end StreamGate.State
