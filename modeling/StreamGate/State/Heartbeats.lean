import Mathlib.Data.List.Infix
import StreamGate.State.Scanners

/-!
# Heartbeats during a scan

A scan among heartbeats.  It reads the hash of a candidate, decides that the task has expired, and only
then deletes the hash: two commands later.  A heartbeat that writes the hash before it is read saves the
task, and so does the entry that it puts back.  One that writes it after that is lost with the hash
(`live_killed`), and this is the only way in which a live task is deregistered (`no_live_killed`).
-/

namespace StreamGate.State

open StreamGate.Redis StreamGate.Task StreamGate.Lib

/-- The number in the field `last_active_time_ms`. -/
def activity (f : Fields) : Option ℤ := (f .last_active_time_ms).bind Decimal.stoll

/-- The last activity that is stored at a key, in milliseconds. -/
def lastActive (w : World) (k : Key) : Option ℤ := (w.fieldsAt k).bind activity

/-- Whatever activity is stored at the key, it is at least `timeout` before `now`. -/
def Stale (w : World) (now timeout : ℤ) (k : Key) : Prop :=
  ∀ x, lastActive w k = some x → ¬ now - x < timeout

section Stale

variable {w w' : World} {now timeout : ℤ} {k : Key}

theorem Stale.congr (h : Stale w now timeout k) (hk : w'.fieldsAt k = w.fieldsAt k) : Stale w' now timeout k := by
  intro x hx
  rw [lastActive, hk] at hx
  exact h x hx

theorem stale_of_none (hk : w.hashes k = none) : Stale w now timeout k := by
  intro x hx
  rw [lastActive, World.fieldsAt, hk] at hx
  cases hx

theorem Stale.advance (h : Stale w now timeout k) (t : ℤ) : Stale (advance t w) now timeout k := by
  rcases hashes_advance t w k with hk | hk
  · exact stale_of_none hk
  · exact h.congr (by rw [World.fieldsAt, hk, World.fieldsAt])

theorem stale_of_taskAt {t : StreamTask} (ht : taskAt w k = some t)
    (hl : ¬ now - ms t.last_active_time < timeout) : Stale w now timeout k := by
  obtain ⟨x, hx, hd⟩ := taskAt_eq_some ht
  obtain ⟨-, -, -, -, ⟨v, hv, hz⟩, -⟩ := deserialize_some hd
  intro y hy
  rw [lastActive, World.fieldsAt, hx] at hy
  have hy : (x.fields .last_active_time_ms).bind Decimal.stoll = some y := hy
  rw [hv] at hy
  obtain rfl := Option.some.inj (hz.symm.trans hy)
  exact hl

/-- `HSET` of fields whose activity, if they have one, is stale. -/
theorem Stale.hset (h : Stale w now timeout k) {k' : Key} {f : Fields}
    (hf : k' = k → ∀ x, activity f = some x → ¬ now - x < timeout) : Stale (w.hset k' f) now timeout k := by
  by_cases hk : k = k'
  · subst hk
    intro x hx
    rw [lastActive, World.fieldsAt, World.hset_self] at hx
    have hx : activity (f.over ((w.fieldsAt k).getD fun _ => none)) = some x := hx
    unfold activity Fields.over at hx
    cases hfl : f .last_active_time_ms with
    | some v =>
      rw [hfl] at hx
      apply hf rfl x
      rw [activity, hfl]
      exact hx
    | none =>
      rw [hfl] at hx
      apply h x
      unfold lastActive
      cases hw : w.fieldsAt k with
      | none => rw [hw] at hx; cases hx
      | some g =>
        rw [hw] at hx
        exact hx
  · exact h.congr (by rw [World.fieldsAt, World.hset_of_ne _ _ _ _ hk, World.fieldsAt])

/-- A command that keeps stores sound brings no activity, unless it is an `HSET`. -/
theorem Stale.after {body : String} (h : Stale w now timeout (.task body)) {c : Cmd} (hc : Proper c)
    (hset : ∀ f, c = .hset (.task body) f → ∀ x, activity f = some x → ¬ now - x < timeout) :
    Stale (handle c w).2 now timeout (.task body) := by
  cases c with
  | hset k f => exact h.hset fun hk => hset f (hk ▸ rfl)
  | hincrby k f n =>
    obtain rfl : k = buildGlobalPlayerCountKey := hc
    exact h.hset fun hk => by cases hk
  | expire k n =>
    apply h.congr
    rw [after_expire, World.fieldsAt, World.expire_apply, World.fieldsAt]
    split
    · rename_i hk
      rw [Option.map_map, hk]
      rfl
    · rfl
  | del k =>
    by_cases hk : Key.task body = k
    · exact stale_of_none (by rw [after_del, hk, World.del_hashes_self])
    · exact h.congr (by rw [after_del, World.fieldsAt, World.del_hashes_of_ne _ _ _ hk, World.fieldsAt])
  | _ => exact h.congr rfl

end Stale

/-! ### The scan -/

namespace Stage

/-- The clock of the scan is `now`. -/
def Reads : Stage → ℤ → Prop
  | start => fun _ => False
  | range now' => fun now => now' = now
  | loop p | look _ p | back _ _ p | again _ p | stamp _ p | drop _ _ p | rest _ _ p => fun now => p.now = now

/-- The scan is going to delete the hash of a task: what is left of it says so. -/
theorem head_del {timeout : ℤ} {σ : Stage} {body : String} (hσ : (∀ t p, σ ≠ stamp t p) → σ.Tame)
    (hh : (σ.prog timeout).head = some (.del (.task body))) : σ.Condemns (.task body) := by
  cases σ with
  | drop t type p =>
    cases type with
    | PLAYER => exact (Cmd.del.inj (Option.some.inj hh)).symm
    | PUBLISHER => exact (Cmd.del.inj (Option.some.inj hh)).symm
  | rest c cs p =>
    obtain rfl := Option.some.inj hh
    obtain ⟨s, hs⟩ := hσ (fun _ _ e => by cases e) _ List.mem_cons_self
    cases hs
  | loop p =>
    obtain ⟨now, keys, found⟩ := p
    cases keys with
    | nil => cases hh
    | cons k keys =>
      rw [prog_loop_cons] at hh
      cases hh
  | _ => cases hh

end Stage

/-- A scan with the clock `now` at a stage: a task that it is going to deregister is stale. -/
structure Watched (now timeout : ℤ) (w : World) (σ : Stage) : Prop where
  reads : σ.Reads now
  task : ∀ k, σ.Holds k → ∃ body, k = .task body
  stale : ∀ k, σ.Condemns k → Stale w now timeout k
  tame : (∀ t p, σ ≠ .stamp t p) → σ.Tame

namespace Watched

variable {w w' : World} {now timeout : ℤ} {σ τ : Stage}

/-- **One command of the scan.** -/
theorem step (h : Watched now timeout w σ) (hw : Sound w) (hs : Stage.Step timeout w σ τ w') :
    Watched now timeout w' τ := by
  cases hs with
  | start => exact h.reads.elim
  | range => exact ⟨h.reads, fun _ hk => hk.elim, fun _ hk => hk.elim, fun _ => trivial⟩
  | skip => exact ⟨h.reads, fun _ hk => hk.elim, fun _ hk => hk.elim, fun _ => trivial⟩
  | take hk =>
    refine ⟨h.reads, ?_, fun _ hk => hk.elim, fun _ => trivial⟩
    rintro k rfl
    exact hw.stamped k hk
  | missing => exact ⟨h.reads, fun _ hk => hk.elim, fun _ hk => hk.elim, fun _ => trivial⟩
  | alive => exact ⟨h.reads, h.task, fun _ hk => hk.elim, fun _ => trivial⟩
  | @expired k t p hk hl =>
    refine ⟨h.reads, fun _ hk => hk.elim, ?_, fun _ => trivial⟩
    rintro k' rfl
    obtain ⟨body, rfl⟩ := h.task k rfl
    have hnow : p.now = now := h.reads
    rw [← hw.keyed.of_taskAt hk]
    exact stale_of_taskAt hk (hnow ▸ hl)
  | back => exact ⟨h.reads, fun _ hk => hk.elim, fun _ hk => hk.elim, fun _ => trivial⟩
  | gone => exact ⟨h.reads, fun _ hk => hk.elim, fun _ hk => hk.elim, fun hne => absurd rfl (hne _ _)⟩
  | again => exact ⟨h.reads, fun _ hk => hk.elim, h.stale, fun _ => trivial⟩
  | stamp => exact ⟨h.reads, fun _ hk => hk.elim, fun _ hk => hk.elim, fun _ => trivial⟩
  | drop => exact ⟨h.reads, fun _ hk => hk.elim, fun _ hk => hk.elim, fun _ => Stage.unindexes_batch _ _⟩
  | last => exact ⟨h.reads, fun _ hk => hk.elim, fun _ hk => hk.elim, fun _ => trivial⟩
  | rest =>
    have htame := h.tame fun _ _ e => by cases e
    exact ⟨h.reads, fun _ hk => hk.elim, fun _ hk => hk.elim,
      fun _ c hc => htame c (List.mem_cons_of_mem _ hc)⟩

/-- A change to the store that leaves stale what was stale. -/
theorem mono (h : Watched now timeout w σ) (hw : ∀ k, σ.Condemns k → Stale w now timeout k → Stale w' now timeout k) :
    Watched now timeout w' σ := ⟨h.reads, h.task, fun k hk => hw k hk (h.stale k hk), h.tame⟩

end Watched

/-! ### The scan among heartbeats -/

section Among

variable {ι : Type} [DecidableEq ι] {w : World}

/-- A scan, and a heartbeat for each `j`. -/
def scanAmongTouches (w : World) (timeout : ℤ) (names : ι → String × String) :
    Conf iface World (Option ι) (List StreamTask) :=
  ⟨w, fun i => i.elim (scanTimeoutTasks timeout) fun j => do
    let _ ← touchTask (names j).1 (names j).2
    return []⟩

/-- The scan, with the clock `now`, has found the task expired and has not deleted its hash yet. -/
def Deciding (now timeout : ℤ) (k : Key) (p : RProg (List StreamTask)) : Prop :=
  ∃ σ : Stage, p = σ.prog timeout ∧ σ.Reads now ∧ σ.Condemns k

/-- No heartbeat writes a recent activity into a hash between the read that decides and the deletion. -/
def TouchesApart (timeout : ℤ) (c₀ : Conf iface World (Option ι) (List StreamTask))
    (es : List (Ev (Option ι) ℤ)) : Prop :=
  ∀ past j c now k f x, past ++ [.run (some j)] <+: es → c₀.exec machine past = some c →
    (c.thr (some j)).head = some (.hset k f) → Deciding now timeout k (c.thr none) →
      activity f = some x → ¬ now - x < timeout

/-- When the scan, whose clock is that of its first command, deletes the hash of a task, the activity in
it is not recent. -/
def NoLiveKilled (timeout : ℤ) (c₀ : Conf iface World (Option ι) (List StreamTask))
    (es : List (Ev (Option ι) ℤ)) : Prop :=
  ∀ before mid c₁ c₂ body x, (before ++ .run none :: mid) ++ [.run none] <+: es →
    ¬ Conf.TakesPart none before → c₀.exec machine before = some c₁ →
    c₀.exec machine (before ++ .run none :: mid) = some c₂ →
    (c₂.thr none).head = some (.del (.task body)) → lastActive c₂.st (.task body) = some x →
      ¬ ms c₁.st.clock - x < timeout

theorem Stage.Condemns.task {σ : Stage} {k : Key} (h : σ.Condemns k) : ∃ body, k = .task body := by
  cases σ with
  | again t p => exact ⟨_, h⟩
  | drop t type p => exact ⟨_, h⟩
  | _ => exact h.elim

omit [DecidableEq ι] in
theorem scanAmongTouches_proper (timeout : ℤ) (names : ι → String × String) (i : Option ι) :
    ((scanAmongTouches w timeout names).thr i).Obeys TaskStamps Proper := by
  cases i with
  | none => exact scanTimeoutTasks_proper timeout
  | some j => exact (touchTask_proper _ _).bind fun _ => trivial

/-- **A live task is killed only by a heartbeat that comes too late.**  In every run of a scan and any number
of heartbeats, over a store that calls have reached, in which no heartbeat writes a recent activity between
the read of a hash and its deletion, the scan deletes no hash with a recent activity. -/
theorem no_live_killed (hw : Reached w) (timeout : ℤ) (names : ι → String × String)
    {es : List (Ev (Option ι) ℤ)} (hok : NoErrors es)
    (hapart : TouchesApart timeout (scanAmongTouches w timeout names) es) :
    NoLiveKilled timeout (scanAmongTouches w timeout names) es := by
  intro before mid c₁ c₂ body x hpre hpart h₁ h₂ hhead hx
  have hsound : ∀ (fs : List (Ev (Option ι) ℤ)) c, (scanAmongTouches w timeout names).exec machine fs = some c →
      (∀ i, (c.thr i).Obeys TaskStamps Proper) ∧ Sound c.st := fun fs c hrun =>
    Conf.exec_obeys (fun c _ hw => hw.taskStamps c) (fun _ _ hc hw => hw.after hc) (fun e _ _ hw => hw.advance e)
      (scanAmongTouches_proper timeout names) hw.sound hrun
  obtain ⟨c, hc, hrest⟩ := Conf.exec_append_eq_some.1 h₂
  obtain rfl := Option.some.inj (h₁.symm.trans hc)
  obtain ⟨m, hstep, hmid⟩ := Conf.exec_cons_eq_some.1 hrest
  have hthr : c₁.thr none = Stage.start.prog timeout := Conf.exec_not_takesPart hpart h₁
  -- the first command reads the clock
  have hm : ∃ σ : Stage, m.thr none = σ.prog timeout ∧ Watched (ms c₁.st.clock) timeout m.st σ := by
    obtain ⟨q, w', hq, rfl⟩ := Conf.step_run.1 hstep
    rw [hthr] at hq
    obtain ⟨τ, rfl, hs⟩ := Stage.next hq
    cases hs
    exact ⟨.range (ms c₁.st.clock), by simp, rfl, fun _ hk => hk.elim, fun _ hk => hk.elim, fun _ => trivial⟩
  obtain ⟨σ, hσ, hwatch⟩ : ∃ σ : Stage, c₂.thr none = σ.prog timeout ∧
      Watched (ms c₁.st.clock) timeout c₂.st σ := by
    refine Conf.exec_induction (fun _ d => ∃ σ : Stage, d.thr none = σ.prog timeout ∧
      Watched (ms c₁.st.clock) timeout d.st σ) hm ?_ hmid
    rintro past e d d' hp hpast ⟨σ, hσ, hwatch⟩ hs
    have hfull : (scanAmongTouches w timeout names).exec machine (before ++ .run none :: past) = some d :=
      Conf.exec_append_eq_some.2 ⟨c₁, h₁, Conf.exec_cons_eq_some.2 ⟨m, hstep, hpast⟩⟩
    have hes : (before ++ .run none :: past) ++ [e] <+: es := by
      obtain ⟨r, hr⟩ := hp
      refine List.IsPrefix.trans ⟨r, ?_⟩ ((List.prefix_append _ _).trans hpre)
      rw [← hr]
      simp
    obtain ⟨hob, hd⟩ := hsound _ d hfull
    cases e with
    | run i =>
      obtain ⟨q, w', hq, rfl⟩ := Conf.step_run.1 hs
      cases i with
      | none =>
        rw [hσ] at hq
        obtain ⟨τ, rfl, hst⟩ := Stage.next hq
        exact ⟨τ, by simp, hwatch.step hd hst⟩
      | some j =>
        obtain ⟨cmd, hcmd, rfl⟩ := Prog.next_head hq
        refine ⟨σ, by simpa using hσ, hwatch.mono fun k hk hstale => ?_⟩
        obtain ⟨b, rfl⟩ := hk.task
        apply hstale.after ((hob (some j)).head hcmd)
        rintro f rfl y hy
        exact hapart _ j d _ _ f y hes hfull hcmd ⟨σ, hσ, hwatch.reads, hk⟩ hy
    | fail i => exact absurd (hes.subset (by simp)) (hok i)
    | env t =>
      obtain rfl := Option.some.inj hs
      exact ⟨σ, hσ, hwatch.mono fun k _ hstale => hstale.advance t⟩
  rw [hσ] at hhead
  exact hwatch.stale _ (Stage.head_del hwatch.tame hhead) x hx

end Among

/-! ### A heartbeat too late, and one in time -/

/-- Forty seconds after the registration of `a`. -/
def fortyLater : ℤ := (MIN_REASONABLE_MS + 40000) * 1000000

/-- The scan of the stream of `a`, and its heartbeat. -/
def scanOfA : Conf iface World (Option Unit) (List StreamTask) :=
  scanAmongTouches heldByA 30000 fun _ => ("live", "a")

theorem deciding_head {now timeout : ℤ} {k : Key} {p : RProg (List StreamTask)} (h : Deciding now timeout k p) :
    p.head ≠ some .now := by
  obtain ⟨σ, rfl, -, hc⟩ := h
  cases σ with
  | again t q => exact fun e => by cases e
  | drop t type q =>
    cases type with
    | PLAYER => exact fun e => by cases e
    | PUBLISHER => exact fun e => by cases e
  | _ => exact hc.elim

/-- The heartbeat comes before the scan, which comes forty seconds later. -/
def earlyTouch : List (Ev (Option Unit) ℤ) :=
  List.replicate 4 (.run (some ())) ++ .env fortyLater :: List.replicate 9 (.run none)

/-- Then the task that the scan deregisters has expired. -/
theorem no_live_killed_early : NoLiveKilled 30000 scanOfA earlyTouch := by
  refine no_live_killed reached_heldByA 30000 (fun _ => ("live", "a")) ?_ ?_
  · rintro (_ | j) <;> simp [earlyTouch]
  · rintro past j c now k f x hpre hrun - hdec -
    have hpast : ¬ Conf.TakesPart none past := by
      have hall : ∀ p ∈ earlyTouch.inits, p ++ [.run (some ())] ∈ earlyTouch.inits →
          .run none ∉ p ∧ .fail none ∉ p := by decide
      have hmem := (List.mem_inits _ _).2 hpre
      obtain ⟨hr, hf⟩ := hall past ((List.mem_inits _ _).2 ((List.prefix_append _ _).trans hpre)) hmem
      rintro ⟨e, he, rfl | rfl⟩
      · exact hr he
      · exact hf he
    have hthr := Conf.exec_not_takesPart hpast hrun
    rw [hthr] at hdec
    exact absurd rfl (deciding_head hdec)

/-- The key that a command deletes. -/
def deleted : Option Cmd → Option Key
  | some (.del k) => some k
  | _ => none

theorem head_of_deleted {c : Option Cmd} {k : Key} (h : deleted c = some k) : c = some (.del k) := by
  unfold deleted at h
  split at h
  · rw [Option.some.inj h]
  · cases h

/-- The scan reads the hash, the heartbeat writes it, and the scan deletes it. -/
def lateTouch : List (Ev (Option Unit) ℤ) :=
  .env fortyLater :: List.replicate 4 (.run none) ++ List.replicate 4 (.run (some ())) ++ [.run none, .run none]

/-- The scan deletes a hash in which the last activity is that of this millisecond. -/
theorem live_killed :
    NoErrors lateTouch ∧ (taskAt heldByA (buildTaskKey "live" "a")).isSome ∧
      ¬ NoLiveKilled 30000 scanOfA lateTouch := by
  refine ⟨?_, by decide +kernel, fun h => ?_⟩
  · rintro (_ | j) <;> simp [lateTouch]
  · have hbefore : (scanOfA.exec machine [.env fortyLater]).map (fun c => ms c.st.clock) = some (ms fortyLater) := by
      decide +kernel
    have hat : (scanOfA.exec machine ([.env fortyLater] ++ .run none :: (List.replicate 3 (.run none) ++
        List.replicate 4 (.run (some ())) ++ [.run none]))).map
        (fun c => (deleted (c.thr none).head, lastActive c.st (buildTaskKey "live" "a"))) =
          some (some (buildTaskKey "live" "a"), some (ms fortyLater)) := by decide +kernel
    obtain ⟨c₁, h₁, hclock⟩ := Option.map_eq_some_iff.1 hbefore
    obtain ⟨c₂, h₂, hres⟩ := Option.map_eq_some_iff.1 hat
    obtain ⟨hdel, hlast⟩ := Prod.mk.inj hres
    refine h _ _ c₁ c₂ _ _ (List.prefix_refl _) ?_ h₁ h₂ (head_of_deleted hdel) hlast ?_
    · rintro ⟨e, he, rfl | rfl⟩ <;> simp at he
    · rw [hclock]
      decide

end StreamGate.State
