import StreamGate.Pool.Drain

/-!
# The queue of the pool

Tasks are taken in the order in which they were accepted (`Ahead`), the queue keeps to its limit, and no worker sleeps
while a task waits for one: as long as a worker sleeps that has not been signalled, each task in the queue has a worker
that is awake, or a call of `submit` that is about to wake one (`Attended`).
-/

namespace StreamGate.Pool

open StreamGate.Lib

variable {ι : Type} [DecidableEq ι] {n : ℕ} {config : Config} {timed : Bool} {p q : ThreadPool ι n}
  {e : Event ι n}

namespace ThreadPool

/-! ### First in, first out -/

/-- The task has left the queue. -/
def Started (p : ThreadPool ι n) (i : ι) : Prop := (p.submits i).accepted = true ∧ i ∉ p.tasks

/-- As long as `i` is in the queue, `j` is not in front of it, and if it was accepted, behind it. -/
def Ahead (i j : ι) (p : ThreadPool ι n) : Prop :=
  i ∈ p.tasks → ∃ front back, p.tasks = front ++ i :: back ∧ j ∉ front ∧ ((p.submits j).accepted = true → j ∈ back)

omit [DecidableEq ι] in
theorem Ahead.quiet {i j : ι} (h : Ahead i j p) (htasks : q.tasks = p.tasks)
    (hacc : (q.submits j).accepted = true → (p.submits j).accepted = true) : Ahead i j q := by
  intro hi
  rw [htasks] at hi ⊢
  obtain ⟨front, back, he, hfront, hback⟩ := h hi
  exact ⟨front, back, he, hfront, fun hj => hback (hacc hj)⟩

theorem accepted_update {i j : ι} {s : Submit} (hs : s.accepted = (p.submits i).accepted) :
    (Function.update p.submits i s j).accepted = (p.submits j).accepted := by
  rw [Function.update_apply]
  split
  · rename_i hj
    rw [hj, hs]
  · rfl

theorem Ahead.step {i j : ι} (h : Ahead i j p) (hi : (p.submits i).accepted = true) (hp : Sane p)
    (hs : Step config timed p e q) : Ahead i j q := by
  cases hs with
  | refuse o hk hm hstop => exact h.quiet rfl fun hj => by rwa [accepted_update (by rw [hk]; rfl)] at hj
  | enter o hk hm hstop => exact h.quiet rfl fun hj => by rwa [accepted_update (by rw [hk]; rfl)] at hj
  | full o hk hf => exact h.quiet rfl fun hj => by rwa [accepted_update (by rw [hk]; rfl)] at hj
  | notify hk hw => exact h.quiet rfl fun hj => by rwa [accepted_update (by rw [hk]; rfl)] at hj
  | notifyNone hk hw => exact h.quiet rfl fun hj => by rwa [accepted_update (by rw [hk]; rfl)] at hj
  | @push k o hk hf =>
    intro hmem
    have hne : i ≠ k := by
      rintro rfl
      rw [hk] at hi
      cases hi
    have hold : i ∈ p.tasks := (List.mem_append.1 hmem).resolve_right fun h => hne (List.mem_singleton.1 h)
    obtain ⟨front, back, he, hfront, hback⟩ := h hold
    refine ⟨front, back ++ [k], by simp [he], hfront, fun hj => ?_⟩
    by_cases hjk : j = k
    · simp [hjk]
    · dsimp only at hj
      rw [Function.update_of_ne hjk] at hj
      exact List.mem_append_left _ (hback hj)
  | @pop w k tasks b hw ht =>
    intro hmem
    obtain ⟨front, back, he, hfront, hback⟩ := h (by rw [ht]; exact List.mem_cons_of_mem k hmem)
    cases front with
    | nil =>
      -- then `i` itself is taken, and it is in the queue once
      obtain ⟨place, hplace⟩ := hp.placed
      have hnodup := hplace.once.1
      obtain ⟨rfl, rfl⟩ := List.cons.inj (ht.symm.trans he)
      rw [ht, List.nodup_cons] at hnodup
      exact absurd hmem hnodup.1
    | cons k' front =>
      obtain ⟨rfl, rfl⟩ := List.cons.inj (ht.symm.trans he)
      exact ⟨front, back, rfl, fun hj => hfront (List.mem_cons_of_mem _ hj), hback⟩
  | _ => exact h.quiet rfl fun hj => hj

/-- What was accepted stays accepted. -/
theorem accepted_step {i : ι} (hi : (p.submits i).accepted = true) (hs : Step config timed p e q) :
    (q.submits i).accepted = true := by
  cases hs with
  | @push k o hk hf =>
    dsimp only
    rw [Function.update_apply]
    split
    · rfl
    · exact hi
  | refuse o hk hm hstop => rwa [accepted_update (by rw [hk]; rfl)]
  | enter o hk hm hstop => rwa [accepted_update (by rw [hk]; rfl)]
  | full o hk hf => rwa [accepted_update (by rw [hk]; rfl)]
  | notify hk hw => rwa [accepted_update (by rw [hk]; rfl)]
  | notifyNone hk hw => rwa [accepted_update (by rw [hk]; rfl)]
  | _ => exact hi

/-! ### The limit -/

omit [DecidableEq ι] in
theorem bounded_push {i : ι} (hf : ¬ p.full config) (hlimit : 0 < config.max_queue_size) :
    (p.tasks ++ [i]).length ≤ config.max_queue_size := by
  rw [List.length_append, List.length_singleton]
  by_contra hlt
  exact hf ⟨hlimit, by omega⟩

theorem bounded_step (hlimit : 0 < config.max_queue_size) (h : p.tasks.length ≤ config.max_queue_size)
    (hs : Step config timed p e q) : q.tasks.length ≤ config.max_queue_size := by
  cases hs with
  | push o hk hf => exact bounded_push hf hlimit
  | pop b hw ht =>
    rw [ht, List.length_cons] at h
    exact Nat.le_of_succ_le h
  | _ => exact h

/-! ### Nobody sleeps over a task -/

/-- The worker comes to look at the queue. -/
def Looks (p : ThreadPool ι n) (w : Fin n) : Prop :=
  p.workers w = .top ∨ p.workers w = .chosen ∨ (p.workers w = .asleep ∧ p.signalled w = true)

instance (p : ThreadPool ι n) : DecidablePred p.Looks := fun _ => inferInstanceAs (Decidable (_ ∨ _))

/-- How many workers come to look. -/
def looking (p : ThreadPool ι n) : ℕ := (Finset.univ.filter p.Looks).card

/-- If a worker sleeps that has not been signalled, each task in the queue has somebody to attend to it. -/
def Attended (p : ThreadPool ι n) : Prop :=
  (∃ w, p.Sleeps w) → ∃ N : Finset ι, (∀ i ∈ N, p.submits i = .notifying) ∧ p.tasks.length ≤ N.card + p.looking

theorem Attended.of_empty (h : q.tasks = []) : Attended q := fun _ => ⟨∅, by simp, by simp [h]⟩

theorem Attended.of_awake (h : ¬ ∃ w, q.Sleeps w) : Attended q := fun hs => absurd hs h

/-- More workers come to look. -/
theorem looking_mono (h : ∀ w, p.Looks w → q.Looks w) : p.looking ≤ q.looking :=
  Finset.card_le_card fun w hw => by
    rw [Finset.mem_filter] at hw ⊢
    exact ⟨hw.1, h w hw.2⟩

/-- One more comes to look. -/
theorem looking_add {w : Fin n} (hw : ¬ p.Looks w) (hq : q.Looks w) (h : ∀ w', p.Looks w' → q.Looks w') :
    p.looking + 1 ≤ q.looking := by
  have hnot : w ∉ Finset.univ.filter p.Looks := fun hmem => hw (Finset.mem_filter.1 hmem).2
  unfold looking
  rw [← Finset.card_insert_of_notMem hnot]
  refine Finset.card_le_card fun w' hw' => ?_
  rw [Finset.mem_filter]
  rcases Finset.mem_insert.1 hw' with rfl | hw'
  · exact ⟨Finset.mem_univ _, hq⟩
  · exact ⟨Finset.mem_univ _, h w' (Finset.mem_filter.1 hw').2⟩

/-- All but one still come. -/
theorem looking_sub {w : Fin n} (h : ∀ w', w' ≠ w → p.Looks w' → q.Looks w') : p.looking ≤ q.looking + 1 := by
  unfold looking
  refine le_trans (Finset.card_le_card fun w' hw' => ?_) (Finset.card_insert_le w _)
  rw [Finset.mem_insert, Finset.mem_filter]
  by_cases hne : w' = w
  · exact .inl hne
  · exact .inr ⟨Finset.mem_univ _, h w' hne (Finset.mem_filter.1 hw').2⟩

/-- A step after which nobody sleeps that did not, and as many attend. -/
theorem Attended.mono (h : Attended p) (hsleeps : ∀ w, q.Sleeps w → p.Sleeps w)
    (hsub : ∀ i, p.submits i = .notifying → q.submits i = .notifying) (htasks : q.tasks = p.tasks)
    (hlooks : ∀ w, p.Looks w → q.Looks w) : Attended q := by
  rintro ⟨w, hw⟩
  obtain ⟨N, hN, hle⟩ := h ⟨w, hsleeps w hw⟩
  exact ⟨N, fun i hi => hsub i (hN i hi), by rw [htasks]; exact hle.trans (Nat.add_le_add_left (looking_mono hlooks) _)⟩

/-- A call that is not about to notify goes on. -/
theorem notifying_update {i k : ι} {s : Submit} (hk : p.submits k ≠ .notifying) (hi : p.submits i = .notifying) :
    Function.update p.submits k s i = .notifying := by
  rw [Function.update_of_ne (fun e : i = k => hk (e ▸ hi)), hi]

omit [DecidableEq ι] in
/-- More workers are signalled. -/
theorem Looks.signal {w : Fin n} (hworkers : q.workers = p.workers)
    (hsignal : ∀ w, p.signalled w = true → q.signalled w = true) (hw : p.Looks w) : q.Looks w := by
  unfold Looks at hw ⊢
  rw [hworkers]
  exact hw.imp_right fun h => h.imp_right fun h => ⟨h.1, hsignal w h.2⟩

omit [DecidableEq ι] in
theorem Sleeps.signal {w : Fin n} (hworkers : q.workers = p.workers)
    (hsignal : ∀ w, p.signalled w = true → q.signalled w = true) (hw : q.Sleeps w) : p.Sleeps w := by
  refine ⟨hworkers ▸ hw.1, Bool.eq_false_iff.2 fun h => ?_⟩
  cases hw.2.symm.trans (hsignal w h)

/-- A step that signals workers and does no more. -/
theorem Attended.signal (h : Attended p) (hsub : q.submits = p.submits) (htasks : q.tasks = p.tasks)
    (hworkers : q.workers = p.workers) (hsignal : ∀ w, p.signalled w = true → q.signalled w = true) : Attended q :=
  h.mono (fun _ => Sleeps.signal hworkers hsignal) (fun _ hi => hsub ▸ hi) htasks fun _ => Looks.signal hworkers hsignal

omit [DecidableEq ι] in
theorem signalled_update {w w' : Fin n} {b : Bool} (hb : p.signalled w = true → b = true) (h : p.signalled w' = true) :
    Function.update p.signalled w b w' = true := by
  rw [Function.update_apply]
  split
  · rename_i hw
    exact hb (hw ▸ h)
  · exact h

omit [DecidableEq ι] in
/-- A worker that is not asleep moves. -/
theorem Sleeps.of_update {w w' : Fin n} {x : Worker ι} {b : Bool} (hx : x ≠ .asleep)
    (h : Function.update p.workers w x w' = .asleep ∧ Function.update p.signalled w b w' = false) : p.Sleeps w' := by
  by_cases hw : w' = w
  · subst hw
    rw [Function.update_self] at h
    exact absurd h.1 hx
  · rwa [Function.update_of_ne hw, Function.update_of_ne hw] at h

theorem Attended.step (h : Attended p) (hs : Step config timed p e q) : Attended q := by
  cases hs with
  | refuse o hk hm hstop =>
    exact h.mono (fun _ hw => hw) (fun _ hi => notifying_update (by rw [hk]; exact nofun) hi) rfl fun _ hw => hw
  | enter o hk hm hstop =>
    exact h.mono (fun _ hw => hw) (fun _ hi => notifying_update (by rw [hk]; exact nofun) hi) rfl fun _ hw => hw
  | full o hk hf =>
    exact h.mono (fun _ hw => hw) (fun _ hi => notifying_update (by rw [hk]; exact nofun) hi) rfl fun _ hw => hw
  | @push k o hk hf =>
    -- the call that pushes is about to notify
    intro hsleeps
    obtain ⟨N, hN, hle⟩ := h hsleeps
    have hnot : k ∉ N := fun hmem => by cases hk.symm.trans (hN k hmem)
    refine ⟨insert k N, fun i hi => ?_, ?_⟩
    · rcases Finset.mem_insert.1 hi with rfl | hi
      · exact Function.update_self ..
      · exact notifying_update (by rw [hk]; exact nofun) (hN i hi)
    · show (p.tasks ++ [k]).length ≤ (insert k N).card + p.looking
      rw [Finset.card_insert_of_notMem hnot, List.length_append, List.length_singleton]
      omega
  | @notify k w hk hw =>
    -- it goes, and a worker comes
    rintro ⟨w', hw'⟩
    obtain ⟨N, hN, hle⟩ := h ⟨w, hw⟩
    refine ⟨N.erase k, fun i hi => ?_, ?_⟩
    · obtain ⟨hne, hi⟩ := Finset.mem_erase.1 hi
      exact (Function.update_of_ne hne _ _).trans (hN i hi)
    · have hlook : p.looking + 1 ≤ looking _ := looking_add (q := { p with
          signalled := Function.update p.signalled w true
          submits := Function.update p.submits k .returned }) (w := w) (by simp [Looks, hw.1, hw.2])
        (.inr (.inr ⟨hw.1, Function.update_self ..⟩))
        fun _ => Looks.signal rfl fun _ => signalled_update fun _ => rfl
      have herase : N.card - 1 ≤ (N.erase k).card := Finset.pred_card_le_card_erase
      dsimp only
      omega
  | notifyNone hk hw => exact .of_awake hw
  | @choose w b hw hm ht =>
    refine h.mono (fun _ hs => Sleeps.of_update (x := .chosen) nofun hs) (fun _ hi => hi) rfl fun w' hl => ?_
    by_cases hww : w' = w
    · subst hww
      exact .inr (.inl (Function.update_self ..))
    · simpa [Looks, Function.update_of_ne hww] using hl
  | sleep b hw hm ht hr => exact .of_empty ht
  | leave b hw ht => exact .of_empty ht
  | @pop w k tasks b hw ht =>
    -- the worker goes with its task
    rintro ⟨w', hw'⟩
    have hne : w' ≠ w := by
      rintro rfl
      cases (Function.update_self ..).symm.trans hw'.1
    have hsleeps : p.Sleeps w' := ⟨(Function.update_of_ne hne _ _).symm.trans hw'.1, hw'.2⟩
    obtain ⟨N, hN, hle⟩ := h ⟨w', hsleeps⟩
    have hlook : p.looking ≤ looking _ + 1 := looking_sub (q := { p with
        mutex := none
        tasks := tasks
        workers := Function.update p.workers w (.running k) }) (w := w) fun v hv hl => by
      simpa [Looks, Function.update_of_ne hv] using hl
    rw [ht, List.length_cons] at hle
    refine ⟨N, hN, ?_⟩
    show tasks.length ≤ N.card + looking _
    omega
  | @finish w i b hw =>
    refine h.mono (fun w' hs => ?_) (fun _ hi => hi) rfl fun w' hl => ?_
    · have hne : w' ≠ w := by
        rintro rfl
        cases (Function.update_self ..).symm.trans hs.1
      exact ⟨(Function.update_of_ne hne _ _).symm.trans hs.1, hs.2⟩
    · by_cases hww : w' = w
      · subst hww
        exact .inl (Function.update_self ..)
      · simpa [Looks, Function.update_of_ne hww] using hl
  | ask b hstop => exact h.signal rfl rfl rfl fun _ => signalled_update fun hs => by rw [hs, Bool.true_or]
  | notifyAll b hstop => exact h.signal rfl rfl rfl fun _ hs => by simp [hs]
  | spurious hw => exact h.signal rfl rfl rfl fun _ => signalled_update fun _ => rfl
  | _ => exact h.mono (fun _ hw => hw) (fun _ hi => hi) rfl fun _ hw => hw

/-! ### Every run -/

/-- **The queue is fair and no worker is idle.**  In every run: a task that was accepted before another one is started
before it; the queue keeps to its limit, if there is one; and if some worker sleeps that has not been signalled, the
tasks in the queue are no more than the workers that come to look and the calls of `submit` that are about to notify
one. -/
theorem queue_discipline {p₀ m p : ThreadPool ι config.num_threads} (hnew : construct ι config = some p₀)
    {es fs : List (Event ι config.num_threads)} (hes : tries (step config timed) es p₀ = some m)
    (hfs : tries (step config timed) fs m = some p) :
    (∀ i j, (m.submits i).accepted = true → (m.submits j).accepted = false → p.Started j → p.Started i) ∧
    (0 < config.max_queue_size → p.tasks.length ≤ config.max_queue_size) ∧
    ((∃ w, p.Sleeps w) →
      ∃ N : Finset ι, (∀ i ∈ N, p.submits i = .notifying) ∧ p.tasks.length ≤ N.card + p.looking) := by
  have hm : Sane m := (Sane.construct hnew).tries hes
  have hrun : tries (step config timed) (es ++ fs) p₀ = some p := tries_append_eq_some.2 ⟨m, hes, hfs⟩
  have htasks : p₀.tasks = [] := by
    unfold construct at hnew
    split at hnew
    · cases hnew
    · obtain rfl := Option.some.inj hnew
      rfl
  refine ⟨fun i j hi hj hstarted => ?_, fun hlimit => ?_, ?_⟩
  · have hahead : Ahead i j m := by
      intro hmem
      obtain ⟨front, back, he⟩ := List.append_of_mem hmem
      obtain ⟨place, hplace⟩ := hm.placed
      refine ⟨front, back, he, fun hfront => ?_, fun h => ?_⟩
      · have hqueued := (hplace.queued j).1 (by rw [he]; exact List.mem_append_left _ hfront)
        have hacc := (hplace.accepted j).2 (by rw [hqueued]; exact nofun)
        rw [hacc] at hj
        cases hj
      · rw [h] at hj
        cases hj
    have hend : (Sane p ∧ (p.submits i).accepted = true) ∧ Ahead i j p := by
      refine tries_inv (I := fun p => (Sane p ∧ (p.submits i).accepted = true) ∧ Ahead i j p) ?_ hfs ⟨⟨hm, hi⟩, hahead⟩
      rintro r e r' ⟨⟨hr, hacc⟩, hr'⟩ hs
      exact ⟨⟨hr.step hs, accepted_step hacc (step_eq_some hs)⟩, hr'.step hacc hr (step_eq_some hs)⟩
    refine ⟨hend.1.2, fun hmem => hstarted.2 ?_⟩
    obtain ⟨front, back, he, -, hback⟩ := hend.2 hmem
    rw [he]
    exact List.mem_append_right _ (List.mem_cons_of_mem _ (hback hstarted.1))
  · refine tries_inv (I := fun p => p.tasks.length ≤ config.max_queue_size)
      (fun _ _ _ h hs => bounded_step hlimit h (step_eq_some hs)) hrun ?_
    rw [htasks]
    exact Nat.zero_le _
  · exact tries_inv (I := Attended) (fun _ _ _ h hs => h.step (step_eq_some hs)) hrun (.of_empty htasks)

/-- Two tasks and one worker. -/
def pair : List (Event Bool 1) :=
  let worker := Event.worker ⟨0, Nat.one_pos⟩ false
  [.submit true none, .submit true none, .submit true none, worker, worker, worker, worker, worker]

theorem queue_discipline_pair : ∃ p₀ m p, construct Bool ⟨1, 1000⟩ = some p₀ ∧
    tries (step ⟨1, 1000⟩ false) [.submit false none, .submit false none, .submit false none] p₀ = some m ∧
    tries (step ⟨1, 1000⟩ false) pair m = some p ∧ p.Started true ∧ p.Started false := by
  let p₀ := (construct Bool ⟨1, 1000⟩).get rfl
  have hrun : ((tries (step ⟨1, 1000⟩ false) [.submit false none, .submit false none, .submit false none] p₀).bind
      fun m => (tries (step ⟨1, 1000⟩ false) pair m).map fun p =>
        ((m.submits false).accepted, (m.submits true).accepted,
        decide ((p.submits true).accepted = true ∧ true ∉ p.tasks))) = some (true, false, true) := by decide +kernel
  obtain ⟨m, hes, hrun⟩ := Option.bind_eq_some_iff.1 hrun
  obtain ⟨p, hfs, hp⟩ := Option.map_eq_some_iff.1 hrun
  simp only [Prod.mk.injEq, decide_eq_true_eq] at hp
  obtain ⟨hfirst, hsecond, hstarted⟩ := hp
  exact ⟨p₀, m, p, rfl, hes, hfs, hstarted, (queue_discipline rfl hes hfs).1 false true hfirst hsecond hstarted⟩

end ThreadPool

end StreamGate.Pool
