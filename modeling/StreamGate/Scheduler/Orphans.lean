import StreamGate.State.Tally
import StreamGate.Scheduler.Ops

/-!
# Players and their publisher

A player goes to the node of the publisher, so a stream with a player should have a publisher.  The
publisher leaves by three ways: its own `onPublishDone`, which takes the players of the stream along,
and an `onPlayDone` or an `onPlay` under its name, which do not.  `KeepsPublisher` says, for every hook,
in which states it leaves no player behind, and `players_attended_iff` that this is exact: the players of
a run always have a publisher exactly if all its hooks meet the condition.
-/

namespace StreamGate.Scheduler

open StreamGate.Redis StreamGate.Task StreamGate.Lib StreamGate.State

/-- One step of a run: a hook, or time that passes without anything running out. -/
inductive HookEvent where
  | call (h : HookCall)
  | tick (t : ℤ)

/-- The world after a step. -/
def HookEvent.step : HookEvent → World → World
  | call h, w => h.step w
  | tick t, w => Redis.tick t w

/-- Every stream on which some task is a player's has a publisher. -/
def Attended (w : World) : Prop :=
  ∀ s c t, (w.run (getTask s c)).1 = some t → t.type = .PLAYER → ∃ p, (w.run (getPublisherTask s)).1 = some p

/-- Somebody else is a player on the stream. -/
def OthersPlay (w : World) (s c : String) : Prop := ∃ c', c' ≠ c ∧ playing w s c'

/-- The steps that leave no player without a publisher.  A request that is refused, or that asks for a
stream without a publisher, does nothing. -/
def KeepsPublisher (w : World) : HookEvent → Prop
  | .call (.publish _ r) => validateRequest r ∧ r.code = 0 →
    (∃ p, pubAt w r.stream_name = some p ∧ p.client_id = r.client_id) →
      Reasonable (ms w.clock) ∨ ¬ OthersPlay w r.stream_name r.client_id
  | .call (.play r) => validateRequest r ∧ r.code = 0 → (pubAt w r.stream_name).isSome →
    if Reasonable (ms w.clock) then
      publishing w r.stream_name r.client_id = false ∧
        ∀ s c, buildTaskKey s c = buildTaskKey r.stream_name r.client_id → (pubAt w s).isSome
    else publishing w r.stream_name r.client_id → ¬ OthersPlay w r.stream_name r.client_id
  | .call (.publishDone s c) => publishing w s c → HasPublisher w s →
    ∀ c', playing w s c' → c' ∈ w.sets (memberKey s)
  | .call (.playDone s c) => publishing w s c → ¬ OthersPlay w s c
  | .tick _ => True

theorem attended_iff {w : World} : Attended w ↔ ∀ s c, playing w s c → (pubAt w s).isSome := by
  constructor
  · intro h s c hp
    obtain ⟨t, ht, htp⟩ := playing_iff.1 hp
    exact Option.isSome_iff_exists.2 (h s c t ht htp)
  · intro h s c t ht htp
    exact Option.isSome_iff_exists.1 (h s c (playing_iff.2 ⟨t, ht, htp⟩))

/-! ### One client less -/

/-- A step after which the client is no player, and that touches no publisher but that of its stream. -/
theorem attended_without {w w' : World} {s c : String} (hw : Attended w)
    (hplay : ∀ s' c', playing w' s' c' ↔ buildTaskKey s' c' ≠ buildTaskKey s c ∧ playing w s' c')
    (hpub : ∀ s', s' ≠ s → pubAt w' s' = pubAt w s') :
    Attended w' ↔ (pubAt w' s).isSome ∨ ¬ OthersPlay w s c := by
  rw [attended_iff] at hw ⊢
  constructor
  · intro h
    by_cases hother : OthersPlay w s c
    · obtain ⟨c', hne, hp⟩ := hother
      exact .inl (h s c' ((hplay s c').2 ⟨fun e => hne (taskKey_client.1 e), hp⟩))
    · exact .inr hother
  · intro h s' c' hp
    obtain ⟨hkey, hp⟩ := (hplay s' c').1 hp
    by_cases hs : s' = s
    · subst hs
      exact h.resolve_right fun hno => hno ⟨c', fun e => hkey (by rw [e]), hp⟩
    · rw [hpub s' hs]
      exact hw s' c' hp

theorem playing_eq {w w' : World} {s c : String}
    (h : taskAt w' (buildTaskKey s c) = taskAt w (buildTaskKey s c)) : playing w' s c = playing w s c := by
  rw [playing, playing, h]

/-- What is read at every key but the client's is as before, and the client is no player. -/
theorem playing_without {w w' : World} {s c : String}
    (hother : ∀ body, Key.task body ≠ buildTaskKey s c → taskAt w' (.task body) = taskAt w (.task body))
    (hself : playing w' s c = false) (s' c' : String) :
    playing w' s' c' ↔ buildTaskKey s' c' ≠ buildTaskKey s c ∧ playing w s' c' := by
  by_cases hkey : buildTaskKey s' c' = buildTaskKey s c
  · have : playing w' s' c' = false := by
      rw [playing, hkey]
      exact hself
    simp [this, hkey]
  · rw [playing_eq (hother _ hkey)]
    exact (and_iff_right hkey).symm

theorem playing_of_none {w : World} {s c : String} (h : taskAt w (buildTaskKey s c) = none) :
    playing w s c = false := by
  rw [playing, h]
  rfl

theorem playing_forget (w : World) (s c s' c' : String) :
    playing (forget s c w) s' c' ↔ buildTaskKey s' c' ≠ buildTaskKey s c ∧ playing w s' c' :=
  playing_without (fun body hk => (taskAt_forget w s c body).trans (if_neg hk))
    (playing_of_none ((taskAt_forget w s c _).trans (if_pos rfl))) s' c'

theorem pubAt_forget_of_ne {w : World} {s c s' : String} (h : s' ≠ s) : pubAt (forget s c w) s' = pubAt w s' :=
  (pubAt_forget w s c s').trans (if_neg fun hp => h hp.2)

/-! ### Registrations -/

section Register

variable {v w : World} {t : StreamTask}

/-- The end of a registration whose task cannot be read if the clock is out of range. -/
theorem finish_hashes (h : ¬ Reasonable (ms w.clock) → taskAt w t.key = none) :
    (finish t w).2.hashes = w.hashes := by
  unfold finish
  split
  · rfl
  · rename_i hr
    unfold forget
    rw [show taskAt w (buildTaskKey t.stream_name t.client_id) = none from h hr]
    rfl

theorem taskAt_putTask (body : String) : taskAt (putTask t v) (.task body) =
    if Key.task body = t.key then if t.Readable then some t.stored else none else taskAt v (.task body) := by
  split
  · rename_i hk
    rw [hk]
    exact taskAt_putTask_self
  · rename_i hk
    exact taskAt_putTask_of_ne hk

/-- A player on the way to its place. -/
theorem place_player_hashes (hp : t.type = .PLAYER) (hr : t.Readable ↔ Reasonable (ms v.clock)) :
    (place t (putTask t v)).2.hashes = (indexPlayer t (putTask t v)).hashes := by
  unfold place
  rw [if_neg (by rw [hp]; decide)]
  refine finish_hashes fun hclock => ?_
  rw [StreamTask.key, buildTaskKey, taskAt_congr (indexPlayer_task _ _ t)]
  exact taskAt_putTask_self.trans (if_neg fun h => hclock (hr.1 h))

theorem place_publisher_hashes (hp : t.type = .PUBLISHER) (hr : t.Readable ↔ Reasonable (ms v.clock))
    (hcheck : ∀ p, taskAt v (buildPublisherKey t.stream_name) = some p → p.client_id = t.client_id) :
    (place t (putTask t v)).2.hashes = (indexPublisher t (putTask t v)).hashes := by
  have hpass : ¬ (taskAt (putTask t v) (buildPublisherKey t.stream_name)).any fun p => p.client_id ≠ t.client_id := by
    rw [buildPublisherKey, taskAt_congr (putTask_pub v _ t), Option.any_eq_true]
    rintro ⟨p, hpub, hne⟩
    exact of_decide_eq_true hne (hcheck p hpub)
  unfold place
  rw [if_pos hp, if_neg hpass]
  refine finish_hashes fun hclock => ?_
  rw [StreamTask.key, buildTaskKey, taskAt_congr (indexPublisher_task _ _ t)]
  exact taskAt_putTask_self.trans (if_neg fun h => hclock (hr.1 h))

/-- A registration touches no publisher but that of its stream. -/
theorem registerTask_pubAt_of_ne {s : String} (h : s ≠ t.stream_name) :
    pubAt (w.run (registerTask t)).2 s = pubAt w s :=
  registerTask_inv (I := fun v => pubAt v s = pubAt w s) (fun _ hv => (pubAt_forget_of_ne h).trans hv)
    (fun v hv => (pubAt_congr (putTask_pub v s t)).trans hv)
    (fun _ _ hv => (pubAt_indexPublisher_of_ne h).trans hv)
    (fun _ v hv => (pubAt_congr (indexPlayer_pub v s t)).trans hv) (fun _ hv => hv) rfl

/-- The registration of a publisher, refused in the end or not, leaves no player under its key. -/
theorem place_publisher_not_playing (hp : t.type = .PUBLISHER) :
    playing (place t (putTask t v)).2 t.stream_name t.client_id = false := by
  have hforget : ∀ u, playing (forget t.stream_name t.client_id u) t.stream_name t.client_id = false :=
    fun u => playing_of_none ((taskAt_forget u _ _ _).trans (if_pos rfl))
  unfold place
  rw [if_pos hp]
  split
  · exact hforget _
  · unfold finish
    split
    · have htask : taskAt (indexPublisher t (putTask t v)) t.key = _ :=
        (taskAt_congr (indexPublisher_task _ _ t)).trans taskAt_putTask_self
      show (taskAt (indexPublisher t (putTask t v)) t.key).any _ = false
      rw [htask]
      split
      · rw [Option.any_some, stored_type, hp]
        rfl
      · rfl
    · exact hforget _

theorem attended_registerPublisher (hw : Attended w) (hp : t.type = .PUBLISHER)
    (hr : t.Readable ↔ Reasonable (ms w.clock)) :
    Attended (w.run (registerTask t)).2 ↔
      ((∃ p, pubAt w t.stream_name = some p ∧ p.client_id = t.client_id) →
        Reasonable (ms w.clock) ∨ ¬ OthersPlay w t.stream_name t.client_id) := by
  have hother : ∀ body, Key.task body ≠ buildTaskKey t.stream_name t.client_id →
      taskAt (w.run (registerTask t)).2 (.task body) = taskAt w (.task body) :=
    fun body hk => taskAt_congr (registerTask_task_of_ne hk)
  have hpub : ∀ s, s ≠ t.stream_name → pubAt (w.run (registerTask t)).2 s = pubAt w s :=
    fun s hs => registerTask_pubAt_of_ne hs
  have hrun := run_registerTask w t
  rw [if_pos hp] at hrun
  cases hheld : pubAt w t.stream_name with
  | none =>
    -- nobody plays on a stream without a publisher
    have hnobody : ¬ OthersPlay w t.stream_name t.client_id := by
      rintro ⟨c', -, hplay⟩
      have := attended_iff.1 hw _ _ hplay
      rw [hheld] at this
      cases this
    rw [hheld] at hrun
    have hself : playing (w.run (registerTask t)).2 t.stream_name t.client_id = false := by
      rw [hrun]
      exact place_publisher_not_playing hp
    rw [attended_without hw (playing_without hother hself) hpub]
    exact ⟨fun _ _ => .inr hnobody, fun _ => .inr hnobody⟩
  | some p =>
    rw [hheld] at hrun
    dsimp only at hrun
    by_cases hc : p.client_id = t.client_id
    · rw [if_neg (not_not.2 hc)] at hrun
      have hself : playing (w.run (registerTask t)).2 t.stream_name t.client_id = false := by
        rw [hrun]
        exact place_publisher_not_playing hp
      have hclock : (forget t.stream_name t.client_id w).clock = w.clock := forget_clock w _ _
      have hcheck : ∀ q, taskAt (forget t.stream_name t.client_id w) (buildPublisherKey t.stream_name) = some q →
          q.client_id = t.client_id := by
        intro q hq
        obtain ⟨x, hx, hact, hd⟩ := pubAt_eq_some hheld
        rcases forget_pub_eq_or_none w t.stream_name t.client_id t.stream_name with h | h
        · rw [buildPublisherKey, taskAt_of_none h] at hq
          cases hq
        · rw [buildPublisherKey, taskAt_congr h, taskAt, World.fieldsAt, hx] at hq
          obtain rfl := Option.some.inj (hd.symm.trans hq)
          exact hc
      have hnew : (pubAt (w.run (registerTask t)).2 t.stream_name).isSome ↔ Reasonable (ms w.clock) := by
        rw [hrun, pubAt_congr (congrFun (place_publisher_hashes hp (by rw [hclock]; exact hr) hcheck) _),
          pubAt_indexPublisher_self, ← hr]
        split
        · rename_i h; simp [h]
        · rename_i h; simp [h]
      rw [attended_without hw (playing_without hother hself) hpub, hnew]
      exact ⟨fun h _ => h, fun h => h ⟨p, rfl, hc⟩⟩
    · rw [if_pos hc] at hrun
      rw [hrun]
      refine ⟨fun _ h => ?_, fun _ => hw⟩
      obtain ⟨q, hq, hqc⟩ := h
      obtain rfl := Option.some.inj hq
      exact absurd hqc hc

/-- What is read after the registration of a player: its task, if the clock is in range, and no
publisher if the client was read as the publisher of the stream. -/
theorem registerPlayer_read (hp : t.type = .PLAYER) (hr : t.Readable ↔ Reasonable (ms w.clock)) :
    (∀ body, taskAt (w.run (registerTask t)).2 (.task body) =
      if Key.task body = t.key then if Reasonable (ms w.clock) then some t.stored else none
      else taskAt w (.task body)) ∧
    ∀ s, pubAt (w.run (registerTask t)).2 s =
      if publishing w t.stream_name t.client_id ∧ s = t.stream_name then none else pubAt w s := by
  -- both ways the task goes to its place after the old one is gone
  obtain ⟨v, hrun, hv, hpub, hclock⟩ : ∃ v, w.run (registerTask t) = place t (putTask t v) ∧
      (∀ body, Key.task body ≠ t.key → taskAt v (.task body) = taskAt w (.task body)) ∧
      (∀ s, pubAt v s = if publishing w t.stream_name t.client_id ∧ s = t.stream_name then none
        else pubAt w s) ∧ v.clock = w.clock := by
    rw [run_registerTask, if_neg (by rw [hp]; decide)]
    by_cases hkey : w.hasKey t.key
    · rw [if_pos hkey]
      exact ⟨_, rfl, fun body hk => (taskAt_forget w _ _ body).trans (if_neg hk),
        pubAt_forget w _ _, forget_clock w _ _⟩
    · rw [if_neg hkey]
      refine ⟨w, rfl, fun _ _ => rfl, fun s => ?_, rfl⟩
      have hnone : w.hashes t.key = none := by
        simp only [World.hasKey, Bool.or_eq_true, not_or, Bool.not_eq_true] at hkey
        exact Option.isSome_eq_false_iff.1 hkey.1.1 |> Option.isNone_iff_eq_none.1
      have : publishing w t.stream_name t.client_id = false := by
        rw [publishing, show taskAt w (buildTaskKey t.stream_name t.client_id) = none from taskAt_of_none hnone]
        rfl
      rw [this, if_neg fun h => Bool.false_ne_true h.1]
  have hhash := place_player_hashes (v := v) hp (by rw [hclock]; exact hr)
  rw [hrun]
  refine ⟨fun body => ?_, fun s => ?_⟩
  · rw [taskAt_congr (congrFun hhash _), taskAt_congr (indexPlayer_task _ body t), taskAt_putTask]
    split
    · simp only [hr]
    · rename_i hk
      exact hv body hk
  · rw [pubAt_congr (congrFun hhash _), pubAt_congr (indexPlayer_pub _ s t), pubAt_congr (putTask_pub v s t)]
    exact hpub s

theorem attended_registerPlayer (hw : Attended w) (hp : t.type = .PLAYER)
    (hr : t.Readable ↔ Reasonable (ms w.clock)) :
    (pubAt w t.stream_name).isSome → (Attended (w.run (registerTask t)).2 ↔
      if Reasonable (ms w.clock) then
        publishing w t.stream_name t.client_id = false ∧
          ∀ s c, buildTaskKey s c = buildTaskKey t.stream_name t.client_id → (pubAt w s).isSome
      else publishing w t.stream_name t.client_id → ¬ OthersPlay w t.stream_name t.client_id) := by
  intro hheld
  obtain ⟨htask, hpub⟩ := registerPlayer_read hp hr
  by_cases hclock : Reasonable (ms w.clock)
  · rw [if_pos hclock, attended_iff]
    -- whoever has the key is a player now
    have hnew : ∀ s c, buildTaskKey s c = buildTaskKey t.stream_name t.client_id →
        playing (w.run (registerTask t)).2 s c := by
      intro s c hk
      refine playing_iff.2 ⟨t.stored, ?_, hp⟩
      exact (htask _).trans ((if_pos hk).trans (if_pos hclock))
    constructor
    · intro h
      have hnot : publishing w t.stream_name t.client_id = false := by
        have := h _ _ (hnew t.stream_name t.client_id rfl)
        rw [hpub] at this
        by_contra hcon
        rw [if_pos ⟨Bool.not_eq_false _ ▸ hcon, rfl⟩] at this
        cases this
      refine ⟨hnot, fun s c hk => ?_⟩
      have := h s c (hnew s c hk)
      rwa [hpub, if_neg fun h => Bool.false_ne_true (hnot ▸ h.1)] at this
    · rintro ⟨hnot, hall⟩ s c hplay
      rw [hpub, if_neg fun h => Bool.false_ne_true (hnot ▸ h.1)]
      by_cases hk : buildTaskKey s c = buildTaskKey t.stream_name t.client_id
      · exact hall s c hk
      · rw [playing_eq ((htask _).trans (if_neg hk))] at hplay
        exact attended_iff.1 hw s c hplay
  · rw [if_neg hclock]
    have hself : playing (w.run (registerTask t)).2 t.stream_name t.client_id = false :=
      playing_of_none ((htask _).trans ((if_pos rfl).trans (if_neg hclock)))
    rw [attended_without hw (playing_without (fun body hk => (htask body).trans (if_neg hk)) hself)
      fun s hs => (hpub s).trans (if_neg fun h => hs h.2), hpub]
    by_cases hown : publishing w t.stream_name t.client_id
    · rw [if_pos ⟨hown, rfl⟩]
      simp [hown]
    · rw [if_neg fun h => hown h.1]
      simp [hown, hheld]

end Register

/-! ### Hooks -/

theorem newTask_readable_iff (r : Request) (type : StreamType) (ip : String) (port : Int32) (now : ℤ) :
    (newTask r type ip port now).Readable ↔ Reasonable (ms now) := and_self_iff

theorem attended_forget {w : World} (hw : Attended w) (s c : String) :
    Attended (forget s c w) ↔ (publishing w s c → ¬ OthersPlay w s c) := by
  rw [attended_without hw (playing_forget w s c) fun s' hs => pubAt_forget_of_ne hs, pubAt_forget]
  by_cases hown : publishing w s c
  · rw [if_pos ⟨hown, rfl⟩]
    simp [hown]
  · rw [if_neg fun h => hown h.1]
    refine iff_of_true ?_ fun h => absurd h hown
    by_cases hother : OthersPlay w s c
    · obtain ⟨c', -, hp⟩ := hother
      exact .inl (attended_iff.1 hw s c' hp)
    · exact .inr hother

theorem attended_clearStream {w : World} (hw : Attended w) (s : String) :
    Attended (clearStream s w) ↔
      (HasPublisher w s → ∀ c, playing w s c → c ∈ w.sets (memberKey s)) := by
  have hplay : ∀ s' c', playing (clearStream s w) s' c' ↔
      (¬ ∃ m ∈ w.sets (memberKey s), buildTaskKey s' c' = buildTaskKey s m) ∧ playing w s' c' := by
    intro s' c'
    have htask : taskAt (clearStream s w) (buildTaskKey s' c') = _ := taskAt_clearStream w s _
    split at htask
    · rename_i h
      rw [playing_of_none htask]
      exact iff_of_false Bool.false_ne_true fun hn => hn.1 h
    · rename_i h
      rw [playing_eq htask]
      exact (and_iff_right h).symm
  rw [attended_iff] at hw ⊢
  constructor
  · intro h hhas c hp
    by_contra hnot
    have := h s c ((hplay s c).2 ⟨fun ⟨m, hm, hk⟩ => hnot (taskKey_client.1 hk ▸ hm), hp⟩)
    rw [pubAt_clearStream, if_pos ⟨hhas, rfl⟩] at this
    cases this
  · intro h s' c' hp
    obtain ⟨hkey, hold⟩ := (hplay s' c').1 hp
    rw [pubAt_clearStream, if_neg]
    · exact hw s' c' hold
    · rintro ⟨hhas, rfl⟩
      exact hkey ⟨c', h hhas c' hold, rfl⟩

section Hooks

variable {w : World}

theorem attended_onPublish (hw : Attended w) (cfg : NodeConfig) (r : Request) :
    Attended (w.run (onPublish cfg r)).2 ↔ (validateRequest r ∧ r.code = 0 →
      (∃ p, pubAt w r.stream_name = some p ∧ p.client_id = r.client_id) →
        Reasonable (ms w.clock) ∨ ¬ OthersPlay w r.stream_name r.client_id) := by
  rw [run_onPublish]
  by_cases hok : validateRequest r ∧ r.code = 0
  · rw [if_pos hok, attended_registerPublisher hw rfl (newTask_readable_iff r _ _ _ _)]
    exact ⟨fun h _ => h, fun h => h hok⟩
  · rw [if_neg hok]
    exact iff_of_true hw fun h => absurd h hok

theorem attended_onPlay (hw : Attended w) (r : Request) :
    Attended (w.run (onPlay r)).2 ↔ (validateRequest r ∧ r.code = 0 → (pubAt w r.stream_name).isSome →
      if Reasonable (ms w.clock) then
        publishing w r.stream_name r.client_id = false ∧
          ∀ s c, buildTaskKey s c = buildTaskKey r.stream_name r.client_id → (pubAt w s).isSome
      else publishing w r.stream_name r.client_id → ¬ OthersPlay w r.stream_name r.client_id) := by
  rw [run_onPlay]
  cases hheld : pubAt w r.stream_name with
  | none => exact iff_of_true hw fun _ h => absurd h Bool.false_ne_true
  | some pub =>
    dsimp only
    by_cases hok : validateRequest r ∧ r.code = 0
    · have hsome : (pubAt w r.stream_name).isSome := by rw [hheld]; rfl
      have ht := attended_registerPlayer (t := newTask r .PLAYER pub.server_ip pub.server_port w.clock) hw rfl
        (newTask_readable_iff r _ _ _ _) hsome
      rw [if_pos hok]
      exact ht.trans ⟨fun h _ _ => h, fun h => h hok rfl⟩
    · rw [if_neg hok]
      exact iff_of_true hw fun h => absurd h hok

theorem attended_onPublishDone (hw : Attended w) (s c : String) :
    Attended (w.run (onPublishDone s c)).2 ↔ (publishing w s c → HasPublisher w s →
      ∀ c', playing w s c' → c' ∈ w.sets (memberKey s)) := by
  have hrun : (w.run (onPublishDone s c)).2 = if publishing w s c then clearStream s w else w :=
    run_onPublishDone w s c
  rw [hrun]
  by_cases hown : publishing w s c
  · rw [if_pos hown, attended_clearStream hw]
    exact ⟨fun h _ => h, fun h => h hown⟩
  · rw [if_neg hown]
    exact iff_of_true hw fun h => absurd h hown

end Hooks

/-- A hook leaves no player without a publisher exactly if it meets its condition. -/
theorem attended_step (w : World) (e : HookEvent) (hw : Attended w) :
    Attended (e.step w) ↔ KeepsPublisher w e := by
  cases e with
  | tick t => exact iff_of_true hw trivial
  | call h =>
    cases h with
    | publish cfg r => exact attended_onPublish hw cfg r
    | play r => exact attended_onPlay hw r
    | publishDone s c => exact attended_onPublishDone hw s c
    | playDone s c =>
      show Attended (w.run (onPlayDone s c)).2 ↔ _
      rw [run_onPlayDone]
      exact attended_forget hw s c

/-- **Players never outlive their publisher** exactly in the runs all of whose steps meet their
condition. -/
theorem players_attended_iff (clock : ℤ) (es : List HookEvent) :
    (∀ past, past <+: es → Attended (runs HookEvent.step past (World.initial clock))) ↔
      Along HookEvent.step KeepsPublisher es (World.initial clock) :=
  (Along.iff_inv attended_step (attended_iff.2 fun _ _ h => by cases h)).symm

/-- A request of the client `c` for the stream `live` that is let in. -/
def requestOf (c : String) : Request where
  stream_name := "live"
  client_id := c
  auth_token := "t"

/-- A publisher, a player, and an `onPlayDone` under the name of the publisher: the player is left
behind. -/
theorem player_left_behind :
    let w := runs HookEvent.step [.call (.publish {} (requestOf "a")), .call (.play (requestOf "b")),
      .call (.playDone "live" "a")] (World.initial start)
    ¬ Attended w := by
  intro w h
  have hplayer : (w.run (getTask "live" "b")).1.any (fun t => t.type = .PLAYER) := by decide +kernel
  have hnone : (w.run (getPublisherTask "live")).1 = none := by decide +kernel
  obtain ⟨t, ht, htype⟩ := (Option.any_eq_true _ _).1 hplayer
  obtain ⟨p, hp⟩ := h "live" "b" t ht (of_decide_eq_true htype)
  cases hnone.symm.trans hp

end StreamGate.Scheduler
