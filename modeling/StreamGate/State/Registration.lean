import StreamGate.Lib.Rely
import StreamGate.State.Manager

/-!
# What a successful registration leaves behind

`registerTask` among other commands.  `Spares A s c T` is what the others must leave alone: the hash
of the task `t` until the millisecond `T`, its member index and, where it is the client's, the publisher
key.  Under such interference a call that returns `true` leaves the task registered
(`wp_registerTask`).  The conflict checks play no part in this: they only decide whether the call
gets there.
-/

namespace StreamGate.State

open StreamGate.Redis StreamGate.Task StreamGate.Lib

/-- The hash at `k` is that of the task `t`. -/
def Wrote (w : World) (k : Key) (t : StreamTask) : Prop :=
  ∃ old, w.fieldsAt k = some ((serializeTask t).over old)

/-- The publisher key of a stream, if there is one, has no time to live. -/
def PubFixed (s : String) (w : World) : Prop :=
  ∀ h, w.hashes (buildPublisherKey s) = some h → h.expireAt = none

/-- The publisher key of a stream names a client. -/
def HeldBy (s c : String) (w : World) : Prop :=
  ∃ x, w.hashes (buildPublisherKey s) = some x ∧ x.fields .client_id = some c

theorem Wrote.heldBy {w : World} {t : StreamTask} (h : Wrote w (buildPublisherKey t.stream_name) t) :
    HeldBy t.stream_name t.client_id w := by
  obtain ⟨old, ho⟩ := h
  obtain ⟨x, hx, hf⟩ := Option.map_eq_some_iff.1 ho
  exact ⟨x, hx, by rw [hf]; rfl⟩

/-- The indices of a task: the member and, for a publisher, the publisher key, and the list of publishers if `A`. -/
structure Indexed (A : Prop) (t : StreamTask) (w : World) : Prop where
  member : t.client_id ∈ w.sets (memberKey t.stream_name)
  pub : t.type = .PUBLISHER → Wrote w (buildPublisherKey t.stream_name) t
  active : A → t.type = .PUBLISHER → t.stream_name ∈ w.sets buildActivePublishersKey

/-- From `w` to `w'` the registration of a client on a stream has been left alone: its hash comes
from nobody else and is there until `T` at least, and its indices are there (the list of publishers if `A`). -/
structure Spares (A : Prop) (stream_name client_id : String) (T : ℤ) (w w' : World) : Prop where
  clock : w.clock ≤ w'.clock
  hash : ∀ h, w'.hashes (buildTaskKey stream_name client_id) = some h →
    w.hashes (buildTaskKey stream_name client_id) = some h
  alive : ∀ h, w.hashes (buildTaskKey stream_name client_id) = some h →
    (∀ d, h.expireAt = some d → T ≤ d) → w'.hashes (buildTaskKey stream_name client_id) = some h
  pubFixed : PubFixed stream_name w → PubFixed stream_name w'
  pub : PubFixed stream_name w → HeldBy stream_name client_id w →
    w'.hashes (buildPublisherKey stream_name) = w.hashes (buildPublisherKey stream_name)
  member : client_id ∈ w.sets (memberKey stream_name) → client_id ∈ w'.sets (memberKey stream_name)
  active : A → stream_name ∈ w.sets buildActivePublishersKey → stream_name ∈ w'.sets buildActivePublishersKey

namespace Spares

variable {A : Prop} {s c : String} {T : ℤ} {w w' w'' : World}

theorem refl (A : Prop) (s c : String) (T : ℤ) (w : World) : Spares A s c T w w :=
  ⟨le_rfl, fun _ => id, fun _ h _ => h, id, fun _ _ => rfl, id, fun _ => id⟩

theorem heldBy (h : Spares A s c T w w') (hw : PubFixed s w) (hh : HeldBy s c w) : HeldBy s c w' := by
  obtain ⟨x, hx, hc⟩ := hh
  exact ⟨x, (h.pub hw ⟨x, hx, hc⟩).trans hx, hc⟩

theorem trans (h : Spares A s c T w w') (h' : Spares A s c T w' w'') : Spares A s c T w w'' where
  clock := h.clock.trans h'.clock
  hash x hx := h.hash x (h'.hash x hx)
  alive x hx hd := h'.alive x (h.alive x hx hd) hd
  pubFixed hw := h'.pubFixed (h.pubFixed hw)
  pub hw hh := (h'.pub (h.pubFixed hw) (h.heldBy hw hh)).trans (h.pub hw hh)
  member hm := h'.member (h.member hm)
  active ha hm := h'.active ha (h.active ha hm)

/-- Time that does not pass `T` spares every registration. -/
theorem advance (A : Prop) (s c : String) {T x : ℤ} (hx : ms x ≤ T) (w : World) :
    Spares A s c T w (advance x w) := by
  unfold Redis.advance
  split
  · rename_i hc
    refine ⟨hc, fun h hh => (Option.filter_eq_some_iff.1 hh).1, fun h hh hd => ?_,
      fun hw h hh => hw h (Option.filter_eq_some_iff.1 hh).1, fun hw _ => ?_, id, fun _ => id⟩
    · refine Option.filter_eq_some_iff.2 ⟨hh, ?_⟩
      cases he : h.expireAt with
      | none => simp [Hash.expired, he]
      | some d =>
        have := hd d he
        simp only [Hash.expired, he, Option.any_some, Bool.not_eq_true', decide_eq_false_iff_not]
        omega
    · show Option.filter _ (w.hashes _) = _
      cases hp : w.hashes (buildPublisherKey s) with
      | none => rfl
      | some h => simp [Option.filter, Hash.expired, hw h hp]
  · exact refl A s c T w

end Spares

/-- A task is left alone. -/
abbrev SparesTask (A : Prop) (t : StreamTask) (T : ℤ) : World → World → Prop := Spares A t.stream_name t.client_id T

/-! ### The stages of a registration -/

section Stages

variable (A : Prop) (t : StreamTask) (T B : ℤ)

/-- The hash has been written and lives until `B`, if that is as long as it is spared. -/
def HashOk (w : World) : Prop :=
  T ≤ B → ∃ old d, B ≤ d ∧ w.hashes t.key = some ⟨(serializeTask t).over old, some d⟩

variable {A t T B}

theorem HashOk.spares {w w' : World} (h : HashOk t T B w) (hs : SparesTask A t T w w') : HashOk t T B w' := by
  intro hT
  obtain ⟨old, d, hd, hh⟩ := h hT
  refine ⟨old, d, hd, hs.alive _ hh ?_⟩
  rintro d' ⟨⟩
  omega

theorem Wrote.spares {w w' : World} (h : Wrote w (buildPublisherKey t.stream_name) t) (hfix : PubFixed t.stream_name w)
    (hs : SparesTask A t T w w') : Wrote w' (buildPublisherKey t.stream_name) t := by
  have hheld := h.heldBy
  obtain ⟨old, ho⟩ := h
  exact ⟨old, by rw [World.fieldsAt, hs.pub hfix hheld]; exact ho⟩

theorem Indexed.spares {w w' : World} (h : Indexed A t w) (hfix : PubFixed t.stream_name w)
    (hs : SparesTask A t T w w') : Indexed A t w' where
  member := hs.member h.member
  pub hp := (h.pub hp).spares hfix hs
  active ha hp := hs.active ha (h.active ha hp)

/-- Everything that a registration leaves. -/
structure Standing (A : Prop) (t : StreamTask) (T B : ℤ) (w : World) : Prop where
  hash : HashOk t T B w
  fixed : PubFixed t.stream_name w
  indexed : Indexed A t w

theorem Standing.spares {w w' : World} (h : Standing A t T B w) (hs : SparesTask A t T w w') :
    Standing A t T B w' :=
  ⟨h.hash.spares hs, hs.pubFixed h.fixed, h.indexed.spares h.fixed hs⟩

/-- The task is registered if the call returned `true`. -/
def Stands (A : Prop) (t : StreamTask) (T B : ℤ) (b : Bool) (w : World) : Prop := b = true → Standing A t T B w

/-- A call that rolls back returns `false`. -/
theorem rollBack_leaves (t : StreamTask) : (rollBack t).Leaves (· = false) :=
  Prog.Leaves.bind (Prog.leaves_true _) fun _ _ => rfl

theorem wp_rollBack {R : World → World → Prop} (w : World) : (rollBack t).wp handle R (Stands A t T B) w :=
  (rollBack_leaves t).wp (fun a _ ha hb => by rw [ha] at hb; cases hb) w

/-- The time stamps are no part of a registration that stands. -/
theorem Standing.setZset {w : World} (h : Standing A t T B w) (k : Key) (z : ZSet) :
    Standing A t T B (w.setZset k z) :=
  ⟨h.hash, h.fixed, h.indexed.member, h.indexed.pub, h.indexed.active⟩

theorem wp_registerTimestamp {w : World} (h : Standing A t T B w) :
    (registerTimestamp t).wp handle (SparesTask A t T) (Stands A t T B) w := by
  intro w₁ h₁
  show Prog.wp _ _ (if ¬ Reasonable (ms w₁.clock) then rollBack t else _) _ w₁
  split
  · exact wp_rollBack _
  · intro w₂ h₂
    refine ⟨fun w₃ h₃ _ => ?_, wp_rollBack _⟩
    rw [after_zadd] at h₃
    exact (((h.spares h₁).spares h₂).setZset _ _).spares h₃

theorem PubFixed.hset {s : String} {w : World} (h : PubFixed s w) (k : Key) (f : Fields) :
    PubFixed s (w.hset k f) := by
  intro x hx
  by_cases hk : buildPublisherKey s = k
  · subst hk
    rw [World.hset_self] at hx
    obtain rfl := Option.some.inj hx
    cases hw : w.hashes (buildPublisherKey s) with
    | none => rfl
    | some y => exact h y hw
  · rw [World.hset_of_ne _ _ _ _ hk] at hx
    exact h x hx

theorem HashOk.hset_of_ne {w : World} (h : HashOk t T B w) {k : Key} (hk : t.key ≠ k) (f : Fields) :
    HashOk t T B (w.hset k f) := by
  intro hT
  obtain ⟨old, d, hd, hh⟩ := h hT
  exact ⟨old, d, hd, by rw [World.hset_of_ne _ _ _ _ hk]; exact hh⟩

theorem wrote_hset (w : World) (k : Key) (t : StreamTask) : Wrote (w.hset k (serializeTask t)) k t :=
  ⟨_, by rw [World.fieldsAt, World.hset_self]; rfl⟩

theorem mem_setSet_add (w : World) (k : Key) (m : String) :
    m ∈ (w.setSet k ((w.sets k).add m)).sets k := by
  rw [World.setSet_self, RSet.mem_add]
  exact .inr rfl

/-- The publisher keys, member index and the time stamp of a publisher. -/
theorem wp_publisherPipeline {w : World} (hh : HashOk t T B w) (hf : PubFixed t.stream_name w) :
    (do
      let index_ok ← pipeline [.hset (buildPublisherKey t.stream_name) (serializeTask t),
        .sadd (memberKey t.stream_name) t.client_id, .sadd buildActivePublishersKey t.stream_name]
      if index_ok then registerTimestamp t else rollBack t : RProg Bool).wp handle (SparesTask A t T)
      (Stands A t T B) w := by
  intro w₁ h₁
  refine ⟨fun w₂ h₂ w₃ h₃ => ?_, wp_rollBack _⟩
  rw [after_hset] at h₂
  rw [after_sadd] at h₃ ⊢
  have hkey : t.key ≠ buildPublisherKey t.stream_name := nofun
  have hh₂ : HashOk t T B w₂ := ((hh.spares h₁).hset_of_ne hkey (serializeTask t)).spares h₂
  have hf₁ := (h₁.pubFixed hf).hset (buildPublisherKey t.stream_name) (serializeTask t)
  have hf₂ : PubFixed t.stream_name w₂ := h₂.pubFixed hf₁
  have hw₂ : Wrote w₂ (buildPublisherKey t.stream_name) t := by
    exact (wrote_hset w₁ (buildPublisherKey t.stream_name) t).spares hf₁ h₂
  have hh₃ : HashOk t T B w₃ := HashOk.spares (w := w₂.setSet _ _) hh₂ h₃
  have hf₃ : PubFixed t.stream_name w₃ := h₃.pubFixed hf₂
  have hw₃ : Wrote w₃ (buildPublisherKey t.stream_name) t := by
    exact Wrote.spares (w := w₂.setSet _ _) hw₂ hf₂ h₃
  have hm₃ := h₃.member (mem_setSet_add _ _ _)
  refine wp_registerTimestamp ⟨hh₃, hf₃, ?_, fun _ => hw₃, fun _ _ => mem_setSet_add _ _ _⟩
  have hset : memberKey t.stream_name ≠ buildActivePublishersKey := nofun
  rw [World.setSet_of_ne _ _ _ _ hset]
  exact hm₃

/-- The indices, for a publisher and for a player, and the time stamp after them. -/
theorem wp_registerIndices {w : World} (hh : HashOk t T B w) (hf : PubFixed t.stream_name w) :
    (registerIndices t).wp handle (SparesTask A t T) (Stands A t T B) w := by
  unfold registerIndices
  split
  · -- a second check that fails counts as passed
    intro w₁ h₁
    have hpipe := wp_publisherPipeline (A := A) (hh.spares h₁) (h₁.pubFixed hf)
    refine ⟨?_, hpipe⟩
    show Prog.wp _ _ ((if (readTask _).any _ then (return false) else pipeline _ : RProg Bool) >>= _) _ _
    split
    · exact wp_rollBack _
    · exact hpipe
  · rename_i hp
    intro w₁ h₁
    refine ⟨fun w₂ h₂ => ?_, wp_rollBack _⟩
    rw [after_sadd] at h₂
    have hh₁ : HashOk t T B w₁ := hh.spares h₁
    have hst : Standing A t T B (w₁.setSet _ _) := ⟨hh₁, h₁.pubFixed hf, mem_setSet_add _ _ _,
      fun h => absurd h hp, fun _ h => absurd h hp⟩
    have hst₂ := hst.spares h₂
    have hkey : t.key ≠ buildGlobalPlayerCountKey := nofun
    refine ⟨?_, wp_registerTimestamp hst₂⟩
    exact wp_registerTimestamp ⟨hst₂.hash.hset_of_ne hkey _, hst₂.fixed.hset _ _,
      hst₂.indexed.member, fun h => absurd h hp, fun _ h => absurd h hp⟩

/-- The hash: if the expiry has been set, the hash is the one written before. -/
theorem wp_registerHash {w : World} (hB : B ≤ ms w.clock + 1000 * TASK_TTL_SEC)
    (hf : PubFixed t.stream_name w) :
    (registerHash t).wp handle (SparesTask A t T) (Stands A t T B) w := by
  have hfalse : ∀ w, (Prog.ret false : RProg Bool).wp handle (SparesTask A t T)
      (Stands A t T B) w := fun _ _ _ h => Bool.noConfusion h
  intro w₁ h₁
  refine ⟨fun w₂ h₂ => ?_, hfalse w₁⟩
  rw [after_hset] at h₂
  refine ⟨?_, fun w₃ _ => ⟨hfalse _, hfalse _⟩⟩
  rw [after_expire]
  show Prog.wp _ _ (if (w₂.hashes t.key).isSome then registerIndices t else _) _ _
  split
  · rename_i hsome
    obtain ⟨h, hh⟩ := Option.isSome_iff_exists.1 hsome
    have hold : (w₁.hset t.key (serializeTask t)).hashes t.key = some h := h₂.hash h hh
    rw [World.hset_self] at hold
    have hfields := congrArg Hash.fields (Option.some.inj hold)
    have hkey : buildPublisherKey t.stream_name ≠ t.key := nofun
    have hf₂ := h₂.pubFixed ((h₁.pubFixed hf).hset t.key (serializeTask t))
    refine wp_registerIndices (fun _ => ⟨(w₁.fieldsAt t.key).getD fun _ => none,
      ms w₂.clock + 1000 * TASK_TTL_SEC, ?_, ?_⟩) ?_
    · have h12 : w₁.clock ≤ w₂.clock := h₂.clock
      exact hB.trans (Int.add_le_add_right (ms_mono (h₁.clock.trans h12)) _)
    · rw [World.expire_self, hh, Option.map_some]
      exact congrArg some (congrArg (Hash.mk · _) hfields.symm)
    · intro x hx
      rw [World.expire_of_ne _ _ _ _ hkey] at hx
      exact hf₂ x hx
  · intro w₃ _
    exact ⟨hfalse _, hfalse _⟩

end Stages

/-! ### The commands of a call -/

/-- The commands that calls for one task send, with the publisher keys (`type = .PUBLISHER`) or
without. -/
def OnTask (stream_name client_id : String) (type : StreamType) : Cmd → Prop
  | .hset k f =>
    (k = buildTaskKey stream_name client_id ∧ (type = .PLAYER → f .type = some "player")) ∨
      (type = .PUBLISHER ∧ k = buildPublisherKey stream_name)
  | .hincrby k _ _ => k = buildGlobalPlayerCountKey
  | .sadd k m | .srem k m =>
    (k = memberKey stream_name ∧ m = client_id) ∨
      (type = .PUBLISHER ∧ k = buildActivePublishersKey ∧ m = stream_name)
  | .zadd k m _ | .zrem k m => k = buildTaskTimestampZSetKey ∧ m = buildTaskKey stream_name client_id
  | .expire k _ => k = buildTaskKey stream_name client_id
  | .del k =>
    k = buildTaskKey stream_name client_id ∨ (type = .PUBLISHER ∧ k = buildPublisherKey stream_name)
  | .hgetall _ | .smembers _ | .scard _ | .zrangebyscore _ _ _ | .existsKey _ | .now => True

theorem obeys_ask {α : Type} {V : (c : Cmd) → c.Reply → Prop} {G : Cmd → Prop} {c : Cmd} (hc : G c) (d : α)
    (f : c.Reply → α) : (ask c d f).Obeys V G := ⟨hc, fun _ _ => trivial, trivial⟩

theorem obeys_sendRest {V : (c : Cmd) → c.Reply → Prop} {G : Cmd → Prop} {cs : List Cmd} (hcs : ∀ c ∈ cs, G c) :
    (sendRest cs).Obeys V G := by
  induction cs with
  | nil => trivial
  | cons c cs ih =>
    exact ⟨hcs c List.mem_cons_self, fun _ _ => ih fun x hx => hcs x (List.mem_cons_of_mem _ hx)⟩

theorem obeys_pipeline {V : (c : Cmd) → c.Reply → Prop} {G : Cmd → Prop} {cs : List Cmd} (hcs : ∀ c ∈ cs, G c) :
    (pipeline cs).Obeys V G := by
  cases cs with
  | nil => trivial
  | cons c cs =>
    refine ⟨hcs c List.mem_cons_self, fun _ _ => ?_, trivial⟩
    exact (obeys_sendRest fun x hx => hcs x (List.mem_cons_of_mem _ hx)).bind fun _ => trivial

section Commands

variable {s c : String} {type : StreamType} {V : (c : Cmd) → c.Reply → Prop}

theorem batchCmds_onTask {x : StreamType} (hx : type = .PUBLISHER ∨ x = .PLAYER) :
    ∀ cmd ∈ batchCmds ⟨s, c, x⟩, OnTask s c type cmd := by
  intro cmd hcmd
  cases x with
  | PLAYER =>
    simp only [batchCmds, List.cons_append, List.nil_append, List.mem_cons, List.not_mem_nil,
      or_false] at hcmd
    rcases hcmd with rfl | rfl | rfl
    · exact .inl rfl
    · exact .inl ⟨rfl, rfl⟩
    · rfl
  | PUBLISHER =>
    have htype : type = .PUBLISHER := hx.resolve_right nofun
    simp only [batchCmds, List.cons_append, List.nil_append, List.mem_cons, List.not_mem_nil,
      or_false] at hcmd
    rcases hcmd with rfl | rfl | rfl | rfl
    · exact .inl rfl
    · exact .inl ⟨rfl, rfl⟩
    · exact .inr ⟨htype, rfl⟩
    · exact .inr ⟨htype, rfl, rfl⟩

/-- The stored task of a client is no publisher. -/
def NoPublisher (fields : Option Fields) : Prop := ∀ t, readTask fields = some t → t.type = .PLAYER

theorem deregisterTask_obeys_of {G : Cmd → Prop} (hread : ∀ k, G (.hgetall k))
    (hzrem : G (.zrem buildTaskTimestampZSetKey (buildTaskKey s c)))
    (hbatch : ∀ f t, V (.hgetall (buildTaskKey s c)) f → readTask f = some t →
      ∀ cmd ∈ batchCmds ⟨s, c, t.type⟩, G cmd) : (deregisterTask s c).Obeys V G := by
  have hnone : (do
      let _ ← zsetRem buildTaskTimestampZSetKey (buildTaskKey s c)
      return true : RProg Bool).Obeys V G :=
    (obeys_ask hzrem _ _).bind fun _ => trivial
  refine ⟨hread _, fun f hf => ?_, hnone⟩
  dsimp only [Prog.pure_eq, Prog.bind, Option.elim, id]
  split
  · exact hnone
  · rename_i t ht
    exact Prog.Obeys.bind ((obeys_pipeline (by simpa using hbatch f t hf ht)).bind fun _ => trivial)
      fun _ => trivial

/-- What comes after the indices: the time stamp, or the way back. -/
theorem registerTimestamp_obeys_of {G : Cmd → Prop} {t : StreamTask} (hnow : G .now)
    (hzadd : ∀ x, G (.zadd buildTaskTimestampZSetKey t.key x))
    (hdereg : (deregisterTask t.stream_name t.client_id).Obeys V G) (b : Bool) :
    (if b then registerTimestamp t else rollBack t : RProg Bool).Obeys V G := by
  have hback : (rollBack t).Obeys V G := hdereg.bind fun _ => trivial
  cases b with
  | false => exact hback
  | true =>
    refine ⟨hnow, fun (now : ℤ) _ => ?_⟩
    show Prog.Obeys _ _ (if ¬ Reasonable (ms now) then rollBack t else _)
    split
    · exact hback
    · refine (obeys_ask (hzadd _) _ _).bind fun b => ?_
      cases b
      · exact hback
      · trivial

/-- The commands of a registration, each of which may be assumed to be of the kind `G`. -/
theorem registerTask_obeys_of {G : Cmd → Prop} {t : StreamTask} (hread : ∀ k, G (.hgetall k) ∧ G (.existsKey k))
    (hnow : G .now) (hput : G (.hset t.key (serializeTask t))) (hexpire : ∀ n, G (.expire t.key n))
    (hdel : G (.del t.key)) (hzadd : ∀ x, G (.zadd buildTaskTimestampZSetKey t.key x))
    (hpub : t.type = .PUBLISHER → G (.hset (buildPublisherKey t.stream_name) (serializeTask t)) ∧
      G (.sadd buildActivePublishersKey t.stream_name))
    (hmember : G (.sadd (memberKey t.stream_name) t.client_id))
    (hcount : t.type ≠ .PUBLISHER → G (.hincrby buildGlobalPlayerCountKey .total 1))
    (hdereg : (deregisterTask t.stream_name t.client_id).Obeys V G) : (registerTask t).Obeys V G := by
  have hend := registerTimestamp_obeys_of hnow hzadd hdereg
  have hindices : (registerIndices t).Obeys V G := by
    unfold registerIndices
    split
    · rename_i hp
      refine Prog.Obeys.bind (Prog.Obeys.bind ((obeys_ask (hread _).1 _ _).bind fun _ => trivial)
        fun current => ?_) hend
      split
      · trivial
      · refine obeys_pipeline fun cmd hcmd => ?_
        simp only [List.mem_cons, List.not_mem_nil, or_false] at hcmd
        rcases hcmd with rfl | rfl | rfl
        · exact (hpub hp).1
        · exact hmember
        · exact (hpub hp).2
    · rename_i hp
      refine Prog.Obeys.bind ((obeys_ask hmember _ _).bind fun b => ?_) hend
      cases b
      · trivial
      · exact Prog.Obeys.bind (obeys_ask (hcount hp) _ _) fun _ => trivial
  have hhash : (registerHash t).Obeys V G := by
    refine (obeys_ask hput _ _).bind fun b => ?_
    cases b
    · trivial
    · refine Prog.Obeys.bind (obeys_ask (hexpire _) _ _) fun b => ?_
      cases b
      · exact (obeys_ask hdel _ _).bind fun _ => trivial
      · exact hindices
  unfold registerTask
  split
  · refine Prog.Obeys.bind ((obeys_ask (hread _).1 _ _).bind fun _ => trivial) fun existing => ?_
    cases existing with
    | none => exact hhash
    | some p =>
      show Prog.Obeys _ _ (if p.client_id ≠ t.client_id then (return false) else _)
      split
      · trivial
      · exact hdereg.bind fun _ => hhash
  · refine (obeys_ask (hread _).2 _ _).bind fun b => ?_
    cases b
    · exact hhash
    · exact hdereg.bind fun _ => hhash

theorem obeys_batch {G : Cmd → Prop} {tasks : List TaskIdentifier}
    (h : ∀ t ∈ tasks, ∀ cmd ∈ batchCmds t, G cmd) : (deregisterTasksBatch tasks).Obeys V G := by
  unfold deregisterTasksBatch
  split
  · trivial
  · refine Prog.Obeys.bind (obeys_pipeline fun cmd hcmd => ?_) fun _ => trivial
    obtain ⟨t, ht, hcmd⟩ := List.mem_flatMap.1 hcmd
    exact h t ht cmd hcmd

theorem obeys_collectMembers {G : Cmd → Prop} (hG : ∀ k, G (.hgetall k)) (s : String) (cids : List String) :
    (collectMembers s cids).Obeys V G := by
  induction cids with
  | nil => trivial
  | cons c cids ih =>
    exact Prog.Obeys.bind (Prog.Obeys.bind (obeys_ask (hG _) _ _) fun _ => trivial) fun _ =>
      ih.bind fun _ => trivial

/-- Every task that is collected is one of a member. -/
theorem collectMembers_leaves (s : String) (cids : List String) :
    (collectMembers s cids).Leaves fun ids => ∀ id ∈ ids, id.streamName = s ∧ id.clientId ∈ cids := by
  induction cids with
  | nil => exact fun _ hid => by cases hid
  | cons c cids ih =>
    refine Prog.Leaves.bind (Prog.leaves_true _) fun t _ => ih.bind fun ids hids => ?_
    intro id hid
    rcases List.mem_append.1 hid with hid | hid
    · cases t with
      | none => cases hid
      | some t =>
        obtain rfl := List.mem_singleton.1 hid
        exact ⟨rfl, List.mem_cons_self⟩
    · exact ⟨(hids id hid).1, List.mem_cons_of_mem c (hids id hid).2⟩

theorem deregisterAllMembers_obeys_of {G : Cmd → Prop} {s : String} (hread : ∀ k, G (.smembers k) ∧ G (.hgetall k))
    (hbatch : ∀ members : List String, V (.smembers (memberKey s)) members → ∀ c ∈ members, ∀ ty,
      ∀ cmd ∈ batchCmds ⟨s, c, ty⟩, G cmd) (hdel : G (.del (memberKey s))) :
    (deregisterAllMembers s).Obeys V G := by
  have hend : (do let _ ← keyDel (memberKey s); return () : RProg Unit).Obeys V G :=
    (obeys_ask hdel _ _).bind fun _ => trivial
  refine ⟨(hread _).1, fun (members : List String) hmembers => ?_, hend⟩
  show Prog.Obeys _ _ (if members = [] then _ else _)
  split
  · exact hend
  · refine Prog.Obeys.bind_leaves (obeys_collectMembers (fun k => (hread k).2) s members)
      (collectMembers_leaves s members) fun ids hids => (obeys_batch fun id hid => ?_).bind fun _ => hend
    obtain ⟨s', c, ty⟩ := id
    obtain ⟨rfl, hc⟩ := hids _ hid
    exact hbatch members hmembers c hc ty

theorem touchTask_obeys_of {G : Cmd → Prop} (hnow : G .now)
    (hput : ∀ x, G (.hset (buildTaskKey s c) (Function.update (fun _ => none) .last_active_time_ms (some x))))
    (hexpire : ∀ n, G (.expire (buildTaskKey s c) n))
    (hzadd : ∀ x, G (.zadd buildTaskTimestampZSetKey (buildTaskKey s c) x)) (hdel : G (.del (buildTaskKey s c))) :
    (touchTask s c).Obeys V G := by
  refine ⟨hnow, fun (now : ℤ) _ => ⟨hput _, fun _ _ => ?_, trivial⟩⟩
  refine ⟨hexpire _, fun (alive : Bool) _ => ⟨hzadd _, fun _ _ => ?_⟩⟩
  show Prog.Obeys _ _ (if alive then (.ret true : RProg Bool) else _)
  split
  · trivial
  · exact (obeys_ask hdel _ _).bind fun _ => trivial

/-- The keys of the scan are those that it is given. -/
theorem scanLoop_obeys_of {G : Cmd → Prop} {now_ms timeout : ℤ} {keys : List Key}
    (hzrem : ∀ k ∈ keys, G (.zrem buildTaskTimestampZSetKey k)) (hread : ∀ k, G (.hgetall k))
    (hzadd : ∀ k ∈ keys, ∀ x, G (.zadd buildTaskTimestampZSetKey k x))
    (hdereg : ∀ k ∈ keys, ∀ f t, V (.hgetall k) f → readTask f = some t →
      (deregisterTask t.stream_name t.client_id).Obeys V G) : (scanLoop now_ms timeout keys).Obeys V G := by
  induction keys with
  | nil => trivial
  | cons k keys ih =>
    have ih := ih (fun k' h => hzrem k' (List.mem_cons_of_mem k h)) (fun k' h => hzadd k' (List.mem_cons_of_mem k h))
      fun k' h => hdereg k' (List.mem_cons_of_mem k h)
    refine Prog.Obeys.bind (obeys_ask (hzrem k List.mem_cons_self) _ _) fun b => ?_
    cases b with
    | false => exact ih
    | true =>
      refine ⟨hread k, fun f hf => ?_, ih⟩
      dsimp only [Prog.pure_eq, Prog.bind, Option.elim, id]
      split
      · exact ih
      · rename_i t ht
        show Prog.Obeys _ _ (if now_ms - ms t.last_active_time < timeout then _ else _)
        split
        · exact Prog.Obeys.bind (obeys_ask (hzadd k List.mem_cons_self _) _ _) fun _ => ih
        · exact (hdereg k List.mem_cons_self f t hf ht).bind fun _ => ih.bind fun _ => trivial

/-- A scan returns only tasks that it has read. -/
theorem scanLoop_gives {P : StreamTask → Prop} {now_ms timeout : ℤ} {keys : List Key}
    (h : ∀ k ∈ keys, ∀ f t, V (.hgetall k) f → readTask f = some t → P t) :
    (scanLoop now_ms timeout keys).Gives V fun expired => ∀ t ∈ expired, P t := by
  induction keys with
  | nil => exact fun _ ht => by cases ht
  | cons k keys ih =>
    have ih := ih fun k' hk' => h k' (List.mem_cons_of_mem k hk')
    refine Prog.Gives.bind (Prog.Leaves.gives (Prog.leaves_true _)) fun b _ => ?_
    cases b with
    | false => exact ih
    | true =>
      refine ⟨fun f hf => ?_, ih⟩
      dsimp only [Prog.pure_eq, Prog.bind, Option.elim, id]
      split
      · exact ih
      · rename_i t ht
        show Prog.Gives _ _ (if now_ms - ms t.last_active_time < timeout then _ else _)
        split
        · exact Prog.Gives.bind (Prog.Leaves.gives (Prog.leaves_true _)) fun _ _ => ih
        · refine Prog.Gives.bind (Prog.Leaves.gives (Prog.leaves_true _)) fun _ _ => ih.bind fun ts hts => ?_
          exact List.forall_mem_cons.2 ⟨h k List.mem_cons_self f t hf ht, hts⟩

theorem deregisterTask_obeys
    (hV : type = .PUBLISHER ∨ ∀ f, V (.hgetall (buildTaskKey s c)) f → NoPublisher f) :
    (deregisterTask s c).Obeys V (OnTask s c type) :=
  deregisterTask_obeys_of (fun _ => trivial) ⟨rfl, rfl⟩ fun f t hf ht =>
    batchCmds_onTask (hV.imp_right fun h => h f hf t ht)

/-- A registration sends only commands for its task. -/
theorem registerTask_obeys {t : StreamTask} (ht : type = .PUBLISHER ∨ t.type = .PLAYER)
    (hV : type = .PUBLISHER ∨ ∀ f, V (.hgetall t.key) f → NoPublisher f) :
    (registerTask t).Obeys V (OnTask t.stream_name t.client_id type) := by
  have hplayer : type = .PLAYER → serializeTask t .type = some "player" := fun hp => by
    have : t.type = .PLAYER := ht.resolve_left (by rw [hp]; exact nofun)
    show some t.type.toString = _
    rw [this]; rfl
  have hpub : t.type = .PUBLISHER → type = .PUBLISHER := fun hp => ht.resolve_right (by rw [hp]; exact nofun)
  exact registerTask_obeys_of (fun _ => ⟨trivial, trivial⟩) trivial (.inl ⟨rfl, hplayer⟩) (fun _ => rfl) (.inl rfl)
    (fun _ => ⟨rfl, rfl⟩) (fun hp => ⟨.inr ⟨hpub hp, rfl⟩, .inr ⟨hpub hp, rfl, rfl⟩⟩) (.inl ⟨rfl, rfl⟩)
    (fun _ => rfl) (deregisterTask_obeys hV)

/-- Only `EXPIRE` sets a time to live on the publisher key. -/
theorem PubFixed.after {cmd : Cmd} (h : ∀ n, cmd ≠ .expire (buildPublisherKey s) n) {w : World} (hf : PubFixed s w) :
    PubFixed s (handle cmd w).2 := by
  cases cmd with
  | hset k f => exact hf.hset k f
  | hincrby k f n => exact hf.hset k _
  | expire k n =>
    have hk : buildPublisherKey s ≠ k := by
      rintro rfl
      exact h n rfl
    intro x hx
    rw [after_expire, World.expire_of_ne _ _ _ _ hk] at hx
    exact hf x hx
  | del k =>
    intro x hx
    by_cases hk : buildPublisherKey s = k
    · rw [after_del, hk, World.del_hashes_self] at hx
      cases hx
    · rw [after_del, World.del_hashes_of_ne _ _ _ hk] at hx
      exact hf x hx
  | _ => exact hf

theorem OnTask.pubFixed {s' : String} {cmd : Cmd} (h : OnTask s c type cmd) {w : World} (hf : PubFixed s' w) :
    PubFixed s' (handle cmd w).2 := by
  refine hf.after ?_
  rintro n rfl
  exact Key.noConfusion (h : buildPublisherKey s' = buildTaskKey s c)

end Commands

/-! ### A whole call -/

section Call

variable {A : Prop} {t : StreamTask} {T B : ℤ}

/-- What a call needs of the world when it writes the hash: the hash will live until `B`. -/
def Early (stream_name : String) (B : ℤ) (w : World) : Prop :=
  B ≤ ms w.clock + 1000 * TASK_TTL_SEC ∧ PubFixed stream_name w

theorem Early.spares {s c : String} {w w' : World} (h : Early s B w) (hs : Spares A s c T w w') :
    Early s B w' :=
  ⟨h.1.trans (Int.add_le_add_right (ms_mono hs.clock) _), hs.pubFixed h.2⟩

/-- Whatever a call does for its task before, it then writes the hash. -/
theorem wp_then_registerHash {α : Type} {p : RProg α}
    (hp : p.Only (OnTask t.stream_name t.client_id .PUBLISHER)) {w : World}
    (hw : Early t.stream_name B w) :
    (do let _ ← p; registerHash t : RProg Bool).wp handle (SparesTask A t T) (Stands A t T B) w := by
  have hbefore : p.wp handle (SparesTask A t T) (fun _ => Early t.stream_name B) w := by
    refine Prog.Obeys.wp (fun cmd v hcmd hv => ⟨?_, hcmd.pubFixed hv.2⟩) (fun _ _ _ => trivial)
      (fun _ _ hs h => h.spares hs) hp hw
    rw [after_clock]
    exact hv.1
  exact Prog.wp_bind (Spares.refl A _ _ T)
    (Prog.wp_mono (fun _ _ (h : Early t.stream_name B _) => wp_registerHash h.1 h.2) hbefore)

/-- **A registration that returns `true` stands**, whatever else happens to Redis, as long as the
task is spared: its indices are there, and its hash too if it is spared no longer than its time to
live. -/
theorem wp_registerTask {w : World} (hw : Early t.stream_name B w) :
    (registerTask t).wp handle (SparesTask A t T) (Stands A t T B) w := by
  have hdereg : (deregisterTask t.stream_name t.client_id).Only
      (OnTask t.stream_name t.client_id .PUBLISHER) := deregisterTask_obeys (.inl rfl)
  have hhash : ∀ w', Early t.stream_name B w' → (registerHash t).wp handle (SparesTask A t T) (Stands A t T B) w' :=
    fun w' h => wp_registerHash h.1 h.2
  unfold registerTask
  split
  · intro w₁ h₁
    have hw₁ := hw.spares h₁
    refine ⟨?_, hhash w₁ hw₁⟩
    dsimp only [Prog.pure_eq, Prog.bind, Option.elim, id]
    split
    · exact hhash w₁ hw₁
    · rename_i p _
      show Prog.wp _ _ (if p.client_id ≠ t.client_id then (return false) else _) _ _
      split
      · exact fun _ _ h => Bool.noConfusion h
      · exact wp_then_registerHash hdereg hw₁
  · intro w₁ h₁
    have hw₁ := hw.spares h₁
    refine ⟨?_, hhash w₁ hw₁⟩
    show Prog.wp _ _ (if w₁.hasKey t.key then _ else _) _ _
    split
    · exact wp_then_registerHash hdereg hw₁
    · exact hhash w₁ hw₁

/-- The same for a call that has only read so far, whatever it has read. -/
theorem registerTask_upto :
    (registerTask t).Upto Reads fun p =>
      ∀ w, Early t.stream_name B w → p.wp handle (SparesTask A t T) (Stands A t T B) w := by
  have hhash : (registerHash t).Upto Reads fun p =>
      ∀ w, Early t.stream_name B w → p.wp handle (SparesTask A t T) (Stands A t T B) w :=
    ⟨fun h => h.elim, fun _ w hw => wp_registerHash hw.1 hw.2⟩
  have hzrem : (zsetRem buildTaskTimestampZSetKey t.key).Only
      (OnTask t.stream_name t.client_id .PUBLISHER) := obeys_ask ⟨rfl, rfl⟩ _ _
  have hagain : (do
      let _ ← deregisterTask t.stream_name t.client_id
      registerHash t : RProg Bool).Upto Reads fun p =>
      ∀ w, Early t.stream_name B w → p.wp handle (SparesTask A t T) (Stands A t T B) w := by
    refine ⟨fun _ f => ?_, fun h => absurd trivial h⟩
    dsimp only [Prog.pure_eq, Prog.bind]
    split
    · have hp : (do
          let _ ← zsetRem buildTaskTimestampZSetKey t.key
          return true : RProg Bool).Only (OnTask t.stream_name t.client_id .PUBLISHER) :=
        hzrem.bind fun _ => trivial
      exact ⟨fun h => h.elim, fun _ w hw => wp_then_registerHash hp hw⟩
    · rename_i x _
      have hp : (do
          let n ← deregisterTasksBatch [⟨t.stream_name, t.client_id, x.type⟩]
          return decide (0 < n) : RProg Bool).Only (OnTask t.stream_name t.client_id .PUBLISHER) :=
        Prog.Obeys.bind ((obeys_pipeline (by simpa using batchCmds_onTask (.inl rfl))).bind
          fun _ => trivial) fun _ => trivial
      exact ⟨fun h => h.elim, fun _ w hw => wp_then_registerHash hp hw⟩
  unfold registerTask
  split
  · refine ⟨fun _ f => ?_, fun h => absurd trivial h⟩
    dsimp only [Prog.pure_eq, Prog.bind]
    split
    · exact hhash
    · rename_i p _
      show Prog.Upto _ _ (if p.client_id ≠ t.client_id then (return false) else _)
      split
      · exact fun _ _ _ _ h => Bool.noConfusion h
      · exact hagain
  · refine ⟨fun _ b => ?_, fun h => absurd trivial h⟩
    show Prog.Upto _ _ (if b.elim false id then _ else _)
    split
    · exact hagain
    · exact hhash

end Call

end StreamGate.State
