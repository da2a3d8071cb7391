import StreamGate.State.Again
import StreamGate.State.Cascade

/-!
# What the state manager is for

A `Registry` of who publishes and who plays, without keys, hashes and indices: a table of entries, in which a stream has
at most one publisher.  `Refines` says that a store stands for a registry, and the operations of the state manager keep
it, each with the effect that the operation of the same name has on the table.

A stream name without a colon is needed, as names with one share keys, and a clock and times in the accepted range, as
other tasks cannot be read.  Nothing may expire: the indices of a task whose hash has run out stay behind.
-/

namespace StreamGate.State

open StreamGate.Redis StreamGate.Task StreamGate.Lib

/-- A client on a stream. -/
structure Entry where
  /-- As it was registered. -/
  registered : StreamTask
  /-- Its last activity. -/
  last_active_time : ℤ
  /-- The millisecond of its registration or of the last heartbeat. -/
  seen : ℤ

/-- As it is now. -/
def Entry.task (e : Entry) : StreamTask := { e.registered with last_active_time := e.last_active_time }

@[simp] theorem Entry.task_type (e : Entry) : e.task.type = e.registered.type := rfl

/-- The clients on the streams. -/
structure Registry where
  entry : String → String → Option Entry
  /-- Who publishes a stream. -/
  owner : String → Option String
  named : ∀ s c e, entry s c = some e → e.registered.stream_name = s ∧ e.registered.client_id = c
  owned : ∀ s c, owner s = some c ↔ ∃ e, entry s c = some e ∧ e.registered.type = .PUBLISHER

namespace Registry

variable {r : Registry} {s c : String} {t : StreamTask}

/-- The owner is among the entries. -/
theorem ext {r r' : Registry} (he : ∀ s c, r'.entry s c = r.entry s c) : r' = r := by
  have ho : r'.owner = r.owner := by
    funext s
    refine Option.ext fun c => ?_
    rw [r'.owned, r.owned, he]
  cases r with
  | mk e o _ _ =>
    cases r' with
    | mk e' o' _ _ =>
      obtain rfl : e' = e := funext fun s => funext (he s)
      obtain rfl : o' = o := ho
      rfl

def empty : Registry where
  entry _ _ := none
  owner _ := none
  named _ _ _ h := nomatch h
  owned _ _ := by simp

/-! ### Queries -/

def task (r : Registry) (s c : String) : Option StreamTask := (r.entry s c).map Entry.task

/-- Heartbeats do not show here. -/
def publisher (r : Registry) (s : String) : Option StreamTask :=
  (r.owner s).bind fun c => (r.entry s c).map Entry.registered

theorem publisher_eq_some {p : StreamTask} (h : r.publisher s = some p) :
    ∃ e, r.owner s = some p.client_id ∧ r.entry s p.client_id = some e ∧ e.registered = p := by
  obtain ⟨c, ho, h⟩ := Option.bind_eq_some_iff.1 h
  obtain ⟨e, he, rfl⟩ := Option.map_eq_some_iff.1 h
  obtain ⟨-, rfl⟩ := r.named s c e he
  exact ⟨e, ho, he, rfl⟩

theorem publisher_of_owner (h : r.owner s = some c) :
    ∃ e, r.entry s c = some e ∧ r.publisher s = some e.registered := by
  obtain ⟨e, he, -⟩ := (r.owned s c).1 h
  refine ⟨e, he, ?_⟩
  rw [publisher, h, Option.bind_some, he, Option.map_some]

theorem publisher_stream {p : StreamTask} (h : r.publisher s = some p) : p.stream_name = s := by
  obtain ⟨e, -, he, rfl⟩ := publisher_eq_some h
  exact (r.named s _ e he).1

theorem publisher_eq_none : r.publisher s = none ↔ r.owner s = none := by
  constructor
  · intro h
    by_contra hne
    obtain ⟨c, ho⟩ := Option.ne_none_iff_exists'.1 hne
    obtain ⟨e, -, hp⟩ := publisher_of_owner ho
    rw [h] at hp
    cases hp
  · intro h
    rw [publisher, h, Option.bind_none]

/-! ### Removal -/

/-- The entries that meet a condition. -/
def filter (p : String → String → Entry → Bool) (r : Registry) : Registry where
  entry s c := (r.entry s c).filter (p s c)
  owner s := (r.owner s).filter fun c => (r.entry s c).any (p s c)
  named s c e h := r.named s c e (Option.filter_eq_some_iff.1 h).1
  owned s c := by
    simp only [Option.filter_eq_some_iff, r.owned]
    constructor
    · rintro ⟨⟨e, he, hp⟩, hany⟩
      rw [he, Option.any_some] at hany
      exact ⟨e, ⟨he, hany⟩, hp⟩
    · rintro ⟨e, ⟨he, hpe⟩, hp⟩
      refine ⟨⟨e, he, hp⟩, ?_⟩
      rw [he]
      exact hpe

/-- `deregisterTask`. -/
def erase (s c : String) : Registry → Registry := filter fun s' c' _ => ¬ (s' = s ∧ c' = c)

/-- `deregisterAllMembers`. -/
def clear (s : String) : Registry → Registry := filter fun s' _ _ => s' ≠ s

/-- `scanTimeoutTasks`: what was not seen after the millisecond `t` goes. -/
def expire (t : ℤ) : Registry → Registry := filter fun _ _ e => t < e.seen

theorem filter_congr {p q : String → String → Entry → Bool}
    (h : ∀ s c e, r.entry s c = some e → p s c e = q s c e) : r.filter p = r.filter q := by
  refine ext fun s c => ?_
  show (r.entry s c).filter _ = (r.entry s c).filter _
  cases he : r.entry s c with
  | none => rfl
  | some e => rw [Option.filter_some, Option.filter_some, h s c e he]

theorem filter_eq_self {p : String → String → Entry → Bool} (h : ∀ s c e, r.entry s c = some e → p s c e = true) :
    r.filter p = r := by
  refine ext fun s c => ?_
  show (r.entry s c).filter _ = r.entry s c
  cases he : r.entry s c with
  | none => rfl
  | some e => rw [Option.filter_some, if_pos (h s c e he)]

theorem filter_filter (p q : String → String → Entry → Bool) :
    (r.filter p).filter q = r.filter fun s c e => p s c e && q s c e :=
  ext fun s c => by
    show ((r.entry s c).filter _).filter _ = _
    rw [Option.filter_filter]
    rfl

theorem filter_of_owner {p : String → String → Entry → Bool} {e : Entry} (ho : r.owner s = some c)
    (he : r.entry s c = some e) : (r.filter p).owner s = if p s c e then some c else none := by
  show (r.owner s).filter _ = _
  rw [ho, Option.filter_some, he, Option.any_some]

theorem filter_of_free {p : String → String → Entry → Bool} (ho : r.owner s = none) : (r.filter p).owner s = none := by
  show (r.owner s).filter _ = _
  rw [ho, Option.filter_none]

theorem erase_entry (s c s' c' : String) :
    (r.erase s c).entry s' c' = if s' = s ∧ c' = c then none else r.entry s' c' := by
  show (r.entry s' c').filter _ = _
  cases r.entry s' c' with
  | none => exact (ite_self _).symm
  | some e => simp only [Option.filter_some, decide_eq_true_eq, ite_not]

theorem erase_owner (s c s' : String) :
    (r.erase s c).owner s' = if s' = s ∧ r.owner s = some c then none else r.owner s' := by
  cases ho : r.owner s' with
  | none => exact (filter_of_free ho).trans (ite_self _).symm
  | some c' =>
    obtain ⟨e, he, -⟩ := (r.owned s' c').1 ho
    apply (filter_of_owner ho he).trans
    by_cases hs : s' = s
    · subst hs
      simp [ho]
    · simp [hs]

theorem clear_entry (s s' c' : String) : (r.clear s).entry s' c' = if s' = s then none else r.entry s' c' := by
  show (r.entry s' c').filter _ = _
  cases r.entry s' c' <;> simp [Option.filter_some]

theorem clear_owner (s s' : String) : (r.clear s).owner s' = if s' = s then none else r.owner s' := by
  cases ho : r.owner s' with
  | none => exact (filter_of_free ho).trans (ite_self _).symm
  | some c' =>
    obtain ⟨e, he, -⟩ := (r.owned s' c').1 ho
    apply (filter_of_owner ho he).trans
    simp

theorem expire_entry (t : ℤ) (s c : String) :
    (r.expire t).entry s c = (r.entry s c).filter fun e => t < e.seen := rfl

/-- The tasks that were not seen after the millisecond `t`. -/
def Overdue (r : Registry) (t : ℤ) (u : StreamTask) : Prop := ∃ s c e, r.entry s c = some e ∧ e.seen ≤ t ∧ e.task = u

/-! ### Registration -/

/-- Another client publishes the stream. -/
def Taken (r : Registry) (t : StreamTask) : Prop :=
  t.type = .PUBLISHER ∧ ∃ c, r.owner t.stream_name = some c ∧ c ≠ t.client_id

instance (r : Registry) (t : StreamTask) : Decidable (r.Taken t) :=
  decidable_of_iff (t.type = .PUBLISHER ∧ (r.owner t.stream_name).any fun c => c ≠ t.client_id) (by
    rw [Taken, Option.any_eq_true]
    simp)

/-- `registerTask` at `now`, if it is not refused. -/
def put (now : ℤ) (t : StreamTask) (r : Registry) (h : ¬ r.Taken t) : Registry where
  entry s c :=
    if s = t.stream_name ∧ c = t.client_id then some ⟨t.stored, t.stored.last_active_time, ms now⟩ else r.entry s c
  owner s :=
    if s = t.stream_name then
      if t.type = .PUBLISHER then some t.client_id else (r.owner s).filter fun c => c ≠ t.client_id
    else r.owner s
  named s c e he := by
    split at he
    · rename_i hsc
      obtain rfl := Option.some.inj he
      exact ⟨hsc.1.symm, hsc.2.symm⟩
    · exact r.named s c e he
  owned s c := by
    by_cases hs : s = t.stream_name
    · subst hs
      have howned := r.owned t.stream_name c
      by_cases hc : c = t.client_id
      · subst hc
        by_cases hp : t.type = .PUBLISHER
        · simp [hp]
        · simp [hp, Option.filter_eq_some_iff]
      · simp only [if_true, hc, and_false, if_false]
        rw [← howned]
        by_cases hp : t.type = .PUBLISHER
        · rw [if_pos hp]
          refine ⟨fun h => absurd (Option.some.inj h).symm hc, fun ho => absurd ⟨hp, c, ho, hc⟩ h⟩
        · simp [hp, Option.filter_eq_some_iff, hc]
    · simp only [hs, if_false, false_and]
      exact r.owned s c

/-- `registerTask`. -/
def register (now : ℤ) (t : StreamTask) (r : Registry) : Bool × Registry :=
  if h : r.Taken t then (false, r) else (true, r.put now t h)

theorem register_fst (now : ℤ) (t : StreamTask) (r : Registry) : (r.register now t).1 = decide (¬ r.Taken t) := by
  unfold register
  split
  · rename_i h
    exact (decide_eq_false (not_not.2 h)).symm
  · rename_i h
    exact (decide_eq_true h).symm

/-- A heartbeat, of which a client that is not registered knows nothing. -/
def touch (now : ℤ) (s c : String) (r : Registry) : Registry where
  entry s' c' :=
    (r.entry s' c').map fun e => if s' = s ∧ c' = c then ⟨e.registered, ms now * 1000000, ms now⟩ else e
  owner := r.owner
  named s' c' e he := by
    obtain ⟨e', he', rfl⟩ := Option.map_eq_some_iff.1 he
    split
    · exact r.named s' c' e' he'
    · exact r.named s' c' e' he'
  owned s' c' := by
    rw [r.owned]
    constructor
    · rintro ⟨e, he, hp⟩
      rw [he]
      refine ⟨_, rfl, ?_⟩
      split
      · exact hp
      · exact hp
    · rintro ⟨e, he, hp⟩
      obtain ⟨e', he', rfl⟩ := Option.map_eq_some_iff.1 he
      refine ⟨e', he', ?_⟩
      split at hp
      · exact hp
      · exact hp

theorem put_entry {now : ℤ} (h : ¬ r.Taken t) (s c : String) : (r.put now t h).entry s c =
    if s = t.stream_name ∧ c = t.client_id then some ⟨t.stored, t.stored.last_active_time, ms now⟩ else r.entry s c :=
  rfl

theorem put_owner {now : ℤ} (h : ¬ r.Taken t) (s : String) : (r.put now t h).owner s =
    if s = t.stream_name then
      if t.type = .PUBLISHER then some t.client_id else (r.owner s).filter fun c => c ≠ t.client_id
    else r.owner s := rfl

/-- Only a publisher takes the stream, unless the client was its publisher. -/
theorem put_owner_new {now : ℤ} (h : ¬ r.Taken t) (hnew : t.type = .PLAYER → r.entry t.stream_name t.client_id = none)
    (s : String) : (r.put now t h).owner s =
      if s = t.stream_name ∧ t.type = .PUBLISHER then some t.client_id else r.owner s := by
  rw [put_owner]
  by_cases hs : s = t.stream_name
  · subst hs
    by_cases hp : t.type = .PUBLISHER
    · simp [hp]
    · simp only [if_true, hp, and_false, if_false]
      cases ho : r.owner t.stream_name with
      | none => rfl
      | some c =>
        obtain ⟨e, he, -⟩ := (r.owned _ _).1 ho
        have hne : c ≠ t.client_id := by
          rintro rfl
          rw [hnew (type_eq_player hp)] at he
          cases he
        simp [Option.filter_some, hne]
  · simp [hs]

theorem Taken.of_erase (h : (r.erase t.stream_name t.client_id).Taken t) : r.Taken t := by
  obtain ⟨hp, c, ho, hne⟩ := h
  rw [erase_owner] at ho
  split at ho
  · cases ho
  · exact ⟨hp, c, ho, hne⟩

/-- The old entry does not matter. -/
theorem put_erase {now : ℤ} (h : ¬ r.Taken t) (h' : ¬ (r.erase t.stream_name t.client_id).Taken t) :
    (r.erase t.stream_name t.client_id).put now t h' = r.put now t h := by
  refine ext fun s c => ?_
  rw [put_entry, put_entry, erase_entry]
  split <;> rfl

theorem touch_self (now : ℤ) (s c : String) : (r.touch now s c).entry s c =
    (r.entry s c).map fun e => ⟨e.registered, ms now * 1000000, ms now⟩ := by
  simp [touch]

theorem touch_of_ne {now : ℤ} {s c s' c' : String} (h : ¬ (s' = s ∧ c' = c)) :
    (r.touch now s c).entry s' c' = r.entry s' c' := by
  simp [touch, h]

theorem touch_publisher (now : ℤ) (s c s' : String) : (r.touch now s c).publisher s' = r.publisher s' := by
  refine Option.bind_congr fun c' _ => ?_
  by_cases heq : s' = s ∧ c' = c
  · obtain ⟨rfl, rfl⟩ := heq
    rw [touch_self, Option.map_map]
    rfl
  · rw [touch_of_ne heq]

end Registry

/-! ### Stores that stand for a registry -/

theorem Ordered.stamped {w : World} (hw : Ordered w) (z : ZSet) : Ordered (w.setZset buildTaskTimestampZSetKey z) where
  task := hw.task
  pub := hw.pub
  total := hw.total
  hash := hw.hash
  set := hw.set
  zset k hk := by
    have hne : k ≠ buildTaskTimestampZSetKey := by
      rintro rfl
      exact hk rfl
    exact (World.setZset_of_ne _ _ _ _ hne).trans (hw.zset k hk)

theorem Ordered.indexed {w : World} {t : StreamTask} (hw : Ordered w) (ht : t.Readable) :
    Ordered (indexTask t (State.putTask t w)) := by
  have hput := hw.putTask t
  unfold indexTask
  split
  · have hpub : Fair (.hset (buildPublisherKey t.stream_name) (serializeTask t)) := .inr ⟨_, t, rfl, ht, rfl⟩
    have hmember : Fair (.sadd (memberKey t.stream_name) t.client_id) := rfl
    have hactive : Fair (.sadd buildActivePublishersKey t.stream_name) := rfl
    exact ((hput.after hpub).after hmember).after hactive
  · have hmember : Fair (.sadd (memberKey t.stream_name) t.client_id) := rfl
    have htotal : Fair (.hincrby buildGlobalPlayerCountKey .total 1) := ⟨rfl, rfl⟩
    exact (hput.after hmember).after htotal

theorem beat_of_ne (now : ℤ) (f : Fields) {k : Field} (h : k ≠ .last_active_time_ms) :
    (beat now).over f k = f k := by
  simp [beat, Fields.over, Function.update_of_ne h]

/-- A task after a heartbeat. -/
theorem deserialize_beat {f : Fields} {t : StreamTask} {now : ℤ} (h : deserializeTask f = some t)
    (hclock : Reasonable (ms now)) :
    deserializeTask ((beat now).over f) = some { t with last_active_time := ms now * 1000000 } := by
  have hk := fun k => beat_of_ne now f (k := k)
  have hl : (beat now).over f .last_active_time_ms = some (Decimal.to_string (ms now)) := rfl
  unfold deserializeTask at h ⊢
  split at h
  · cases h
  · rename_i hreq
    have hreq' : ¬ (required.any fun k => ((beat now).over f k).isNone) = true := by
      simp only [required, List.any_cons, List.any_nil, hl, hk _ (show Field.stream_name ≠ _ by decide)] at hreq ⊢
      simp_all
    rw [if_neg hreq']
    simp only [hl, hk, ne_eq, reduceCtorEq, not_false_eq_true, Option.getD_some,
      Decimal.stoll_to_string hclock.fits] at h ⊢
    split at h
    · cases h
    · rename_i htype
      rw [if_neg htype]
      split at h
      · rename_i start_ms last_ms hs hl'
        split at h
        · cases h
        · rename_i hr
          obtain rfl := Option.some.inj h
          have hr' : ¬ (¬ Reasonable start_ms ∨ ¬ Reasonable (ms now)) :=
            fun hn => hn.elim (fun hn => hr (.inl hn)) fun hn => hn hclock
          simp only [hs, if_neg hr']
      · cases h
theorem deserialize_of_type {f : Fields} (h : f .type = none) : deserializeTask f = none := by
  refine Option.eq_none_iff_forall_ne_some.2 fun t ht => ?_
  rw [(deserialize_some ht).2.2.1] at h
  cases h

/-- What cannot be read is no more than a heartbeat has left. -/
def Legible : World → Prop := Stored fun _ x => deserializeTask x.fields = none → x.fields .type = none

theorem Legible.putTask {w : World} {t : StreamTask} (hw : Legible w) (ht : t.Readable) : Legible (putTask t w) := by
  refine Stored.putTask hw fun _ old _ _ hnone => ?_
  rw [show deserializeTask ((serializeTask t).over old) = _ from deserialize_over t old, if_pos ht] at hnone
  cases hnone

theorem Legible.touch {w : World} (hw : Legible w) (hclock : Reasonable (ms w.clock)) (s c : String) :
    Legible (touch s c w) := by
  refine Stored.touch hw (fun _ _ _ => rfl) fun _ x _ hx hnone => ?_
  refine (beat_of_ne w.clock x.fields (by decide)).trans (hx ?_)
  refine Option.eq_none_iff_forall_ne_some.2 fun t ht => ?_
  rw [show deserializeTask ((beat w.clock).over x.fields) = _ from deserialize_beat ht hclock] at hnone
  cases hnone

/-- What the store has for the clients of the registry, and for nobody else. -/
structure Refines (w : World) (r : Registry) : Prop where
  ordered : Ordered w
  legible : Legible w
  task : ∀ s c, NoColon s → taskAt w (buildTaskKey s c) = r.task s c
  publisher : ∀ s, pubAt w s = r.publisher s
  member : ∀ s c, c ∈ w.sets (.members s) ↔ r.entry s c ≠ none
  active : ∀ s, s ∈ w.sets .active_pubs ↔ r.owner s ≠ none
  plain : ∀ s c, r.entry s c ≠ none → NoColon s
  /-- A time stamp may outlive its task. -/
  stamp : ∀ s c e, r.entry s c = some e →
    (w.zsets buildTaskTimestampZSetKey).score (buildTaskKey s c) = some e.seen ∧
      ms e.last_active_time ≤ e.seen ∧ 0 ≤ e.seen
  stamped : ∀ k, (w.zsets buildTaskTimestampZSetKey).score k ≠ none → ∃ s c, NoColon s ∧ k = buildTaskKey s c

namespace Refines

variable {w w' : World} {r : Registry} {s c : String} {t : StreamTask}

theorem initial (clock : ℤ) : Refines (World.initial clock) .empty where
  ordered := .initial clock
  legible := .initial clock
  task _ _ _ := rfl
  publisher _ := rfl
  member _ _ := by simp [World.initial, Registry.empty]
  active _ := by simp [World.initial, Registry.empty]
  plain _ _ h := absurd rfl h
  stamp _ _ _ h := nomatch h
  stamped _ h := absurd rfl h

/-- The publisher's own entry. -/
theorem publishing_iff (h : Refines w r) (hs : NoColon s) : publishing w s c ↔ r.owner s = some c := by
  rw [publishing, h.task s c hs, Registry.task, Option.any_map, Option.any_eq_true, r.owned]
  exact exists_congr fun e => and_congr_right fun _ => decide_eq_true_iff

/-! ### Removal -/

/-- A client that cannot be read is not registered. -/
theorem unread (h : Refines w r) (hs : NoColon s) (ht : taskAt w (buildTaskKey s c) = none) : r.entry s c = none := by
  rw [h.task s c hs] at ht
  exact Option.map_eq_none_iff.1 ht

theorem mem_forget_members (h : Refines w r) (hs : NoColon s) {s' c' : String} :
    c' ∈ (State.forget s c w).sets (.members s') ↔ c' ∈ w.sets (.members s') ∧ ¬ (s' = s ∧ c' = c) := by
  cases ht : taskAt w (buildTaskKey s c) with
  | none =>
    rw [forget_none ht, World.setZset_sets]
    refine ⟨fun hm => ⟨hm, ?_⟩, And.left⟩
    rintro ⟨rfl, rfl⟩
    exact (h.member s' c').1 hm (h.unread hs ht)
  | some t =>
    rw [forget_some ht, dropTask_members]
    by_cases hss : s' = s
    · subst hss
      rw [if_pos rfl, RSet.mem_rem]
      simp
    · simp [hss]

theorem mem_forget_active (h : Refines w r) (hs : NoColon s) {s' : String} :
    s' ∈ (State.forget s c w).sets .active_pubs ↔ s' ∈ w.sets .active_pubs ∧ ¬ (s' = s ∧ r.owner s = some c) := by
  rw [← h.publishing_iff hs]
  cases hp : publishing w s c with
  | false =>
    rw [forget_active w s c hp]
    simp
  | true =>
    obtain ⟨t, ht, htype⟩ := (Option.any_eq_true _ _).1 hp
    rw [forget_some ht, dropTask_active, if_pos (of_decide_eq_true htype), RSet.mem_rem]
    simp

theorem forget (h : Refines w r) (hs : NoColon s) : Refines (forget s c w) (r.erase s c) where
  ordered := h.ordered.forget s c
  legible := Stored.drops (forget_drops w s c) h.legible
  task s' c' hs' := by
    have hkey : buildTaskKey s' c' = buildTaskKey s c ↔ s' = s ∧ c' = c := taskKey_inj hs' hs
    have hread : taskAt (State.forget s c w) (buildTaskKey s' c') =
      if buildTaskKey s' c' = buildTaskKey s c then none else taskAt w (buildTaskKey s' c') := taskAt_forget w s c _
    rw [hread, Registry.task, Registry.erase_entry]
    by_cases heq : s' = s ∧ c' = c
    · rw [if_pos heq, if_pos (hkey.2 heq)]
      rfl
    · rw [if_neg heq, if_neg fun e => heq (hkey.1 e)]
      exact h.task s' c' hs'
  publisher s' := by
    have hpub := h.publishing_iff hs (c := c)
    rw [pubAt_forget, Registry.publisher, Registry.erase_owner]
    by_cases hown : s' = s ∧ r.owner s = some c
    · rw [if_pos hown, if_pos ⟨hpub.2 hown.2, hown.1⟩]
      rfl
    · rw [if_neg hown, if_neg fun hp => hown ⟨hp.2, hpub.1 hp.1⟩, h.publisher]
      refine Option.bind_congr fun c' ho => ?_
      rw [Registry.erase_entry, if_neg]
      rintro ⟨rfl, rfl⟩
      exact hown ⟨rfl, ho⟩
  member s' c' := by
    rw [h.mem_forget_members hs, h.member, Registry.erase_entry]
    split <;> simp_all
  active s' := by
    rw [h.mem_forget_active hs, h.active, Registry.erase_owner]
    split <;> simp_all
  plain s' c' he := by
    rw [Registry.erase_entry] at he
    split at he
    · exact absurd rfl he
    · exact h.plain s' c' he
  stamp s' c' e he := by
    rw [Registry.erase_entry] at he
    split at he
    · cases he
    · rename_i hne
      have hs' := h.plain s' c' (he ▸ Option.some_ne_none e)
      rw [forget_score_of_ne fun hk => hne ((taskKey_inj hs' hs).1 hk)]
      exact h.stamp s' c' e he
  stamped k hk := by
    by_cases hne : k = buildTaskKey s c
    · exact ⟨s, c, hs, hne⟩
    · rw [forget_score_of_ne hne] at hk
      exact h.stamped k hk

/-- A stored publisher is that of the registry. -/
theorem publisher_of_hash (h : Refines w r) {x : Hash} (hx : w.hashes (.pub s) = some x) :
    ∃ e c, r.owner s = some c ∧ r.entry s c = some e ∧ x.fields .client_id = some c := by
  obtain ⟨t, ht, rfl⟩ := h.ordered.pub s x hx
  have hread : pubAt w s = some t.stored := by
    rw [pubAt, World.fieldsAt, buildPublisherKey, hx]
    exact (deserialize_serialize t).trans (if_pos ht)
  rw [h.publisher] at hread
  obtain ⟨e, ho, he, -⟩ := Registry.publisher_eq_some hread
  exact ⟨e, t.client_id, ho, he, rfl⟩

theorem streamFits (h : Refines w r) (hs : NoColon s) : StreamFits w s where
  members c := by
    rw [memberKey, h.member, h.task s c hs, Registry.task, Option.isSome_map, Option.isSome_iff_ne_none]
  owner f hf := by
    obtain ⟨x, hx, rfl⟩ := Option.map_eq_some_iff.1 hf
    obtain ⟨e, c, ho, he, hc⟩ := h.publisher_of_hash hx
    exact ⟨c, (h.member s c).2 (he ▸ Option.some_ne_none e), hc, (h.publishing_iff hs).2 ho⟩
  active hs' := by
    obtain ⟨c, ho⟩ := Option.ne_none_iff_exists'.1 ((h.active s).1 hs')
    obtain ⟨e, -, hp⟩ := Registry.publisher_of_owner ho
    rw [← h.publisher] at hp
    obtain ⟨x, hx, -⟩ := pubAt_eq_some hp
    simp [World.fieldsAt, buildPublisherKey, hx]

theorem mem_clearStream_members {s' c' : String} (hss : s' ≠ s) :
    c' ∈ (clearStream s w).sets (.members s') ↔ c' ∈ w.sets (.members s') := by
  have hne : Key.members s' ≠ memberKey s := fun e => hss (Key.members.inj e)
  rw [clearStream, World.del_sets_of_ne _ _ _ hne, mem_dropTasks_members]
  refine and_iff_right ?_
  rintro ⟨id, hid, rfl, -⟩
  exact hss (mem_memberTasks hid).1

theorem clearStream_zsets (w : World) (s : String) :
    (clearStream s w).zsets buildTaskTimestampZSetKey = w.zsets buildTaskTimestampZSetKey := by
  have hne : buildTaskTimestampZSetKey ≠ memberKey s := nofun
  refine (World.del_zsets_of_ne _ _ _ hne).trans ?_
  induction memberTasks w s (w.sets (memberKey s)).elems generalizing w with
  | nil => rfl
  | cons id ids ih => exact (ih _).trans (dropTask_zsets w id)

theorem clear (h : Refines w r) (hs : NoColon s) : Refines (clearStream s w) (r.clear s) where
  ordered := by
    have := h.ordered.run (deregisterAllMembers_fair s)
    rwa [run_deregisterAllMembers] at this
  legible := Stored.drops (clearStream_drops w s) h.legible
  task s' c' hs' := by
    have hread : taskAt (clearStream s w) (buildTaskKey s' c') =
      if ∃ m ∈ w.sets (memberKey s), buildTaskKey s' c' = buildTaskKey s m then none
      else taskAt w (buildTaskKey s' c') := taskAt_clearStream w s _
    rw [hread, Registry.task, Registry.clear_entry, h.task s' c' hs', Registry.task]
    by_cases hss : s' = s
    · subst hss
      rw [if_pos rfl]
      split
      · rfl
      · -- a client that is no member has no entry
        rename_i hno
        have hnone : r.entry s' c' = none := by
          by_contra hne
          exact hno ⟨c', (h.member s' c').2 hne, rfl⟩
        rw [hnone]
    · rw [if_neg hss, if_neg]
      rintro ⟨m, -, hk⟩
      exact hss ((taskKey_inj hs' hs).1 hk).1
  publisher s' := by
    rw [Registry.publisher, Registry.clear_owner]
    by_cases hss : s' = s
    · subst hss
      rw [if_pos rfl]
      exact pubAt_of_none (h.streamFits hs).clearStream.pub
    · rw [if_neg hss, pubAt_clearStream, if_neg fun hp => hss hp.2, h.publisher]
      refine Option.bind_congr fun c' _ => ?_
      rw [Registry.clear_entry, if_neg hss]
  member s' c' := by
    rw [Registry.clear_entry]
    by_cases hss : s' = s
    · subst hss
      have hempty : (clearStream s' w).sets (.members s') = .empty := clearStream_members w s'
      rw [if_pos rfl, hempty]
      simp
    · rw [if_neg hss, mem_clearStream_members hss, h.member]
  active s' := by
    have hc := (h.streamFits hs).clearStream
    rw [Registry.clear_owner]
    by_cases hss : s' = s
    · subst hss
      rw [if_pos rfl]
      exact iff_of_false hc.active fun hn => hn rfl
    · rw [if_neg hss, ← h.active]
      exact hc.other s' hss
  plain s' c' he := by
    rw [Registry.clear_entry] at he
    split at he
    · exact absurd rfl he
    · exact h.plain s' c' he
  stamp s' c' e he := by
    rw [Registry.clear_entry] at he
    split at he
    · cases he
    · rw [clearStream_zsets]
      exact h.stamp s' c' e he
  stamped := by
    rw [clearStream_zsets]
    exact h.stamped

/-! ### Registration -/

/-- The store refuses whom the registry refuses. -/
theorem barred_iff (h : Refines w r) : Barred w t ↔ r.Taken t := by
  refine and_congr_right fun _ => ?_
  rw [h.publisher]
  constructor
  · rintro ⟨p, hp, hne⟩
    obtain ⟨e, ho, -⟩ := Registry.publisher_eq_some hp
    exact ⟨_, ho, hne⟩
  · rintro ⟨c, ho, hne⟩
    obtain ⟨e, he, hp⟩ := Registry.publisher_of_owner ho
    exact ⟨_, hp, (r.named _ c e he).2 ▸ hne⟩

/-- The writes of a registration, where the client is not registered as something else. -/
theorem put (h : Refines w r) (hs : NoColon t.stream_name) (ht : t.Readable) (hclock : Reasonable (ms w.clock))
    (hlast : ms t.last_active_time ≤ ms w.clock) (hnot : ¬ r.Taken t)
    (hown : t.type = .PLAYER → r.entry t.stream_name t.client_id = none) :
    Refines (finish t (indexTask t (putTask t w))).2 (r.put w.clock t hnot) := by
  have hw := h.ordered.written (t := t)
  have howner : ∀ s, (r.put w.clock t hnot).owner s =
      if s = t.stream_name ∧ t.type = .PUBLISHER then some t.client_id else r.owner s :=
    fun s => Registry.put_owner_new hnot hown s
  rw [finish_true (by rw [indexTask_clock, putTask_clock]; exact hclock), indexTask_clock, putTask_clock,
    indexTask_zsets, putTask_zsets]
  refine ⟨(h.ordered.indexed ht).stamped _,
    (h.legible.putTask ht).mono fun body _ hx => indexTask_task (t := t) body ▸ hx, fun s c hsc => ?_, fun s => ?_,
    fun s c => ?_, fun s => ?_, fun s c he => ?_, fun s c e he => ?_, fun k hk => ?_⟩
  · rw [Registry.task, Registry.put_entry]
    by_cases heq : s = t.stream_name ∧ c = t.client_id
    · obtain ⟨rfl, rfl⟩ := heq
      have hread : taskAt (indexTask t (putTask t w)) t.key = some t.stored := by
        rw [taskAt, World.fieldsAt, hw.1]
        exact (deserialize_serialize t).trans (if_pos ht)
      rw [if_pos ⟨rfl, rfl⟩]
      exact hread
    · have hkey : buildTaskKey s c ≠ t.key := fun e => heq ((taskKey_inj hsc hs).1 e)
      rw [if_neg heq]
      refine (taskAt_congr ?_).trans (h.task s c hsc)
      exact (indexTask_task _).trans ((putTask_task w _ t).trans (if_neg hkey))
  · rw [Registry.publisher, howner]
    by_cases hnew : s = t.stream_name ∧ t.type = .PUBLISHER
    · obtain ⟨rfl, hp⟩ := hnew
      have hread : pubAt (indexTask t (putTask t w)) t.stream_name = some t.stored := by
        rw [pubAt, World.fieldsAt, buildPublisherKey, (hw.2.2.1 hp).1]
        exact (deserialize_serialize t).trans (if_pos ht)
      rw [if_pos ⟨rfl, hp⟩, Option.bind_some, Registry.put_entry, if_pos ⟨rfl, rfl⟩]
      exact hread
    · rw [if_neg hnew]
      have hread : pubAt (indexTask t (putTask t w)) s = pubAt w s := by
        refine pubAt_congr ((indexTask_pub s).trans ?_)
        split
        · rename_i hp
          rw [indexPublisher_pub, if_neg fun hss => hnew ⟨hss, hp⟩, putTask_pub]
        · exact putTask_pub w s t
      refine hread.trans ((h.publisher s).trans (Option.bind_congr fun c ho => ?_))
      rw [Registry.put_entry, if_neg]
      rintro ⟨rfl, rfl⟩
      -- the owner of the stream does not come as a player
      obtain ⟨e, he, -⟩ := (r.owned _ _).1 ho
      rw [hown (type_eq_player fun hp => hnew ⟨rfl, hp⟩)] at he
      cases he
  · rw [Registry.put_entry, World.setZset_sets, indexTask_members, putTask_sets]
    have hmember := h.member s c
    by_cases hss : s = t.stream_name
    · subst hss
      rw [if_pos rfl, RSet.mem_add, hmember]
      by_cases hc : c = t.client_id <;> simp [hc]
    · simpa [hss] using hmember
  · rw [howner, World.setZset_sets, indexTask_active, putTask_sets]
    have hactive := h.active s
    by_cases hp : t.type = .PUBLISHER
    · rw [if_pos hp, RSet.mem_add, hactive]
      by_cases hss : s = t.stream_name <;> simp [hss, hp]
    · simpa [hp] using hactive
  · rw [Registry.put_entry] at he
    split at he
    · rename_i heq
      exact heq.1 ▸ hs
    · exact h.plain s c he
  · rw [World.setZset_self, ZSet.score_add]
    rw [Registry.put_entry] at he
    split at he
    · rename_i heq
      obtain rfl := Option.some.inj he
      obtain ⟨rfl, rfl⟩ := heq
      refine ⟨if_pos rfl, ?_, ?_⟩
      · simpa [StreamTask.stored] using hlast
      · exact le_trans (by decide) hclock.1
    · rename_i hne
      have hsc := h.plain s c (he ▸ Option.some_ne_none e)
      have hkey : buildTaskKey s c ≠ t.key := fun hk => hne ((taskKey_inj hsc hs).1 hk)
      rw [if_neg hkey]
      exact h.stamp s c e he
  · rw [World.setZset_self, ZSet.score_add] at hk
    split at hk
    · rename_i hkey
      exact ⟨_, _, hs, hkey⟩
    · exact h.stamped k hk

/-- What a registration takes out first. -/
theorem cleared (h : Refines w r) (hs : NoColon t.stream_name) :
    Refines (cleared t w) (r.erase t.stream_name t.client_id) ∨
      (cleared t w = w ∧ (t.type = .PLAYER → r.entry t.stream_name t.client_id = none)) := by
  unfold State.cleared
  by_cases hp : t.type = .PUBLISHER
  · rw [if_pos hp]
    split
    · exact .inl (h.forget hs)
    · exact .inr ⟨rfl, fun hplay => absurd (hp.symm.trans hplay) nofun⟩
  · rw [if_neg hp]
    split
    · exact .inl (h.forget hs)
    · rename_i hno
      refine .inr ⟨rfl, fun _ => h.unread hs (taskAt_of_none ?_)⟩
      have hno := Bool.eq_false_iff.2 hno
      simp only [World.hasKey, Bool.or_eq_false_iff] at hno
      have hnone : w.hashes t.key = none := by simpa using hno.1.1
      exact hnone

/-- **`registerTask`** replies and registers as the registry does. -/
theorem register (h : Refines w r) (hs : NoColon t.stream_name) (ht : t.Readable) (hclock : Reasonable (ms w.clock))
    (hlast : ms t.last_active_time ≤ ms w.clock) :
    (w.run (registerTask t)).1 = (r.register w.clock t).1 ∧
      Refines (w.run (registerTask t)).2 (r.register w.clock t).2 := by
  by_cases htaken : r.Taken t
  · rw [Registry.register, dif_pos htaken, run_registerTask_barred (h.barred_iff.2 htaken)]
    exact ⟨rfl, h⟩
  · rw [Registry.register, dif_neg htaken, h.ordered.run_registerTask fun hb => htaken (h.barred_iff.1 hb)]
    have hclock' : (State.cleared t w).clock = w.clock := cleared_clock
    have hdone : (finish t (indexTask t (putTask t (State.cleared t w)))).1 = true := by
      rw [finish_true]
      rw [indexTask_clock, putTask_clock, hclock']
      exact hclock
    refine ⟨hdone, ?_⟩
    rcases h.cleared hs with hc | ⟨hsame, hnew⟩
    · have hnot : ¬ (r.erase t.stream_name t.client_id).Taken t := fun h => htaken h.of_erase
      rw [← Registry.put_erase htaken hnot, ← hclock']
      refine hc.put hs ht (hclock' ▸ hclock) (hclock' ▸ hlast) hnot fun _ => ?_
      rw [Registry.erase_entry, if_pos ⟨rfl, rfl⟩]
    · rw [hsame]
      exact h.put hs ht hclock hlast htaken hnew

/-! ### Heartbeats and time -/

theorem touch (h : Refines w r) (hs : NoColon s) (hclock : Reasonable (ms w.clock)) :
    Refines (touch s c w) (r.touch w.clock s c) where
  ordered := by
    have := h.ordered.run (touchTask_fair s c)
    rwa [run_touchTask] at this
  legible := h.legible.touch hclock s c
  task s' c' hs' := by
    have htask := h.task s' c' hs'
    by_cases heq : s' = s ∧ c' = c
    · obtain ⟨rfl, rfl⟩ := heq
      have hash : (State.touch s' c' w).hashes (buildTaskKey s' c') = _ := (touch_task w s' c' _).trans (if_pos rfl)
      rw [taskAt, World.fieldsAt, hash, Registry.task, Registry.touch_self, Option.map_map]
      cases he : r.entry s' c' with
      | none =>
        rw [Registry.task, he] at htask
        have hbare : ((w.fieldsAt (buildTaskKey s' c')).getD fun _ => none) .type = none := by
          cases hx : w.hashes (buildTaskKey s' c') with
          | none =>
            rw [World.fieldsAt, hx]
            rfl
          | some x =>
            rw [taskAt, World.fieldsAt, hx] at htask
            rw [World.fieldsAt, hx]
            exact h.legible _ x hx htask
        exact deserialize_of_type ((beat_of_ne w.clock _ (by decide)).trans hbare)
      | some e =>
        rw [Registry.task, he] at htask
        obtain ⟨x, hx, hread⟩ := taskAt_eq_some htask
        have hbeat := deserialize_beat hread hclock
        rw [World.fieldsAt, hx]
        exact hbeat
    · have hkey : buildTaskKey s' c' ≠ buildTaskKey s c := fun e => heq ((taskKey_inj hs' hs).1 e)
      rw [Registry.task, Registry.touch_of_ne heq]
      exact (taskAt_congr ((touch_task w s c _).trans (if_neg hkey))).trans htask
  publisher s' := by
    rw [pubAt_congr (touch_pub w s c s'), h.publisher, Registry.touch_publisher]
  member s' c' := by
    rw [touch_sets, h.member]
    simp [Registry.touch]
  active s' := by
    rw [touch_sets]
    exact h.active s'
  plain s' c' he := h.plain s' c' (by simpa [Registry.touch] using he)
  stamp s' c' e he := by
    rw [touch_zset, ZSet.score_add]
    by_cases heq : s' = s ∧ c' = c
    · obtain ⟨rfl, rfl⟩ := heq
      rw [Registry.touch_self] at he
      obtain ⟨e', -, rfl⟩ := Option.map_eq_some_iff.1 he
      refine ⟨if_pos rfl, ?_, le_trans (by decide) hclock.1⟩
      rw [ms_mul]
    · rw [Registry.touch_of_ne heq] at he
      have hs' := h.plain s' c' (he ▸ Option.some_ne_none e)
      rw [if_neg fun hk => heq ((taskKey_inj hs' hs).1 hk)]
      exact h.stamp s' c' e he
  stamped k hk := by
    rw [touch_zset, ZSet.score_add] at hk
    split at hk
    · rename_i hkey
      exact ⟨s, c, hs, hkey⟩
    · exact h.stamped k hk

/-- Time passes, and no task runs out. -/
theorem advance (h : Refines w r) {now : ℤ}
    (hlast : ∀ body x, w.hashes (.task body) = some x → x.expired (ms now) = false) : Refines (advance now w) r := by
  have htask : ∀ body, (Redis.advance now w).hashes (.task body) = w.hashes (.task body) := by
    intro body
    unfold Redis.advance
    split
    · cases hx : w.hashes (.task body) with
      | none => simp [hx]
      | some x => simp [hx, hlast body x hx]
    · rfl
  have hpub : ∀ s, (Redis.advance now w).hashes (.pub s) = w.hashes (.pub s) := fun s =>
    h.ordered.pubsKept.advance_eq now s
  have hsets : (Redis.advance now w).sets = w.sets := by
    unfold Redis.advance
    split <;> rfl
  have hzsets : (Redis.advance now w).zsets = w.zsets := by
    unfold Redis.advance
    split <;> rfl
  exact
    { ordered := h.ordered.advance now
      legible := Stored.advance h.legible now
      task := fun s c hs => (taskAt_congr (htask _)).trans (h.task s c hs)
      publisher := fun s => (pubAt_congr (hpub s)).trans (h.publisher s)
      member := fun s c => hsets ▸ h.member s c
      active := fun s => hsets ▸ h.active s
      plain := h.plain
      stamp := hzsets ▸ h.stamp
      stamped := hzsets ▸ h.stamped }

/-! ### The scan -/

/-- A client that is not registered needs no time stamp. -/
theorem unstamp (h : Refines w r) (hs : NoColon s) (hnone : r.entry s c = none) :
    Refines (w.setZset buildTaskTimestampZSetKey
      ((w.zsets buildTaskTimestampZSetKey).rem (buildTaskKey s c))) r :=
  { h with
    ordered := h.ordered.stamped _
    stamp := fun s' c' e he => by
      have hs' := h.plain s' c' (he ▸ Option.some_ne_none e)
      rw [World.setZset_self, ZSet.score_rem, if_neg]
      · exact h.stamp s' c' e he
      · intro hk
        obtain ⟨rfl, rfl⟩ := (taskKey_inj hs' hs).1 hk
        rw [hnone] at he
        cases he
    stamped := fun k hk => by
      rw [World.setZset_self, ZSet.score_rem] at hk
      split at hk
      · exact absurd rfl hk
      · exact h.stamped k hk }

theorem dropTask_setZset (id : TaskIdentifier) (w : World) (z : ZSet) :
    dropTask id (w.setZset buildTaskTimestampZSetKey z) = (dropTask id w).setZset buildTaskTimestampZSetKey z := by
  obtain ⟨s, c, ty⟩ := id
  refine World.ext (fun k => ?_) (fun k => ?_) (fun k => ?_) ?_
  · cases ty <;> rfl
  · cases ty <;> rfl
  · by_cases hk : k = buildTaskTimestampZSetKey
    · subst hk
      rw [buildTaskTimestampZSetKey, dropTask_zsets, World.setZset_self, World.setZset_self]
    · cases ty <;>
        simp [dropTask, after, batchCmds, World.hincrby, World.del_zsets_apply, World.setZset_apply, hk]
  · rw [dropTask_clock, World.setZset_clock, World.setZset_clock, dropTask_clock]

/-- One candidate, which was last active too long ago if it is registered. -/
theorem scanKey (h : Refines w r) (hs : NoColon s) {now_ms timeout : ℤ}
    (hz : ((w.zsets buildTaskTimestampZSetKey).score (buildTaskKey s c)).isSome)
    (hold : ∀ e, r.entry s c = some e → ms e.last_active_time ≤ now_ms - timeout) :
    (scanKey now_ms timeout (buildTaskKey s c) w).1 = r.task s c ∧
      Refines (scanKey now_ms timeout (buildTaskKey s c) w).2 (r.erase s c) ∧
      ∀ k, k ≠ buildTaskKey s c →
        ((scanKey now_ms timeout (buildTaskKey s c) w).2.zsets buildTaskTimestampZSetKey).score k =
          (w.zsets buildTaskTimestampZSetKey).score k := by
  have htask := h.task s c hs
  unfold State.scanKey
  rw [if_pos hz]
  dsimp only
  cases he : r.entry s c with
  | none =>
    rw [Registry.task, he, Option.map_none] at htask
    rw [htask, Registry.task, he]
    refine ⟨rfl, ?_, fun k hk => ?_⟩
    · have := h.forget hs (c := c)
      rwa [forget_none htask] at this
    · rw [World.setZset_self, ZSet.score_rem, if_neg hk]
  | some e =>
    rw [Registry.task, he, Option.map_some] at htask
    have hlate : ¬ now_ms - ms e.task.last_active_time < timeout := by
      have hle : ms e.task.last_active_time ≤ now_ms - timeout := hold e he
      omega
    obtain ⟨hname, hclient⟩ := r.named s c e he
    have hname : e.task.stream_name = s := hname
    have hclient : e.task.client_id = c := hclient
    simp only [htask, if_neg hlate, hname, hclient]
    have hread : taskAt (w.setZset buildTaskTimestampZSetKey
        ((w.zsets buildTaskTimestampZSetKey).rem (buildTaskKey s c))) (buildTaskKey s c) = some e.task := htask
    refine ⟨by rw [Registry.task, he]; rfl, ?_, fun k hk => ?_⟩
    · have hforget := h.forget hs (c := c)
      rw [forget_some htask] at hforget
      have := hforget.unstamp hs (c := c) (by rw [Registry.erase_entry, if_pos ⟨rfl, rfl⟩])
      rw [forget_some hread, dropTask_setZset]
      rwa [buildTaskTimestampZSetKey, dropTask_zsets] at this
    · rw [forget_score_of_ne hk, World.setZset_self, ZSet.score_rem, if_neg hk]

/-- The clients with an old time stamp, one after the other. -/
theorem scanLoop {clients : List (String × String)} (h : Refines w r) (now_ms timeout : ℤ) (hn : clients.Nodup)
    (hs : ∀ p ∈ clients, NoColon p.1)
    (hz : ∀ p ∈ clients, ((w.zsets buildTaskTimestampZSetKey).score (buildTaskKey p.1 p.2)).isSome)
    (hold : ∀ p ∈ clients, ∀ e, r.entry p.1 p.2 = some e → ms e.last_active_time ≤ now_ms - timeout) :
    (w.run (scanLoop now_ms timeout (clients.map fun p => buildTaskKey p.1 p.2))).1 =
        clients.filterMap (fun p => r.task p.1 p.2) ∧
      Refines (w.run (scanLoop now_ms timeout (clients.map fun p => buildTaskKey p.1 p.2))).2
        (r.filter fun s c _ => (s, c) ∉ clients) := by
  induction clients generalizing w r with
  | nil =>
    refine ⟨rfl, ?_⟩
    have hsame : (r.filter fun s c _ => (s, c) ∉ ([] : List (String × String))) = r :=
      Registry.filter_eq_self fun s c e _ => decide_eq_true List.not_mem_nil
    rw [hsame]
    exact h
  | cons p clients ih =>
    obtain ⟨s, c⟩ := p
    obtain ⟨hnew, hn⟩ := List.nodup_cons.1 hn
    obtain ⟨hs0, hs⟩ := List.forall_mem_cons.1 hs
    obtain ⟨hz0, hz⟩ := List.forall_mem_cons.1 hz
    obtain ⟨hold0, hold⟩ := List.forall_mem_cons.1 hold
    obtain ⟨hfound, hrest, hscore⟩ := h.scanKey hs0 hz0 hold0
    have hne : ∀ p ∈ clients, ¬ (p.1 = s ∧ p.2 = c) := by
      rintro p hp ⟨rfl, rfl⟩
      exact hnew hp
    have hentry : ∀ p ∈ clients, (r.erase s c).entry p.1 p.2 = r.entry p.1 p.2 := by
      intro p hp
      rw [Registry.erase_entry, if_neg (hne p hp)]
    obtain ⟨hlist, href⟩ := ih hrest hn hs (fun p hp => by
      rw [hscore _ fun hk => hne p hp ((taskKey_inj (hs p hp) hs0).1 hk)]
      exact hz p hp) fun p hp e he => hold p hp e (hentry p hp ▸ he)
    rw [List.map_cons, run_scanLoop_cons]
    refine ⟨?_, ?_⟩
    · dsimp only
      rw [hfound, hlist, List.filterMap_cons]
      have hsame : clients.filterMap (fun p => (r.erase s c).task p.1 p.2) =
          clients.filterMap fun p => r.task p.1 p.2 :=
        List.filterMap_congr fun p hp => by rw [Registry.task, Registry.task, hentry p hp]
      rw [hsame]
      cases r.task s c <;> rfl
    · have hsame : ((r.erase s c).filter fun s' c' _ => (s', c') ∉ clients) =
          r.filter fun s' c' _ => (s', c') ∉ (s, c) :: clients := by
        rw [Registry.erase, Registry.filter_filter]
        refine Registry.filter_congr fun s' c' e _ => ?_
        rw [← Bool.decide_and, decide_eq_decide, List.mem_cons, Prod.mk.injEq, not_or]
      rw [← hsame]
      exact href

/-- Time stamps are those of clients. -/
theorem exists_clients (h : Refines w r) (keys : List Key)
    (hkeys : ∀ k ∈ keys, (w.zsets buildTaskTimestampZSetKey).score k ≠ none) :
    ∃ clients : List (String × String), keys = clients.map (fun p => buildTaskKey p.1 p.2) ∧
      ∀ p ∈ clients, NoColon p.1 := by
  induction keys with
  | nil => exact ⟨[], rfl, nofun⟩
  | cons k keys ih =>
    obtain ⟨hk, hrest⟩ := List.forall_mem_cons.1 hkeys
    obtain ⟨s, c, hs, rfl⟩ := h.stamped k hk
    obtain ⟨clients, rfl, hclients⟩ := ih hrest
    exact ⟨(s, c) :: clients, rfl, List.forall_mem_cons.2 ⟨hs, hclients⟩⟩

/-- **`scanTimeoutTasks`** returns and takes out what the registry holds to be overdue. -/
theorem scan (h : Refines w r) (timeout : ℤ) :
    (∀ u, u ∈ (w.run (scanTimeoutTasks timeout)).1 ↔ r.Overdue (ms w.clock - timeout) u) ∧
      Refines (w.run (scanTimeoutTasks timeout)).2 (r.expire (ms w.clock - timeout)) := by
  rw [run_scanTimeoutTasks]
  have hmem : ∀ k, k ∈ (w.zsets buildTaskTimestampZSetKey).rangeByScore 0 (ms w.clock - timeout) ↔ _ :=
    fun k => ZSet.mem_rangeByScore
  have hnodup := ZSet.nodup_rangeByScore (w.zsets buildTaskTimestampZSetKey) 0 (ms w.clock - timeout)
  obtain ⟨clients, hkeys, hs⟩ := h.exists_clients ((w.zsets buildTaskTimestampZSetKey).rangeByScore 0
    (ms w.clock - timeout)) fun k hk => by
      obtain ⟨x, hx, -⟩ := (hmem k).1 hk
      exact hx ▸ Option.some_ne_none x
  rw [hkeys] at hmem hnodup ⊢
  have hclient : ∀ p ∈ clients, ∃ x, (w.zsets buildTaskTimestampZSetKey).score (buildTaskKey p.1 p.2) = some x ∧
      0 ≤ x ∧ x ≤ ms w.clock - timeout := fun p hp => (hmem _).1 (List.mem_map_of_mem hp)
  -- the candidates among the registered clients are those that were not seen
  have hdue : ∀ s c e, r.entry s c = some e → ((s, c) ∈ clients ↔ e.seen ≤ ms w.clock - timeout) := by
    intro s c e he
    obtain ⟨hscore, -, hpos⟩ := h.stamp s c e he
    constructor
    · intro hp
      obtain ⟨x, hx, -, hle⟩ := hclient _ hp
      rw [hscore] at hx
      exact Option.some.inj hx ▸ hle
    · intro hle
      obtain ⟨p, hp, hk⟩ := List.mem_map.1 ((hmem _).2 ⟨e.seen, hscore, hpos, hle⟩)
      obtain ⟨h1, h2⟩ := (taskKey_inj (hs p hp) (h.plain s c (he ▸ Option.some_ne_none e))).1 hk
      exact (Prod.ext h1 h2 : p = (s, c)) ▸ hp
  obtain ⟨hlist, href⟩ := h.scanLoop (ms w.clock) timeout (.of_map _ hnodup) hs
    (fun p hp => by
      obtain ⟨x, hx, -⟩ := hclient p hp
      rw [hx]
      rfl)
    fun p hp e he => (h.stamp _ _ e he).2.1.trans ((hdue _ _ e he).1 hp)
  refine ⟨fun u => ?_, ?_⟩
  · rw [hlist, List.mem_filterMap]
    constructor
    · rintro ⟨⟨s, c⟩, hp, hu⟩
      obtain ⟨e, he, rfl⟩ := Option.map_eq_some_iff.1 hu
      exact ⟨s, c, e, he, (hdue s c e he).1 hp, rfl⟩
    · rintro ⟨s, c, e, he, hle, rfl⟩
      exact ⟨(s, c), (hdue s c e he).2 hle, by rw [Registry.task, he]; rfl⟩
  · have hsame : (r.filter fun s c _ => (s, c) ∉ clients) = r.expire (ms w.clock - timeout) := by
      refine Registry.filter_congr fun s c e he => ?_
      rw [decide_eq_decide, hdue s c e he, not_le]
    rw [← hsame]
    exact href

end Refines

end StreamGate.State
