import StreamGate.State.Failures
import StreamGate.State.ScanSteps
import StreamGate.State.Stores

/-!
# Concurrent scans

Any number of scans over one store, each with its own clock.  An entry of `task_timestamps` is always in
one place: on the shelf, held by the one scan that has taken it out, or taken for good by a scan that has
decided to deregister the task (`Place`).  `Owned` is this for every entry, together with what it says of
the hashes: only the scan that has taken an entry deletes the hash.  So no task is returned twice, and
none is lost (`scanners_share`).
-/

namespace StreamGate.State

open StreamGate.Redis StreamGate.Task StreamGate.Lib

/-! ### What a scan has in hand -/

namespace Stage

/-- The tasks that the scan has decided to return. -/
def found : Stage → List StreamTask
  | start | range _ => []
  | loop p | look _ p | back _ _ p | again _ p | stamp _ p | drop _ _ p | rest _ _ p => p.found

/-- The scan has taken the entry out and has not decided yet, or is about to put it back. -/
def Holds : Stage → Key → Prop
  | look k _ | back k _ _ => fun k' => k' = k
  | _ => fun _ => False

/-- The scan is going to delete the hash. -/
def Condemns : Stage → Key → Prop
  | again t _ | drop t _ _ => fun k => k = t.key
  | _ => fun _ => False

/-- The commands of a batch that concern neither the hashes of tasks nor the time stamps. -/
def Unindexes : Cmd → Prop
  | .srem _ _ => True
  | .hincrby k _ _ => k = buildGlobalPlayerCountKey
  | .del k => ∃ s, k = buildPublisherKey s
  | _ => False

/-- The rest of a batch concerns the indices only, and the hash was there when the batch was sent. -/
def Tame : Stage → Prop
  | rest c cs _ => ∀ c' ∈ c :: cs, Unindexes c'
  | stamp _ _ => False
  | _ => True

theorem Unindexes.task {c : Cmd} (h : Unindexes c) (w : World) (body : String) :
    (handle c w).2.hashes (.task body) = w.hashes (.task body) := by
  cases c with
  | srem k m => rfl
  | hincrby k f n =>
    obtain rfl : k = buildGlobalPlayerCountKey := h
    exact World.hset_of_ne _ _ _ _ (by simp [buildGlobalPlayerCountKey])
  | del k =>
    obtain ⟨s, rfl⟩ := h
    exact World.del_hashes_of_ne _ _ _ (by simp [buildPublisherKey])
  | _ => exact h.elim

theorem Unindexes.stamps {c : Cmd} (h : Unindexes c) (w : World) :
    (handle c w).2.zsets buildTaskTimestampZSetKey = w.zsets buildTaskTimestampZSetKey := by
  cases c with
  | srem k m => rfl
  | hincrby k f n => rfl
  | del k =>
    obtain ⟨s, rfl⟩ := h
    exact World.del_zsets_of_ne _ _ _ (by simp [buildPublisherKey, buildTaskTimestampZSetKey])
  | _ => exact h.elim

theorem unindexes_batch (t : StreamTask) (type : StreamType) :
    ∀ c ∈ Cmd.srem (memberKey t.stream_name) t.client_id :: unindexCmds t type, Unindexes c := by
  cases type <;> simp [unindexCmds, Unindexes]

end Stage

section Update

variable {ι α β : Type} [DecidableEq ι] {g : ι → α} {i : ι} {v : α}

theorem update_agree (f : α → β) (h : f v = f (g i)) (j : ι) : f (Function.update g i v j) = f (g j) := by
  by_cases hj : j = i
  · subst hj
    rw [Function.update_self, h]
  · rw [Function.update_of_ne hj]

theorem update_all {P : α → Prop} (h : ∀ j, P (g j)) (hv : P v) (j : ι) : P (Function.update g i v j) := by
  by_cases hj : j = i
  · subst hj
    rwa [Function.update_self]
  · rw [Function.update_of_ne hj]
    exact h j

end Update

/-! ### Where the entries are -/

/-- Where the entry of a task is: nowhere, in `task_timestamps`, with a scan that has not decided, or
with a scan that deregisters the task. -/
inductive Place (ι : Type) where
  | out
  | shelf
  | held (i : ι)
  | taken (i : ι)

section Owned

variable {ι : Type} [DecidableEq ι] {w₀ w w' : World} {σ : ι → Stage} {own : Key → Place ι} {timeout : ℤ}

/-- The hash has been deleted by the scan that has taken the entry. -/
def Deleted (own : Key → Place ι) (σ : ι → Stage) (k : Key) : Prop := ∃ i, own k = .taken i ∧ ¬ (σ i).Condemns k

/-- Scans that started at the store `w₀` and are at the stages `σ`. -/
structure Owned (w₀ w : World) (σ : ι → Stage) (own : Key → Place ι) : Prop where
  task : ∀ k, own k ≠ .out → ∃ body, k = .task body
  shelf : ∀ k, own k = .shelf ↔ (w.zsets buildTaskTimestampZSetKey).score k ≠ none
  held : ∀ i k, own k = .held i ↔ (σ i).Holds k
  /-- A task that is going to be returned is one of the first store, and nobody else has its entry. -/
  taken : ∀ i, ∀ t ∈ (σ i).found, own t.key = .taken i ∧ taskAt w₀ t.key = some t
  nodup : ∀ i, ((σ i).found.map StreamTask.key).Nodup
  condemned : ∀ i k, (σ i).Condemns k → own k = .taken i ∧ taskAt w₀ k ≠ none
  gone : ∀ body, Deleted own σ (.task body) → w.hashes (.task body) = none
  same : ∀ body, ¬ Deleted own σ (.task body) → w.hashes (.task body) = w₀.hashes (.task body)
  /-- No task of the first store is lost. -/
  kept : ∀ k t, (w₀.zsets buildTaskTimestampZSetKey).score k ≠ none → taskAt w₀ k = some t →
    own k = .shelf ∨ (∃ i, own k = .held i) ∨ ∃ i, t ∈ (σ i).found
  tame : ∀ i, (σ i).Tame

namespace Owned

omit [DecidableEq ι] in
/-- The hash of an entry that is not taken is as it was. -/
theorem taskAt_eq (h : Owned w₀ w σ own) {k : Key} (hk : own k ≠ .out) (ht : ∀ i, own k ≠ .taken i) :
    taskAt w k = taskAt w₀ k := by
  obtain ⟨body, rfl⟩ := h.task k hk
  refine taskAt_congr (h.same body ?_)
  rintro ⟨i, hi, -⟩
  exact ht i hi

/-- A step that changes nothing but the place in the program. -/
theorem quiet (h : Owned w₀ w σ own) {i : ι} {τ : Stage} (hhold : τ.Holds = (σ i).Holds)
    (hfound : τ.found = (σ i).found) (hcond : τ.Condemns = (σ i).Condemns) (htame : τ.Tame)
    (hz : w'.zsets buildTaskTimestampZSetKey = w.zsets buildTaskTimestampZSetKey)
    (hh : ∀ body, w'.hashes (.task body) = w.hashes (.task body)) :
    Owned w₀ w' (Function.update σ i τ) own := by
  have hholds := update_agree Stage.Holds hhold
  have hfounds := update_agree Stage.found hfound
  have hconds := update_agree Stage.Condemns hcond
  have hdel : ∀ k, Deleted own (Function.update σ i τ) k ↔ Deleted own σ k := fun k =>
    exists_congr fun j => by rw [hconds]
  refine ⟨h.task, fun k => ?_, fun j k => ?_, fun j t ht => ?_, fun j => ?_, fun j k hk => ?_,
    fun body hd => ?_, fun body hd => ?_, fun k t hs ht => ?_, update_all h.tame htame⟩
  · rw [hz]
    exact h.shelf k
  · rw [hholds]
    exact h.held j k
  · rw [hfounds] at ht
    exact h.taken j t ht
  · rw [hfounds]
    exact h.nodup j
  · rw [hconds] at hk
    exact h.condemned j k hk
  · rw [hh]
    exact h.gone body ((hdel _).1 hd)
  · rw [hh]
    exact h.same body fun hd' => hd ((hdel _).2 hd')
  · simp only [hfounds]
    exact h.kept k t hs ht

end Owned

/-- The scan `i` moves the entry `k`, which it holds or finds on the shelf, to the place `x`, and goes on to `τ`. -/
structure Move (w₀ w w' : World) (σ : ι → Stage) (own : Key → Place ι) (i : ι) (k : Key) (x : Place ι)
    (τ : Stage) : Prop where
  free : own k = .shelf ∨ own k = .held i
  place : x = .out ∨ x = .shelf ∨ x = .held i ∨ x = .taken i
  stamps : ∀ k', (w'.zsets buildTaskTimestampZSetKey).score k' ≠ none ↔
    if k' = k then x = .shelf else (w.zsets buildTaskTimestampZSetKey).score k' ≠ none
  task : ∀ body, w'.hashes (.task body) = w.hashes (.task body)
  holds : ∀ k', τ.Holds k' ↔ if k' = k then x = .held i else (σ i).Holds k'
  mono : (σ i).found ⊆ τ.found
  new : ∀ t ∈ τ.found, t ∈ (σ i).found ∨ (t.key = k ∧ x = .taken i ∧ taskAt w₀ k = some t)
  nodup : (τ.found.map StreamTask.key).Nodup
  before : ∀ k', ¬ (σ i).Condemns k'
  condemns : ∀ k', τ.Condemns k' ↔ k' = k ∧ x = .taken i
  read : x = .taken i → taskAt w₀ k ≠ none
  kept : ∀ t, taskAt w₀ k = some t → x = .shelf ∨ x = .held i ∨ t ∈ τ.found
  tame : τ.Tame

namespace Move

variable {i : ι} {k : Key} {x : Place ι} {τ : Stage}

omit [DecidableEq ι] in
theorem own_ne_out (m : Move w₀ w w' σ own i k x τ) : own k ≠ .out := by
  rcases m.free with hf | hf <;> rw [hf] <;> intro e <;> cases e

omit [DecidableEq ι] in
theorem own_ne_taken (m : Move w₀ w w' σ own i k x τ) (j : ι) : own k ≠ .taken j := by
  rcases m.free with hf | hf <;> rw [hf] <;> intro e <;> cases e

omit [DecidableEq ι] in
/-- No other scan holds the entry. -/
theorem own_ne_held (m : Move w₀ w w' σ own i k x τ) {j : ι} (hj : j ≠ i) : own k ≠ .held j := by
  rcases m.free with hf | hf
  · rw [hf]
    intro e
    cases e
  · rw [hf]
    intro e
    exact hj (Place.held.inj e).symm

omit [DecidableEq ι] in
theorem ne_held (m : Move w₀ w w' σ own i k x τ) {j : ι} (hj : j ≠ i) : x ≠ .held j := by
  rintro rfl
  rcases m.place with e | e | e | e
  · cases e
  · cases e
  · exact hj (Place.held.inj e)
  · cases e

omit [DecidableEq ι] in
theorem of_taken (m : Move w₀ w w' σ own i k x τ) {j : ι} (hx : x = .taken j) : j = i := by
  subst hx
  rcases m.place with e | e | e | e
  · cases e
  · cases e
  · cases e
  · exact Place.taken.inj e

/-- The entry that moves is not one whose hash has been deleted, before or after. -/
theorem deleted (m : Move w₀ w w' σ own i k x τ) (k' : Key) :
    Deleted (Function.update own k x) (Function.update σ i τ) k' ↔ Deleted own σ k' := by
  refine exists_congr fun j => ?_
  by_cases hk' : k' = k
  · subst hk'
    rw [Function.update_self]
    refine iff_of_false (fun hd => ?_) fun hd => m.own_ne_taken j hd.1
    obtain rfl := m.of_taken hd.1
    rw [Function.update_self] at hd
    exact hd.2 ((m.condemns _).2 ⟨rfl, hd.1⟩)
  · rw [Function.update_of_ne hk']
    by_cases hj : j = i
    · subst hj
      rw [Function.update_self, m.condemns]
      simp [hk', m.before k']
    · rw [Function.update_of_ne hj]

theorem held (m : Move w₀ w w' σ own i k x τ) (h : Owned w₀ w σ own) (j : ι) (k' : Key) :
    Function.update own k x k' = .held j ↔ (Function.update σ i τ j).Holds k' := by
  by_cases he : k' = k
  · subst he
    rw [Function.update_self]
    by_cases hj : j = i
    · subst hj
      rw [Function.update_self, m.holds, if_pos rfl]
    · rw [Function.update_of_ne hj]
      exact iff_of_false (m.ne_held hj) fun hh => m.own_ne_held hj ((h.held j k').2 hh)
  · rw [Function.update_of_ne he]
    by_cases hj : j = i
    · subst hj
      rw [Function.update_self, m.holds, if_neg he]
      exact h.held j k'
    · rw [Function.update_of_ne hj]
      exact h.held j k'

theorem taken (m : Move w₀ w w' σ own i k x τ) (h : Owned w₀ w σ own) (j : ι) (t : StreamTask)
    (ht : t ∈ (Function.update σ i τ j).found) :
    Function.update own k x t.key = .taken j ∧ taskAt w₀ t.key = some t := by
  have hold : ∀ j, t ∈ (σ j).found → Function.update own k x t.key = .taken j ∧ taskAt w₀ t.key = some t := by
    intro j ht
    obtain ⟨ho, ht⟩ := h.taken j t ht
    refine ⟨?_, ht⟩
    rw [Function.update_of_ne, ho]
    intro e
    exact m.own_ne_taken j (e ▸ ho)
  by_cases hj : j = i
  · subst hj
    rw [Function.update_self] at ht
    rcases m.new t ht with ht | ⟨rfl, rfl, ht⟩
    · exact hold j ht
    · exact ⟨Function.update_self .., ht⟩
  · rw [Function.update_of_ne hj] at ht
    exact hold j ht

theorem condemned (m : Move w₀ w w' σ own i k x τ) (h : Owned w₀ w σ own) (j : ι) (k' : Key)
    (hc : (Function.update σ i τ j).Condemns k') :
    Function.update own k x k' = .taken j ∧ taskAt w₀ k' ≠ none := by
  by_cases hj : j = i
  · subst hj
    rw [Function.update_self, m.condemns] at hc
    obtain ⟨rfl, hx⟩ := hc
    exact ⟨(Function.update_self ..).trans hx, m.read hx⟩
  · rw [Function.update_of_ne hj] at hc
    obtain ⟨ho, hr⟩ := h.condemned j k' hc
    refine ⟨?_, hr⟩
    rw [Function.update_of_ne, ho]
    rintro rfl
    exact m.own_ne_taken j ho

theorem found (m : Move w₀ w w' σ own i k x τ) (h : Owned w₀ w σ own) (k' : Key) (t : StreamTask)
    (hs : (w₀.zsets buildTaskTimestampZSetKey).score k' ≠ none) (ht : taskAt w₀ k' = some t) :
    Function.update own k x k' = .shelf ∨ (∃ j, Function.update own k x k' = .held j) ∨
      ∃ j, t ∈ (Function.update σ i τ j).found := by
  by_cases he : k' = k
  · subst he
    rw [Function.update_self]
    rcases m.kept t ht with hs | hs | hs
    · exact .inl hs
    · exact .inr (.inl ⟨i, hs⟩)
    · exact .inr (.inr ⟨i, by rwa [Function.update_self]⟩)
  · rw [Function.update_of_ne he]
    rcases h.kept k' t hs ht with hs | hs | ⟨j, hs⟩
    · exact .inl hs
    · exact .inr (.inl hs)
    · refine .inr (.inr ⟨j, ?_⟩)
      by_cases hj : j = i
      · subst hj
        rw [Function.update_self]
        exact m.mono hs
      · rwa [Function.update_of_ne hj]

end Move

namespace Owned

theorem move (h : Owned w₀ w σ own) {i : ι} {k : Key} {x : Place ι} {τ : Stage} (m : Move w₀ w w' σ own i k x τ) :
    Owned w₀ w' (Function.update σ i τ) (Function.update own k x) where
  task k' hk' := by
    by_cases he : k' = k
    · exact he ▸ h.task k m.own_ne_out
    · rw [Function.update_of_ne he] at hk'
      exact h.task k' hk'
  shelf k' := by
    rw [m.stamps]
    by_cases he : k' = k
    · rw [if_pos he, he, Function.update_self]
    · rw [if_neg he, Function.update_of_ne he]
      exact h.shelf k'
  held := m.held h
  taken := m.taken h
  nodup := update_all (P := fun τ : Stage => (τ.found.map StreamTask.key).Nodup) h.nodup m.nodup
  condemned := m.condemned h
  gone body hd := by
    rw [m.task]
    exact h.gone body ((m.deleted _).1 hd)
  same body hd := by
    rw [m.task]
    exact h.same body fun hd' => hd ((m.deleted _).2 hd')
  kept := m.found h
  tame := update_all h.tame m.tame

/-- The entry of a candidate is taken out. -/
theorem take (h : Owned w₀ w σ own) {i : ι} {now : ℤ} {k : Key} {keys : List Key} {found : List StreamTask}
    (hi : σ i = .loop ⟨now, k :: keys, found⟩) (hk : (w.zsets buildTaskTimestampZSetKey).score k ≠ none) :
    Owned w₀ (w.setZset buildTaskTimestampZSetKey ((w.zsets buildTaskTimestampZSetKey).rem k))
      (Function.update σ i (.look k ⟨now, keys, found⟩)) (Function.update own k (.held i)) := by
  refine h.move ⟨.inl ((h.shelf k).2 hk), .inr (.inr (.inl rfl)), fun k' => ?_, fun _ => rfl, fun k' => ?_,
    ?_, ?_, ?_, ?_, fun k' => ?_, (fun e => by cases e), fun _ _ => .inr (.inl rfl), trivial⟩
  · rw [World.setZset_self, ZSet.score_rem]
    split
    · simp
    · rfl
  · rw [hi]
    by_cases hk' : k' = k <;> simp [Stage.Holds, hk']
  · rw [hi]
    exact List.Subset.refl _
  · rw [hi]
    exact fun t ht => .inl ht
  · have := h.nodup i
    rwa [hi] at this
  · rw [hi]
    exact fun _ => id
  · simp [Stage.Condemns]

/-- A held entry whose scan lets it go or puts it back. -/
theorem release (h : Owned w₀ w σ own) {i : ι} {k : Key} {x : Place ι} {p : Pass}
    (hhold : (σ i).Holds = fun k' => k' = k) (hfound : (σ i).found = p.found) (hcond : ∀ k', ¬ (σ i).Condemns k')
    (hx : x = .out ∨ x = .shelf)
    (hz : ∀ k', (w'.zsets buildTaskTimestampZSetKey).score k' ≠ none ↔
      if k' = k then x = .shelf else (w.zsets buildTaskTimestampZSetKey).score k' ≠ none)
    (hh : ∀ body, w'.hashes (.task body) = w.hashes (.task body))
    (hkept : ∀ t, taskAt w₀ k = some t → x = .shelf) :
    Owned w₀ w' (Function.update σ i (.loop p)) (Function.update own k x) := by
  have hown : own k = .held i := (h.held i k).2 (by rw [hhold])
  have htaken : x ≠ .taken i := by
    rcases hx with rfl | rfl <;> exact fun e => by cases e
  refine h.move ⟨.inr hown, hx.imp_right .inl, hz, hh, fun k' => ?_, ?_, ?_, ?_, hcond, fun k' => ?_,
    fun e => absurd e htaken, fun t ht => .inl (hkept t ht), trivial⟩
  · rw [hhold]
    rcases hx with rfl | rfl <;> by_cases hk' : k' = k <;> simp [Stage.Holds, hk']
  · rw [hfound]
    exact List.Subset.refl _
  · rw [hfound]
    exact fun t ht => .inl ht
  · have := h.nodup i
    rwa [hfound] at this
  · simp [Stage.Condemns, htaken]

/-- A task that has expired is taken for good. -/
theorem expired (h : Owned w₀ w σ own) (hw₀ : Keyed w₀) {i : ι} {k : Key} {t : StreamTask} {p : Pass}
    (hi : σ i = .look k p) (hk : taskAt w k = some t) :
    Owned w₀ w (Function.update σ i (.again t (p.take t))) (Function.update own k (.taken i)) := by
  have hown : own k = .held i := (h.held i k).2 (by rw [hi]; rfl)
  have hout : own k ≠ .out := by rw [hown]; exact fun e => by cases e
  have ht₀ : taskAt w₀ k = some t := by
    rw [← h.taskAt_eq hout, hk]
    rw [hown]
    exact fun j e => by cases e
  obtain ⟨body, rfl⟩ := h.task k hout
  have hkey : Key.task body = t.key := hw₀.of_taskAt ht₀
  have hnew : ∀ q ∈ (σ i).found, q.key ≠ Key.task body := by
    intro q hq e
    have := (h.taken i q hq).1
    rw [e, hown] at this
    cases this
  refine h.move ⟨.inr hown, .inr (.inr (.inr rfl)), fun k' => ?_, fun _ => rfl, fun k' => ?_, ?_, ?_, ?_, ?_,
    fun k' => ?_, (fun _ => by rw [ht₀]; exact Option.some_ne_none t), fun q hq => .inr (.inr ?_), trivial⟩
  · split
    · rename_i e
      rw [e]
      refine iff_of_false (fun hs => ?_) (fun e => by cases e)
      rw [← h.shelf, hown] at hs
      cases hs
    · rfl
  · rw [hi]
    by_cases hk' : k' = Key.task body <;> simp [Stage.Holds, hk']
  · rw [hi]
    exact List.subset_append_left _ _
  · intro q hq
    rcases List.mem_append.1 hq with hq | hq
    · exact .inl (by rw [hi]; exact hq)
    · obtain rfl := List.mem_singleton.1 hq
      exact .inr ⟨hkey.symm, rfl, ht₀⟩
  · have hn := h.nodup i
    rw [hi] at hn hnew
    show ((p.found ++ [t]).map StreamTask.key).Nodup
    rw [List.map_append, List.nodup_append]
    refine ⟨hn, List.nodup_singleton _, fun a ha b hb => ?_⟩
    obtain ⟨q, hq, rfl⟩ := List.mem_map.1 ha
    obtain rfl : b = t.key := by simpa using hb
    rw [← hkey]
    exact hnew q hq
  · rw [hi]
    exact fun _ => id
  · rw [Stage.Condemns, hkey]
    simp
  · obtain rfl := Option.some.inj (ht₀.symm.trans hq)
    exact List.mem_append_right _ (List.mem_singleton.2 rfl)

/-- The hash of a condemned task is deleted. -/
theorem drop (h : Owned w₀ w σ own) {i : ι} {t : StreamTask} {type : StreamType} {p : Pass}
    (hi : σ i = .drop t type p) : Owned w₀ (w.del t.key)
      (Function.update σ i (.rest (.srem (memberKey t.stream_name) t.client_id) (unindexCmds t type) p)) own := by
  have hown : own t.key = .taken i := (h.condemned i t.key (by rw [hi]; rfl)).1
  have hcond : ∀ k, (σ i).Condemns k ↔ k = t.key := fun k => by rw [hi]; rfl
  have hz : (w.del t.key).zsets buildTaskTimestampZSetKey = w.zsets buildTaskTimestampZSetKey :=
    World.del_zsets_of_ne _ _ _ (by simp [StreamTask.key, buildTaskKey, buildTaskTimestampZSetKey])
  generalize hτ : Stage.rest (.srem (memberKey t.stream_name) t.client_id) (unindexCmds t type) p = τ
  have hcond' : ∀ k, ¬ τ.Condemns k := fun k => by rw [← hτ]; exact id
  have hholds := update_agree (g := σ) (i := i) (v := τ) Stage.Holds (by rw [hi, ← hτ]; rfl)
  have hfounds := update_agree (g := σ) (i := i) (v := τ) Stage.found (by rw [hi, ← hτ]; rfl)
  have hdel : ∀ k, Deleted own (Function.update σ i τ) k ↔ k = t.key ∨ Deleted own σ k := by
    intro k
    constructor
    · rintro ⟨j, ho, hc⟩
      by_cases hk : k = t.key
      · exact .inl hk
      · refine .inr ⟨j, ho, ?_⟩
        by_cases hj : j = i
        · rw [hj, hcond]
          exact hk
        · rwa [Function.update_of_ne hj] at hc
    · rintro (rfl | ⟨j, ho, hc⟩)
      · exact ⟨i, hown, by rw [Function.update_self]; exact hcond' _⟩
      · refine ⟨j, ho, ?_⟩
        by_cases hj : j = i
        · rw [hj, Function.update_self]
          exact hcond' k
        · rwa [Function.update_of_ne hj]
  refine ⟨h.task, fun k => ?_, fun j k => ?_, fun j q hq => ?_, fun j => ?_, fun j k hk => ?_,
    fun body hd => ?_, fun body hd => ?_, fun k q hs hq => ?_,
    update_all h.tame (by rw [← hτ]; exact Stage.unindexes_batch t type)⟩
  · rw [hz]
    exact h.shelf k
  · rw [hholds]
    exact h.held j k
  · rw [hfounds] at hq
    exact h.taken j q hq
  · rw [hfounds]
    exact h.nodup j
  · by_cases hj : j = i
    · rw [hj, Function.update_self] at hk
      exact absurd hk (hcond' k)
    · rw [Function.update_of_ne hj] at hk
      exact h.condemned j k hk
  · rw [World.del_hashes_apply]
    split
    · rfl
    · rename_i hne
      exact h.gone body (((hdel _).1 hd).resolve_left hne)
  · rw [hdel, not_or] at hd
    rw [World.del_hashes_of_ne _ _ _ hd.1]
    exact h.same body hd.2
  · simp only [hfounds]
    exact h.kept k q hs hq

/-- **One command of a scan.** -/
theorem step (h : Owned w₀ w σ own) (hw₀ : Keyed w₀) {i : ι} {τ : Stage}
    (hs : Stage.Step timeout w (σ i) τ w') : ∃ own', Owned w₀ w' (Function.update σ i τ) own' := by
  have htame := h.tame i
  generalize hi : σ i = ρ at hs htame
  cases hs with
  | start => exact ⟨own, h.quiet (by rw [hi]; rfl) (by rw [hi]; rfl) (by rw [hi]; rfl) trivial rfl fun _ => rfl⟩
  | range now =>
    exact ⟨own, h.quiet (by rw [hi]; rfl) (by rw [hi]; rfl) (by rw [hi]; rfl) trivial rfl fun _ => rfl⟩
  | skip hk =>
    exact ⟨own, h.quiet (by rw [hi]; rfl) (by rw [hi]; rfl) (by rw [hi]; rfl) trivial rfl fun _ => rfl⟩
  | take hk => exact ⟨_, h.take hi hk⟩
  | @missing k p hk =>
    have hown : own k = .held i := (h.held i k).2 (by rw [hi]; rfl)
    refine ⟨_, h.release (k := k) (x := .out) (by rw [hi]; rfl) (by rw [hi]; rfl) (by rw [hi]; exact fun _ => id)
      (.inl rfl) (fun k' => ?_) (fun _ => rfl) fun t ht => ?_⟩
    · split
      · rename_i e
        rw [e]
        refine iff_of_false (fun hs => ?_) (fun e => by cases e)
        rw [← h.shelf, hown] at hs
        cases hs
      · rfl
    · rw [← h.taskAt_eq (by rw [hown]; exact fun e => by cases e) (by rw [hown]; exact fun _ e => by cases e),
        hk] at ht
      cases ht
  | alive hk hl =>
    exact ⟨own, h.quiet (by rw [hi]; rfl) (by rw [hi]; rfl) (by rw [hi]; rfl) trivial rfl fun _ => rfl⟩
  | expired hk hl => exact ⟨_, h.expired hw₀ hi hk⟩
  | @back k t p =>
    refine ⟨_, h.release (k := k) (x := .shelf) (by rw [hi]; rfl) (by rw [hi]; rfl) (by rw [hi]; exact fun _ => id)
      (.inr rfl) (fun k' => ?_) (fun _ => rfl) fun _ _ => rfl⟩
    rw [World.setZset_self, ZSet.score_add]
    split
    · simp
    · rfl
  | @gone t p hk =>
    -- the hash is still there
    obtain ⟨hown, hread⟩ := h.condemned i t.key (by rw [hi]; rfl)
    have hsame : taskAt w t.key = taskAt w₀ t.key := by
      refine taskAt_congr (h.same _ ?_)
      rintro ⟨j, hj, hc⟩
      obtain rfl := Place.taken.inj (hown.symm.trans hj)
      exact hc (by rw [hi]; rfl)
    exact absurd (hsame.symm.trans hk) hread
  | again hk =>
    exact ⟨own, h.quiet (by rw [hi]; rfl) (by rw [hi]; rfl) (by rw [hi]; rfl) trivial rfl fun _ => rfl⟩
  | stamp => exact htame.elim
  | drop => exact ⟨own, h.drop hi⟩
  | @last c p =>
    have hc := htame c List.mem_cons_self
    exact ⟨own, h.quiet (by rw [hi]; rfl) (by rw [hi]; rfl) (by rw [hi]; rfl) trivial (hc.stamps w) (hc.task w)⟩
  | @rest c c' cs p =>
    have hc := htame c List.mem_cons_self
    exact ⟨own, h.quiet (by rw [hi]; rfl) (by rw [hi]; rfl) (by rw [hi]; rfl)
      (fun d hd => htame d (List.mem_cons_of_mem c hd)) (hc.stamps w) (hc.task w)⟩

end Owned

omit [DecidableEq ι] in
theorem Owned.start (hw : Stamped w) :
    Owned w w (fun _ : ι => .start)
      fun k => if (w.zsets buildTaskTimestampZSetKey).score k = none then .out else .shelf := by
  have htaken : ∀ k (i : ι), (if (w.zsets buildTaskTimestampZSetKey).score k = none then .out else .shelf) ≠
      Place.taken i := by
    intro k i
    split <;> exact fun e => by cases e
  refine ⟨fun k hk => ?_, fun k => ?_, fun i k => ?_, fun i t ht => (List.not_mem_nil ht).elim, fun _ => List.nodup_nil,
    fun i k hk => hk.elim, fun body hd => ?_, fun _ _ => rfl, fun k t hs _ => .inl (if_neg hs), fun _ => trivial⟩
  · split at hk
    · exact absurd rfl hk
    · rename_i hs
      exact hw k hs
  · split
    · rename_i hs
      exact iff_of_false (fun e => by cases e) fun h => h hs
    · rename_i hs
      exact iff_of_true rfl hs
  · refine iff_of_false ?_ id
    split <;> exact fun e => by cases e
  · obtain ⟨i, hi, -⟩ := hd
    exact absurd hi (htaken _ i)

end Owned

/-! ### All scans together -/

/-- Redis while scans run: nothing runs out, and the clock that a scan reads may be any. -/
def drifting : Machine iface World ℤ := ⟨handle, fun t w => { w with clock := t }⟩

section Share

variable {ι : Type} [DecidableEq ι] {w : World}

/-- A scan for every `i`. -/
def scanners (w : World) (timeout : ι → ℤ) : Conf iface World ι (List StreamTask) :=
  ⟨w, fun i => scanTimeoutTasks (timeout i)⟩

/-- The scan `i` has returned the task `t`. -/
def Returned (c : Conf iface World ι (List StreamTask)) (i : ι) (t : StreamTask) : Prop :=
  ∃ ts, (c.thr i).result = some ts ∧ t ∈ ts

/-- **A whole run.** -/
theorem scanners_owned (hw : Sound w) {timeout : ι → ℤ} {es : List (Ev ι ℤ)} (hok : NoErrors es)
    {fin : Conf iface World ι (List StreamTask)} (hrun : (scanners w timeout).exec drifting es = some fin) :
    ∃ (σ : ι → Stage) (own : Key → Place ι),
      (∀ i, fin.thr i = (σ i).prog (timeout i)) ∧ Owned w fin.st σ own := by
  refine Conf.exec_invariant (fun c => ∃ (σ : ι → Stage) (own : Key → Place ι),
    (∀ i, c.thr i = (σ i).prog (timeout i)) ∧ Owned w c.st σ own)
    ⟨fun _ => .start, _, fun _ => rfl, Owned.start hw.stamped⟩ ?_ hrun
  rintro e he c c' ⟨σ, own, hthr, h⟩ hstep
  cases e with
  | run i =>
    obtain ⟨q, w', hq, rfl⟩ := Conf.step_run.1 hstep
    rw [hthr i] at hq
    obtain ⟨τ, rfl, hs⟩ := Stage.next hq
    obtain ⟨own', h'⟩ := h.step hw.keyed hs
    refine ⟨Function.update σ i τ, own', fun j => ?_, h'⟩
    by_cases hj : j = i
    · subst hj
      simp
    · simpa [Function.update_of_ne hj] using hthr j
  | fail i => exact absurd he (hok i)
  | env t =>
    obtain rfl := Option.some.inj hstep
    exact ⟨σ, own, hthr, h.task, h.shelf, h.held, h.taken, h.nodup, h.condemned, h.gone, h.same, h.kept, h.tame⟩

/-- **Scans share the tasks.**  Any number of scans of a store that calls have reached, interleaved in any
way: no task is returned twice, by one scan or by two; and when all are done, a task that had a time stamp
and can be read has been returned, and its hash is gone, or has its time stamp and the hash it had. -/
theorem scanners_share (hw : Reached w) (timeout : ι → ℤ) {es : List (Ev ι ℤ)} (hok : NoErrors es)
    {fin : Conf iface World ι (List StreamTask)} (hrun : (scanners w timeout).exec drifting es = some fin) :
    (∀ i ts, (fin.thr i).result = some ts → (ts.map StreamTask.key).Nodup) ∧
      (∀ i j t t', Returned fin i t → Returned fin j t' → t.key = t'.key → i = j ∧ t = t') ∧
      ((∀ i, (fin.thr i).result ≠ none) → ∀ k t, (w.zsets buildTaskTimestampZSetKey).score k ≠ none →
        taskAt w k = some t →
        ((∃ i, Returned fin i t ∧ ∀ j, Returned fin j t → j = i) ∧ fin.st.hashes k = none) ∨
          ((∀ i, ¬ Returned fin i t) ∧ (fin.st.zsets buildTaskTimestampZSetKey).score k ≠ none ∧
            fin.st.hashes k = w.hashes k)) := by
  obtain ⟨σ, own, hthr, h⟩ := scanners_owned hw.sound hok hrun
  have hreturned : ∀ i t, Returned fin i t → t ∈ (σ i).found := by
    rintro i t ⟨ts, hts, ht⟩
    rw [hthr] at hts
    obtain ⟨now, hσ⟩ := Stage.result hts
    rw [hσ]
    exact ht
  have hone : ∀ i j t t', Returned fin i t → Returned fin j t' → t.key = t'.key → i = j ∧ t = t' := by
    intro i j t t' ht ht' hkey
    obtain ⟨ho, hr⟩ := h.taken i t (hreturned i t ht)
    obtain ⟨ho', hr'⟩ := h.taken j t' (hreturned j t' ht')
    rw [hkey] at ho hr
    exact ⟨Place.taken.inj (ho.symm.trans ho'), Option.some.inj (hr.symm.trans hr')⟩
  refine ⟨fun i ts hts => ?_, hone, fun hall k t hs ht => ?_⟩
  · rw [hthr] at hts
    obtain ⟨now, hσ⟩ := Stage.result hts
    have := h.nodup i
    rwa [hσ] at this
  · have hdone : ∀ i, ∃ now ts, (fin.thr i).result = some ts ∧ σ i = .loop ⟨now, [], ts⟩ := by
      intro i
      obtain ⟨ts, hts⟩ := Option.ne_none_iff_exists'.1 (hall i)
      have hts' := hts
      rw [hthr] at hts'
      obtain ⟨now, hσ⟩ := Stage.result hts'
      exact ⟨now, ts, hts, hσ⟩
    obtain ⟨body, rfl⟩ := hw.sound.stamped k hs
    rcases h.kept _ t hs ht with hshelf | ⟨i, hi⟩ | ⟨i, hi⟩
    · right
      have hnot : ∀ i, own (.task body) ≠ .taken i := fun i e => by rw [hshelf] at e; cases e
      refine ⟨fun i hi => ?_, (h.shelf _).1 hshelf, h.same body fun ⟨i, hi, _⟩ => hnot i hi⟩
      have hkey := hw.sound.keyed.of_taskAt ht
      exact hnot i (hkey ▸ (h.taken i t (hreturned i t hi)).1)
    · -- a scan that is done holds nothing
      rw [h.held] at hi
      obtain ⟨now, ts, -, hσ⟩ := hdone i
      rw [hσ] at hi
      exact hi.elim
    · left
      obtain ⟨now, ts, hts, hσ⟩ := hdone i
      have hret : Returned fin i t := ⟨ts, hts, by rw [hσ] at hi; exact hi⟩
      refine ⟨⟨i, hret, fun j hj => (hone j i t t hj hret rfl).1⟩, h.gone body ⟨i, ?_, ?_⟩⟩
      · have hkey := hw.sound.keyed.of_taskAt ht
        rw [hkey]
        exact (h.taken i t hi).1
      · rw [hσ]
        exact id

end Share

theorem reached_heldByA : Reached heldByA := by
  have h := Reached.call (.initial (MIN_REASONABLE_MS * 1000000)) (.register (firstPublisher "a"))
  rw [Call.prog, run_bind] at h
  exact h

/-- Two scans of the stream of `a`, a minute later, both with `a` among their candidates. -/
def twoScans : List (Ev Bool ℤ) :=
  .env ((MIN_REASONABLE_MS + 60000) * 1000000) :: [.run true, .run false, .run true, .run false,
    .run true, .run false] ++
    List.replicate 6 (.run true)

/-- The scan that takes the entry out first returns the task, the other does not. -/
theorem scanners_share_two :
    ∃ fin, (scanners heldByA fun _ => 30000).exec drifting twoScans = some fin ∧
      Returned fin true (firstPublisher "a").stored ∧ ¬ Returned fin false (firstPublisher "a").stored ∧
        fin.st.hashes (buildTaskKey "live" "a") = none := by
  have hresults : ((scanners heldByA fun _ => 30000).exec drifting twoScans).map
      (fun c => ((c.thr true).result, (c.thr false).result)) =
        some (some [(firstPublisher "a").stored], some []) := by decide +kernel
  obtain ⟨fin, hrun, hres⟩ := Option.map_eq_some_iff.1 hresults
  obtain ⟨htrue, hfalse⟩ := Prod.mk.inj hres
  have hret : Returned fin true (firstPublisher "a").stored := ⟨_, htrue, List.mem_singleton.2 rfl⟩
  have hok : NoErrors twoScans := by
    intro i
    cases i <;> decide
  obtain ⟨-, hone, hall⟩ := scanners_share reached_heldByA (fun _ => 30000) hok hrun
  refine ⟨fin, hrun, hret, fun h => ?_, ?_⟩
  · exact absurd (hone _ _ _ _ hret h rfl).1 (by decide)
  · have hdone : ∀ i, (fin.thr i).result ≠ none := by
      intro i
      cases i
      · rw [hfalse]; exact Option.some_ne_none _
      · rw [htrue]; exact Option.some_ne_none _
    rcases hall hdone (buildTaskKey "live" "a") (firstPublisher "a").stored (by decide +kernel) (by decide +kernel)
      with h | h
    · exact h.2
    · exact absurd hret (h.1 true)

end StreamGate.State
