import Mathlib.Data.String.Basic

/-!
# The keys and fields the program uses in Redis

`RedisStreamStateManager` builds every key it uses from one of seven patterns.  A key is kept
here as its pattern and what stands after the prefix, and `Key.name` is the text the source sends.
The patterns cannot be confused (`Key.name_injective`), so a table indexed by `Key` is the
keyspace of the program.  A task key is one text: `taskKey_eq_iff` says when two pairs of names
give the same one.
-/

namespace StreamGate.Redis

/-- A Redis key of the program. -/
inductive Key where
  | task (body : String)
  | pub (stream_name : String)
  | players (stream_name : String)
  | members (stream_name : String)
  | active_pubs
  | global_players
  | task_timestamps
  deriving DecidableEq, Repr

/-- The text of a key. -/
def Key.name : Key → String
  | .task body => "task:" ++ body
  | .pub s => "pub:" ++ s
  | .players s => "players:" ++ s
  | .members s => "stream:members:" ++ s
  | .active_pubs => "active_pubs"
  | .global_players => "global_players"
  | .task_timestamps => "task_timestamps"

lemma name_toList (k : Key) : k.name.toList = match k with
    | .task body => 't' :: 'a' :: 's' :: 'k' :: ':' :: body.toList
    | .pub s => 'p' :: 'u' :: 'b' :: ':' :: s.toList
    | .players s => 'p' :: 'l' :: 'a' :: 'y' :: 'e' :: 'r' :: 's' :: ':' :: s.toList
    | .members s => "stream:members:".toList ++ s.toList
    | .active_pubs => "active_pubs".toList
    | .global_players => "global_players".toList
    | .task_timestamps => "task_timestamps".toList := by
  cases k <;> simp only [Key.name, String.toList_append] <;> rfl

/-- Two keys with the same text are the same key. -/
theorem Key.name_injective : Function.Injective Key.name := by
  intro k l h
  have h' := congrArg String.toList h
  rw [name_toList, name_toList] at h'
  cases k <;> cases l <;> simp_all [String.toList_inj]

/-- `RedisStreamStateManager::buildTaskKey`. -/
def buildTaskKey (stream_name client_id : String) : Key := .task (stream_name ++ ":" ++ client_id)
/-- `RedisStreamStateManager::buildPublisherKey`. -/
def buildPublisherKey (stream_name : String) : Key := .pub stream_name
/-- `RedisStreamStateManager::buildPlayerSetKey`. -/
def buildPlayerSetKey (stream_name : String) : Key := .players stream_name
/-- The key `"stream:members:" + stream_name`, written out at each of its uses. -/
def memberKey (stream_name : String) : Key := .members stream_name
/-- `RedisStreamStateManager::buildActivePublishersKey`. -/
def buildActivePublishersKey : Key := .active_pubs
/-- `RedisStreamStateManager::buildGlobalPlayerCountKey`. -/
def buildGlobalPlayerCountKey : Key := .global_players
/-- `RedisStreamStateManager::buildTaskTimestampZSetKey`. -/
def buildTaskTimestampZSetKey : Key := .task_timestamps

/-! ### When two tasks share a key -/

/-- A name without a colon. -/
def NoColon (s : String) : Prop := ':' ∉ s.toList

instance : DecidablePred NoColon := fun s => inferInstanceAs (Decidable (':' ∉ s.toList))

lemma append_colon_inj {s s' c c' : List Char} (hs : ':' ∉ s) (hs' : ':' ∉ s') :
    s ++ ':' :: c = s' ++ ':' :: c' → s = s' ∧ c = c' := by
  induction s generalizing s' with
  | nil =>
    cases s' with
    | nil => intro h; simpa using h
    | cons a s' =>
      intro h
      have : ':' = a := (List.cons.inj h).1
      exact absurd (this ▸ List.mem_cons_self) hs'
  | cons a s ih =>
    cases s' with
    | nil =>
      intro h
      have : a = ':' := (List.cons.inj h).1
      exact absurd (this ▸ List.mem_cons_self) hs
    | cons b s' =>
      intro h
      obtain ⟨hab, ht⟩ := List.cons.inj h
      obtain ⟨h1, h2⟩ := ih (fun hm => hs (List.mem_cons_of_mem _ hm))
        (fun hm => hs' (List.mem_cons_of_mem _ hm)) ht
      exact ⟨by rw [hab, h1], h2⟩

lemma taskKey_inj_iff_list {s s' c c' : String} :
    buildTaskKey s c = buildTaskKey s' c' ↔ s.toList ++ ':' :: c.toList = s'.toList ++ ':' :: c'.toList := by
  simp only [buildTaskKey, Key.task.injEq, ← String.toList_inj, String.toList_append, List.append_assoc]
  exact Iff.rfl

/-- On one stream the key of a task is its client. -/
@[simp] theorem taskKey_client {s c c' : String} : buildTaskKey s c = buildTaskKey s c' ↔ c = c' := by
  simp [taskKey_inj_iff_list, String.toList_inj]

/-- Stream names without a colon keep the task keys of different streams apart. -/
theorem taskKey_inj {s s' c c' : String} (hs : NoColon s) (hs' : NoColon s') :
    buildTaskKey s c = buildTaskKey s' c' ↔ s = s' ∧ c = c' := by
  constructor
  · intro h
    obtain ⟨h1, h2⟩ := append_colon_inj hs hs' (taskKey_inj_iff_list.1 h)
    exact ⟨String.toList_inj.1 h1, String.toList_inj.1 h2⟩
  · rintro ⟨rfl, rfl⟩; rfl

/-- A key made of two names without a colon is made of no other two names. -/
theorem taskKey_inj_of_noColon {s s' c c' : String} (hs : NoColon s) (hc : NoColon c)
    (h : buildTaskKey s c = buildTaskKey s' c') : s = s' ∧ c = c' := by
  have hl := taskKey_inj_iff_list.1 h
  have hs' : NoColon s' := by
    intro hm
    have hcount := congrArg (List.count ':') hl
    have h0 : List.count ':' s.toList = 0 := List.count_eq_zero.2 hs
    have h1 : List.count ':' c.toList = 0 := List.count_eq_zero.2 hc
    have h2 : 0 < List.count ':' s'.toList := List.count_pos_iff.2 hm
    simp only [List.count_append, List.count_cons_self, h0, h1] at hcount
    omega
  exact (taskKey_inj hs hs').1 h

/-- Two pairs of names whose texts differ only in which colon stands between stream and client. -/
def Joined (s c s' c' : String) : Prop :=
  ∃ m, (s' = s ++ ":" ++ m ∧ c = m ++ ":" ++ c') ∨ (s = s' ++ ":" ++ m ∧ c' = m ++ ":" ++ c)

lemma joined_of_list {s c s' c' : String} {m : List Char} (hs : s'.toList = s.toList ++ ':' :: m)
    (hc : c.toList = m ++ ':' :: c'.toList) :
    s' = s ++ ":" ++ String.ofList m ∧ c = String.ofList m ++ ":" ++ c' := by
  have hcolon : ":".toList = [':'] := rfl
  refine ⟨String.toList_inj.1 ?_, String.toList_inj.1 ?_⟩
  · rw [hs, String.toList_append, String.toList_append, hcolon, String.toList_ofList, List.append_assoc]
    rfl
  · rw [hc, String.toList_append, String.toList_append, hcolon, String.toList_ofList, List.append_assoc]
    rfl

/-- **When two tasks share a key.** -/
theorem taskKey_eq_iff {s s' c c' : String} :
    buildTaskKey s c = buildTaskKey s' c' ↔ (s = s' ∧ c = c') ∨ Joined s c s' c' := by
  constructor
  · intro h
    rcases List.append_eq_append_iff.1 (taskKey_inj_iff_list.1 h) with ⟨a, hs, hc⟩ | ⟨a, hs, hc⟩
    · cases a with
      | nil =>
        refine .inl ⟨String.toList_inj.1 ?_, String.toList_inj.1 ?_⟩
        · simpa using hs.symm
        · simpa using hc
      | cons x m =>
        obtain ⟨rfl, hm⟩ := List.cons.inj hc
        exact .inr ⟨_, .inl (joined_of_list hs hm)⟩
    · cases a with
      | nil =>
        refine .inl ⟨String.toList_inj.1 ?_, String.toList_inj.1 ?_⟩
        · simpa using hs
        · simpa using hc.symm
      | cons x m =>
        obtain ⟨rfl, hm⟩ := List.cons.inj hc
        exact .inr ⟨_, .inr (joined_of_list hs hm)⟩
  · rintro (⟨rfl, rfl⟩ | ⟨m, ⟨rfl, rfl⟩ | ⟨rfl, rfl⟩⟩)
    · rfl
    · simp only [buildTaskKey, String.append_assoc]
    · simp only [buildTaskKey, String.append_assoc]

/-- With a colon in a name, two different tasks can have one key. -/
example : buildTaskKey "a" "b:c" = buildTaskKey "a:b" "c" := by decide

/-! ### Hash fields -/

/-- The fields of the hashes the program stores. -/
inductive Field where
  | stream_name | client_id | active | type | state | protocol | server_ip | server_port
  | start_time_ms | last_active_time_ms | user_id | auth_token | region | need_transcode
  | need_record | transcoding_profile | total
  deriving DecidableEq, Repr

/-- The text of a field. -/
def Field.name : Field → String
  | .stream_name => "stream_name"
  | .client_id => "client_id"
  | .active => "active"
  | .type => "type"
  | .state => "state"
  | .protocol => "protocol"
  | .server_ip => "server_ip"
  | .server_port => "server_port"
  | .start_time_ms => "start_time_ms"
  | .last_active_time_ms => "last_active_time_ms"
  | .user_id => "user_id"
  | .auth_token => "auth_token"
  | .region => "region"
  | .need_transcode => "need_transcode"
  | .need_record => "need_record"
  | .transcoding_profile => "transcoding_profile"
  | .total => "total"

theorem Field.name_injective : Function.Injective Field.name := by
  intro f g h
  cases f <;> cases g <;> first | rfl | exact absurd h (by decide)

/-- The content of a hash. -/
abbrev Fields := Field → Option String

end StreamGate.Redis
