import StreamGate.Redis.World

/-!
# Stream tasks and their hashes

`StreamTask` and the encoding of a task as a Redis hash: `serializeTask` writes sixteen fields,
`deserializeTask` reads them back and refuses a hash that misses a required field, has an unknown
type, or has a time outside the accepted range.  `deserialize_serialize` is the round trip.
-/

namespace StreamGate.Task

open StreamGate.Redis StreamGate.Lib

/-! ### The enumerations -/

inductive StreamType where
  | PUBLISHER | PLAYER
  deriving DecidableEq, Repr

inductive StreamState where
  | INITIALIZING | ACTIVE | INACTIVE | ERROR | CLOSED
  deriving DecidableEq, Repr

inductive StreamProtocol where
  | RTMP | HTTP_FLV | HLS | RTSP | WebRTC | SRT | HTTP_TS | HTTP_FMP4 | Unknown
  deriving DecidableEq, Repr

def StreamProtocol.toString : StreamProtocol → String
  | .RTMP => "rtmp"
  | .RTSP => "rtsp"
  | .HLS => "hls"
  | .HTTP_FLV => "http-flv"
  | .HTTP_TS => "http-ts"
  | .HTTP_FMP4 => "http-fmp4"
  | .WebRTC => "webrtc"
  | .SRT => "srt"
  | .Unknown => "unknown"

/-- The text is read in any letter case. -/
def parseProtocol (text : String) : StreamProtocol :=
  let s := text.map Char.toLower
  if s = "rtmp" then .RTMP
  else if s = "rtsp" then .RTSP
  else if s = "hls" then .HLS
  else if s = "http-flv" then .HTTP_FLV
  else if s = "http-ts" then .HTTP_TS
  else if s = "http-fmp4" then .HTTP_FMP4
  else if s = "webrtc" then .WebRTC
  else if s = "srt" then .SRT
  else .Unknown

def StreamState.toString : StreamState → String
  | .INITIALIZING => "initializing"
  | .ACTIVE => "active"
  | .INACTIVE => "inactive"
  | .ERROR => "error"
  | .CLOSED => "closed"

def parseState (s : String) : StreamState :=
  if s = "initializing" then .INITIALIZING
  else if s = "active" then .ACTIVE
  else if s = "inactive" then .INACTIVE
  else if s = "error" then .ERROR
  else if s = "closed" then .CLOSED
  else .INITIALIZING

def StreamType.toString (type : StreamType) : String :=
  if type = .PUBLISHER then "publisher" else "player"

def parseType (s : String) : StreamType := if s = "publisher" then .PUBLISHER else .PLAYER

theorem parseProtocol_toString (p : StreamProtocol) : parseProtocol p.toString = p := by
  cases p <;> decide +kernel

theorem parseState_toString (s : StreamState) : parseState s.toString = s := by
  cases s <;> decide +kernel

theorem parseType_toString (t : StreamType) : parseType t.toString = t := by
  cases t <;> decide +kernel

theorem toString_eq_publisher {t : StreamType} : t.toString = "publisher" ↔ t = .PUBLISHER := by
  cases t <;> decide

/-! ### Tasks -/

/-- A task: one client on one stream.  Times are in nanoseconds since the epoch, and the two
counters are the values behind their pointers, `none` for a null pointer. -/
structure StreamTask where
  task_id : UInt64 := 0
  stream_name : String := ""
  client_id : String := ""
  type : StreamType := .PLAYER
  state : StreamState := .INITIALIZING
  protocol : StreamProtocol := .Unknown
  server_ip : String := ""
  server_port : Int32 := 0
  start_time : ℤ := 0
  last_active_time : ℤ := 0
  user_id : String := ""
  auth_token : String := ""
  region : Option String := none
  bandwidth_kbps : Option UInt64 := none
  player_count : Option UInt32 := none
  need_transcode : Bool := false
  need_record : Bool := false
  transcoding_profile : String := ""
  deriving DecidableEq

/-- `TaskIdentifier`. -/
structure TaskIdentifier where
  streamName : String
  clientId : String
  type : StreamType
  deriving DecidableEq

/-- The key of a task. -/
def StreamTask.key (t : StreamTask) : Key := buildTaskKey t.stream_name t.client_id

/-- The identifier of a task. -/
def StreamTask.ident (t : StreamTask) : TaskIdentifier := ⟨t.stream_name, t.client_id, t.type⟩

/-- 2020-01-01 00:00:00 UTC. -/
def MIN_REASONABLE_MS : ℤ := 1577836800000
/-- 2038-01-01 00:00:00 UTC. -/
def MAX_REASONABLE_MS : ℤ := 2145916800000

/-- A millisecond the code accepts. -/
def Reasonable (t : ℤ) : Prop := MIN_REASONABLE_MS ≤ t ∧ t ≤ MAX_REASONABLE_MS

instance : DecidablePred Reasonable := fun t =>
  inferInstanceAs (Decidable (MIN_REASONABLE_MS ≤ t ∧ t ≤ MAX_REASONABLE_MS))

/-! ### The hash of a task -/

def flag (b : Bool) : String := if b then "1" else "0"

/-- The fields written for a task. -/
def serializeTask (task : StreamTask) : Fields
  | .stream_name => some task.stream_name
  | .client_id => some task.client_id
  | .active => some "1"
  | .type => some task.type.toString
  | .state => some task.state.toString
  | .protocol => some task.protocol.toString
  | .server_ip => some task.server_ip
  | .server_port => some (Decimal.to_string task.server_port.toInt)
  | .start_time_ms => some (Decimal.to_string (ms task.start_time))
  | .last_active_time_ms => some (Decimal.to_string (ms task.last_active_time))
  | .user_id => some task.user_id
  | .auth_token => some task.auth_token
  | .region => some (task.region.getD "")
  | .need_transcode => some (flag task.need_transcode)
  | .need_record => some (flag task.need_record)
  | .transcoding_profile => some task.transcoding_profile
  | .total => none

/-- The fields without which a hash is no task. -/
def required : List Field := [.stream_name, .client_id, .type, .start_time_ms, .last_active_time_ms]

/-- The task in a hash, if there is one. -/
def deserializeTask (fields : Fields) : Option StreamTask :=
  if required.any fun k => (fields k).isNone then none
  else
    let at' (k : Field) : String := (fields k).getD ""
    let type_str := at' .type
    if type_str ≠ "publisher" ∧ type_str ≠ "player" then none
    else
      match Decimal.stoll (at' .start_time_ms), Decimal.stoll (at' .last_active_time_ms) with
      | some start_ms, some last_ms =>
        if ¬ Reasonable start_ms ∨ ¬ Reasonable last_ms then none
        else some {
          stream_name := at' .stream_name
          client_id := at' .client_id
          type := parseType type_str
          state := ((fields .state).map parseState).getD .INITIALIZING
          protocol := ((fields .protocol).map parseProtocol).getD .Unknown
          server_ip := at' .server_ip
          server_port := (((fields .server_port).bind Decimal.stoi).map Int32.ofInt).getD 0
          start_time := start_ms * 1000000
          last_active_time := last_ms * 1000000
          user_id := at' .user_id
          auth_token := at' .auth_token
          region := (fields .region).filter fun r => r ≠ ""
          need_transcode := fields .need_transcode = some "1"
          need_record := fields .need_record = some "1"
          transcoding_profile := at' .transcoding_profile }
      | _, _ => none

/-! ### The round trip -/

/-- The times of a task, in milliseconds, are in the accepted range. -/
def StreamTask.Readable (t : StreamTask) : Prop :=
  Reasonable (ms t.start_time) ∧ Reasonable (ms t.last_active_time)

instance : DecidablePred StreamTask.Readable := fun t =>
  inferInstanceAs (Decidable (Reasonable (ms t.start_time) ∧ Reasonable (ms t.last_active_time)))

/-- What is left of a task once it has been stored: no task id, times in whole milliseconds, no
empty region and no counters. -/
def StreamTask.stored (t : StreamTask) : StreamTask :=
  { t with
    task_id := 0
    start_time := ms t.start_time * 1000000
    last_active_time := ms t.last_active_time * 1000000
    region := t.region.filter fun r => r ≠ ""
    bandwidth_kbps := none
    player_count := none }

@[simp] theorem stored_stream_name (t : StreamTask) : t.stored.stream_name = t.stream_name := rfl
@[simp] theorem stored_client_id (t : StreamTask) : t.stored.client_id = t.client_id := rfl
@[simp] theorem stored_type (t : StreamTask) : t.stored.type = t.type := rfl

@[simp] theorem ms_mul (t : ℤ) : ms (t * 1000000) = t := Int.mul_tdiv_cancel _ (by decide)

lemma Reasonable.fits {t : ℤ} (h : Reasonable t) : -2 ^ 63 ≤ t ∧ t ≤ 2 ^ 63 - 1 := by
  unfold Reasonable MIN_REASONABLE_MS MAX_REASONABLE_MS at h
  omega

lemma stoll_of_not_reasonable {t z : ℤ} (h : ¬ Reasonable t)
    (hz : Decimal.stoll (Decimal.to_string t) = some z) : ¬ Reasonable z := by
  by_cases hr : -2 ^ 63 ≤ t ∧ t ≤ 2 ^ 63 - 1
  · rw [Decimal.stoll_to_string hr] at hz
    exact Option.some.inj hz ▸ h
  · exact absurd hz (by rw [Decimal.stoll, Decimal.parseIn_to_string_none hr]; simp)

lemma type_toString (t : StreamType) : t.toString = "publisher" ∨ t.toString = "player" := by
  cases t <;> decide

lemma flag_eq (b : Bool) : decide (flag b = "1") = b := by cases b <;> decide

lemma port_roundtrip (p : Int32) :
    ((some (Decimal.to_string p.toInt)).bind Decimal.stoi).map Int32.ofInt = some p := by
  have h1 := p.toInt_lt
  have h2 := p.le_toInt
  rw [Option.bind_some, Decimal.stoi_to_string (by omega), Option.map_some, Int32.ofInt_toInt]

/-- **The round trip.**  A task is read back from its hash exactly when its times are in the
accepted range, up to what a hash does not hold. -/
theorem deserialize_serialize (t : StreamTask) :
    deserializeTask (serializeTask t) = if t.Readable then some t.stored else none := by
  have hreq : (required.any fun k => (serializeTask t k).isNone) = false := rfl
  have htype : ¬ (t.type.toString ≠ "publisher" ∧ t.type.toString ≠ "player") := by
    rcases type_toString t.type with h | h <;> simp [h]
  unfold deserializeTask
  rw [if_neg (by rw [hreq]; simp)]
  simp only [serializeTask, Option.getD_some, if_false, htype]
  split
  · rename_i start_ms last_ms hs hl
    by_cases hr : t.Readable
    · rw [Decimal.stoll_to_string hr.1.fits, Option.some.injEq] at hs
      rw [Decimal.stoll_to_string hr.2.fits, Option.some.injEq] at hl
      subst hs hl
      have hok : ¬ (¬ Reasonable (ms t.start_time) ∨ ¬ Reasonable (ms t.last_active_time)) := by
        rintro (h | h)
        · exact h hr.1
        · exact h hr.2
      rw [if_neg hok, if_pos hr]
      simp only [Option.map_some, Option.getD_some, parseType_toString, parseState_toString,
        parseProtocol_toString, port_roundtrip, StreamTask.stored]
      cases t.region with
      | none => simp [flag_eq]
      | some r => simp [flag_eq]
    · rw [if_neg hr, if_pos]
      by_contra hc
      push Not at hc
      refine hr ⟨?_, ?_⟩
      · by_contra h; exact stoll_of_not_reasonable h hs hc.1
      · by_contra h; exact stoll_of_not_reasonable h hl hc.2
  · rename_i hno
    rw [if_neg]
    intro hr
    exact hno _ _ (Decimal.stoll_to_string hr.1.fits) (Decimal.stoll_to_string hr.2.fits)

/-- What is read from a hash has nothing that a hash does not hold. -/
theorem stored_of_deserialize {f : Fields} {u : StreamTask} (h : deserializeTask f = some u) : u.stored = u := by
  unfold deserializeTask at h
  split at h
  · cases h
  · dsimp only at h
    split at h
    · cases h
    · split at h
      · split at h
        · cases h
        · obtain rfl := Option.some.inj h
          simp [StreamTask.stored, Option.filter_filter]
      · cases h

/-- The decoder does not look at the field of the counter. -/
theorem deserializeTask_congr {f g : Fields} (h : ∀ k, k ≠ .total → f k = g k) :
    deserializeTask f = deserializeTask g := by
  have hreq : (required.any fun k => (f k).isNone) = required.any fun k => (g k).isNone := by
    simp [required, h]
  simp only [deserializeTask, hreq]
  simp [h]

/-- Writing a task over any hash gives the hash of the task. -/
theorem deserialize_over (t : StreamTask) (old : Fields) :
    deserializeTask ((serializeTask t).over old) = if t.Readable then some t.stored else none := by
  rw [← deserialize_serialize]
  refine deserializeTask_congr fun k hk => ?_
  cases k <;> first | rfl | exact absurd rfl hk

/-- What is read from a hash was in its fields. -/
theorem deserialize_some {f : Fields} {t : StreamTask} (h : deserializeTask f = some t) :
    f .stream_name = some t.stream_name ∧ f .client_id = some t.client_id ∧
      f .type = some t.type.toString ∧
      (∃ x, f .start_time_ms = some x ∧ Decimal.stoll x = some (ms t.start_time)) ∧
      (∃ x, f .last_active_time_ms = some x ∧ Decimal.stoll x = some (ms t.last_active_time)) ∧
      t.Readable := by
  unfold deserializeTask at h
  split at h
  · cases h
  · rename_i hreq
    have hsome : ∀ k ∈ required, ∃ v, f k = some v := by
      intro k hk
      by_contra hc
      refine hreq (List.any_eq_true.2 ⟨k, hk, Option.isNone_iff_eq_none.2 ?_⟩)
      exact Option.eq_none_iff_forall_ne_some.2 fun v hv => hc ⟨v, hv⟩
    obtain ⟨sn, hsn⟩ := hsome .stream_name (by decide)
    obtain ⟨ci, hci⟩ := hsome .client_id (by decide)
    obtain ⟨ty, hty⟩ := hsome .type (by decide)
    obtain ⟨sm, hsm⟩ := hsome .start_time_ms (by decide)
    obtain ⟨lm, hlm⟩ := hsome .last_active_time_ms (by decide)
    simp only [hsn, hci, hty, hsm, hlm, Option.getD_some] at h
    split at h
    · cases h
    · rename_i htype
      split at h
      · rename_i start_ms last_ms hs hl
        split at h
        · cases h
        · rename_i hr
          push Not at hr
          obtain rfl := Option.some.inj h
          refine ⟨hsn, hci, ?_, ⟨sm, hsm, by simpa using hs⟩,
            ⟨lm, hlm, by simpa using hl⟩, by simpa [StreamTask.Readable] using hr⟩
          rw [hty]
          by_cases hp : ty = "publisher"
          · subst hp; rfl
          · have : ty = "player" := by
              by_contra hq; exact htype ⟨hp, hq⟩
            subst this; rfl
      · cases h

/-- **The codec.**  A task comes back from its hash exactly when its times are in the accepted range, as what a hash
holds of it; and what is read from any hash at all, however malformed, comes back as it is. -/
theorem codec : (∀ t, deserializeTask (serializeTask t) = if t.Readable then some t.stored else none) ∧
    ∀ m u, deserializeTask m = some u → deserializeTask (serializeTask u) = some u := by
  refine ⟨deserialize_serialize, fun m u h => ?_⟩
  obtain ⟨-, -, -, -, -, hr⟩ := deserialize_some h
  rw [deserialize_serialize, if_pos hr, stored_of_deserialize h]

/-- A hash with a port that is no number, an unknown protocol and blanks before the time. -/
def oddHash : Fields
  | .stream_name => some "live"
  | .client_id => some "a"
  | .type => some "player"
  | .protocol => some "Rtmps"
  | .server_port => some "99999999999"
  | .start_time_ms => some " 1700000000000ms"
  | .last_active_time_ms => some "+1700000000000"
  | .region => some ""
  | _ => none

theorem oddHash_again : (deserializeTask oddHash).isSome ∧
    ∀ u, deserializeTask oddHash = some u → deserializeTask (serializeTask u) = some u :=
  ⟨by decide +kernel, fun u h => codec.2 oddHash u h⟩

end StreamGate.Task
