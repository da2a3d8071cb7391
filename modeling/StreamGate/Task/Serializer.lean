import StreamGate.Task.StreamTask

/-!
# `StreamTaskSerializer`

A second encoding of tasks, with other names for the fields and the enumerations, times in seconds, the task id and the
two counters.  The counters are behind pointers that may be null, and `serialize` reads them without a look: it has a
result exactly when neither is (`round_trip_iff`).
-/

namespace StreamGate.Task

open StreamGate.Lib

/-! ### `EnumToString` -/

namespace EnumToString

def typeToString : StreamType → String
  | .PUBLISHER => "PUBLISHER"
  | .PLAYER => "PLAYER"

def typeFromString (s : String) : StreamType := if s = "PUBLISHER" then .PUBLISHER else .PLAYER

def stateToString : StreamState → String
  | .INITIALIZING => "INITIALIZING"
  | .ACTIVE => "ACTIVE"
  | .INACTIVE => "INACTIVE"
  | .ERROR => "ERROR"
  | .CLOSED => "CLOSED"

def stateFromString (s : String) : StreamState :=
  if s = "ACTIVE" then .ACTIVE
  else if s = "INACTIVE" then .INACTIVE
  else if s = "ERROR" then .ERROR
  else if s = "CLOSED" then .CLOSED
  else .INITIALIZING

def protocolToString : StreamProtocol → String
  | .RTMP => "RTMP"
  | .RTSP => "RTSP"
  | .HLS => "HLS"
  | .HTTP_FLV => "HTTP_FLV"
  | .HTTP_TS => "HTTP_TS"
  | .HTTP_FMP4 => "HTTP_FMP4"
  | .WebRTC => "WEBRTC"
  | .SRT => "SRT"
  | .Unknown => "UNKNOWN"

/-- The text is read in any letter case. -/
def protocolFromString (text : String) : StreamProtocol :=
  let s := text.map Char.toUpper
  if s = "RTMP" then .RTMP
  else if s = "RTSP" then .RTSP
  else if s = "HLS" then .HLS
  else if s = "HTTP_FLV" then .HTTP_FLV
  else if s = "HTTP_TS" ∨ s = "HTTP-TS" then .HTTP_TS
  else if s = "HTTP_FMP4" ∨ s = "HTTP-FMP4" then .HTTP_FMP4
  else if s = "WEBRTC" then .WebRTC
  else if s = "SRT" then .SRT
  else .Unknown

@[simp] theorem typeFromString_typeToString (t : StreamType) : typeFromString (typeToString t) = t := by
  cases t <;> decide +kernel

@[simp] theorem stateFromString_stateToString (s : StreamState) : stateFromString (stateToString s) = s := by
  cases s <;> decide +kernel

@[simp] theorem protocolFromString_protocolToString (p : StreamProtocol) :
    protocolFromString (protocolToString p) = p := by
  cases p <;> decide +kernel

end EnumToString

/-! ### The maps -/

namespace StreamTaskSerializer

open EnumToString

/-- The keys of a map. -/
inductive TaskField where
  | task_id | stream_name | client_id | type | state | protocol | server_ip | server_port | start_time
  | last_active_time | user_id | auth_token | bandwidth_kbps | player_count | need_transcode | need_record
  | transcoding_profile | region
  deriving DecidableEq

/-- A map from keys to texts. -/
abbrev TaskMap := TaskField → Option String

/-- `time_point_to_string`: whole seconds. -/
def time_point_to_string (tp : ℤ) : String := Decimal.to_string (tp.tdiv 1000000000)

/-- `string_to_time_point`: a text that is no number is the epoch. -/
def string_to_time_point (s : String) : ℤ := ((Decimal.stoll s).map fun seconds => seconds * 1000000000).getD 0

def get_field (fields : TaskMap) (key : TaskField) (default_val : String) : String := (fields key).getD default_val

/-- The map of a task, once its two counters have been read. -/
def fieldsOf (task : StreamTask) (bandwidth_kbps : UInt64) (player_count : UInt32) : TaskMap
  | .task_id => some (Decimal.to_string task.task_id.toNat)
  | .stream_name => some task.stream_name
  | .client_id => some task.client_id
  | .type => some (typeToString task.type)
  | .state => some (stateToString task.state)
  | .protocol => some (protocolToString task.protocol)
  | .server_ip => some task.server_ip
  | .server_port => some (Decimal.to_string task.server_port.toInt)
  | .start_time => some (time_point_to_string task.start_time)
  | .last_active_time => some (time_point_to_string task.last_active_time)
  | .user_id => some task.user_id
  | .auth_token => some task.auth_token
  | .bandwidth_kbps => some (Decimal.to_string bandwidth_kbps.toNat)
  | .player_count => some (Decimal.to_string player_count.toNat)
  | .need_transcode => some (flag task.need_transcode)
  | .need_record => some (flag task.need_record)
  | .transcoding_profile => some task.transcoding_profile
  | .region => some (task.region.getD "")

/-- `none` stands for the dereference of a null pointer. -/
def serialize (task : StreamTask) : Option TaskMap := do
  let bandwidth_kbps ← task.bandwidth_kbps
  let player_count ← task.player_count
  return fieldsOf task bandwidth_kbps player_count

/-- A number that cannot be read makes the whole map unreadable, but for the times. -/
def deserialize (fields : TaskMap) : Option StreamTask := do
  let task_id ← Decimal.stoull (get_field fields .task_id "0")
  let server_port ← Decimal.stoi (get_field fields .server_port "0")
  let bandwidth_kbps ← Decimal.stoull (get_field fields .bandwidth_kbps "0")
  let player_count ← Decimal.stoull (get_field fields .player_count "0")
  return {
    task_id := UInt64.ofNat task_id
    stream_name := get_field fields .stream_name ""
    client_id := get_field fields .client_id ""
    type := typeFromString (get_field fields .type "")
    state := stateFromString (get_field fields .state "")
    protocol := protocolFromString (get_field fields .protocol "")
    server_ip := get_field fields .server_ip ""
    server_port := Int32.ofInt server_port
    start_time := string_to_time_point (get_field fields .start_time "")
    last_active_time := string_to_time_point (get_field fields .last_active_time "")
    user_id := get_field fields .user_id ""
    auth_token := get_field fields .auth_token ""
    region := some (get_field fields .region "") |>.filter fun r => r ≠ ""
    bandwidth_kbps := some (UInt64.ofNat bandwidth_kbps)
    player_count := some (UInt32.ofNat player_count)
    need_transcode := get_field fields .need_transcode "0" = "1"
    need_record := get_field fields .need_record "0" = "1"
    transcoding_profile := get_field fields .transcoding_profile "" }

/-! ### The round trip -/

/-- A time that a `time_point` of nanoseconds can hold. -/
def IsTimePoint (t : ℤ) : Prop := -2 ^ 63 ≤ t ∧ t < 2 ^ 63

instance : DecidablePred IsTimePoint := fun t => inferInstanceAs (Decidable (-2 ^ 63 ≤ t ∧ t < 2 ^ 63))

/-- A task as it comes back: times in whole seconds, no empty region, and counters that are there. -/
def whole (t : StreamTask) : StreamTask :=
  { t with
    start_time := t.start_time.tdiv 1000000000 * 1000000000
    last_active_time := t.last_active_time.tdiv 1000000000 * 1000000000
    region := t.region.filter fun r => r ≠ ""
    bandwidth_kbps := some (t.bandwidth_kbps.getD 0)
    player_count := some (t.player_count.getD 0) }

theorem stoull_toNat {n : ℕ} (h : n < 2 ^ 64) : Decimal.stoull (Decimal.to_string n) = some n := by
  rw [Decimal.stoull_to_string, if_pos h]

theorem time_roundtrip {t : ℤ} (h : IsTimePoint t) :
    string_to_time_point (time_point_to_string t) = t.tdiv 1000000000 * 1000000000 := by
  have hfits : -2 ^ 63 ≤ t.tdiv 1000000000 ∧ t.tdiv 1000000000 ≤ 2 ^ 63 - 1 := by
    unfold IsTimePoint at h
    have habs := Int.natAbs_tdiv_le_natAbs t 1000000000
    by_cases hmin : t = -2 ^ 63
    · subst hmin
      decide
    · omega
  rw [string_to_time_point, time_point_to_string, Decimal.stoll_to_string hfits]
  rfl

theorem region_roundtrip (r : Option String) :
    (some (r.getD "")).filter (fun r => r ≠ "") = r.filter fun r => r ≠ "" := by
  cases r with
  | none => simp
  | some r => simp

/-- A map that was written is read back. -/
theorem deserialize_fieldsOf {t : StreamTask} (hs : IsTimePoint t.start_time) (hl : IsTimePoint t.last_active_time)
    (b : UInt64) (p : UInt32) :
    deserialize (fieldsOf t b p) = some { whole t with bandwidth_kbps := some b, player_count := some p } := by
  have hid := stoull_toNat t.task_id.toNat_lt
  have hb := stoull_toNat b.toNat_lt
  have hp := stoull_toNat (p.toNat_lt.trans (by decide))
  have hport : Decimal.stoi (Decimal.to_string t.server_port.toInt) = some t.server_port.toInt := by
    have h1 := t.server_port.toInt_lt
    have h2 := t.server_port.le_toInt
    exact Decimal.stoi_to_string (by omega)
  simp only [deserialize, get_field, fieldsOf, Option.getD_some, hid, hb, hp, hport, Option.bind_eq_bind,
    Option.bind_some, Option.pure_def, typeFromString_typeToString, stateFromString_stateToString,
    protocolFromString_protocolToString, time_roundtrip hs, time_roundtrip hl, region_roundtrip,
    UInt64.ofNat_toNat, UInt32.ofNat_toNat, Int32.ofInt_toInt]
  simp only [whole, Option.some.injEq, StreamTask.mk.injEq, true_and, and_true]
  exact ⟨flag_eq t.need_transcode, flag_eq t.need_record⟩

/-- **When a task comes back.**  The map is made without a null dereference, and read back as the task, exactly when
neither counter is behind a null pointer. -/
theorem round_trip_iff {t : StreamTask} (hs : IsTimePoint t.start_time) (hl : IsTimePoint t.last_active_time) :
    (∃ fields, serialize t = some fields ∧ deserialize fields = some (whole t)) ↔
      t.bandwidth_kbps ≠ none ∧ t.player_count ≠ none := by
  unfold serialize
  cases hb : t.bandwidth_kbps with
  | none => simp
  | some b =>
    cases hp : t.player_count with
    | none => simp
    | some p =>
      have hread := deserialize_fieldsOf hs hl b p
      refine iff_of_true ⟨_, rfl, ?_⟩ ⟨Option.some_ne_none b, Option.some_ne_none p⟩
      rw [hread, whole, hb, hp]
      rfl

/-- A task as `createTask` makes it. -/
def created : StreamTask where
  task_id := 1000
  stream_name := "live"
  client_id := "a"
  type := .PUBLISHER
  protocol := .RTMP
  server_ip := "127.0.0.1"
  server_port := 1935
  start_time := 1700000000123456789
  last_active_time := 1700000000123456789
  auth_token := "t"

/-- With counters it comes back. -/
theorem counted_round_trip :
    let t := { created with bandwidth_kbps := some 5, player_count := some 2 }
    (∃ fields, serialize t = some fields ∧ deserialize fields = some (whole t)) ↔
      t.bandwidth_kbps ≠ none ∧ t.player_count ≠ none :=
  round_trip_iff (by decide +kernel) (by decide +kernel)

/-- Without them it is not even written. -/
theorem created_not_serialized :
    created.bandwidth_kbps = none ∧ created.player_count = none ∧ (serialize created).isNone ∧
      ¬ ∃ fields, serialize created = some fields ∧ deserialize fields = some (whole created) := by
  refine ⟨rfl, rfl, rfl, ?_⟩
  rintro ⟨fields, h, -⟩
  exact Option.some_ne_none fields h.symm

end StreamTaskSerializer

end StreamGate.Task
