import StreamGate.Lib.Assign
import Mathlib.Data.String.Defs

/-!
# Configuration

`ConfigLoader` merges an ini file, an env file and environment variables into a map that it checks before the old one
goes.
-/

namespace StreamGate.Config

open StreamGate.Lib

abbrev ConfigMap := String → Option String

structure LoadOptions where
  allow_missing_ini : Bool := false
  allow_missing_env : Bool := true
  override_from_environment : Bool := true
  env_keys_to_load : List String := []

/-- A predicate on values that may throw, with what its exception says. -/
abbrev Validator := String → Except String Bool

structure ValidatorInfo where
  func : Validator
  error_message : String

structure ConfigLoader where
  _configMap : ConfigMap := fun _ => none
  _last_ini_file : String := ""
  _last_env_file : String := ""
  _last_options : LoadOptions := {}
  -- in the order of the keys
  _validators : List (String × ValidatorInfo) := []

/-- The files that can be opened and the environment variables that are set. -/
structure System where
  files : String → Option String
  getenv : String → Option String

namespace ConfigLoader

/-! ### Lines -/

def isBlank (c : Char) : Bool := c = ' ' || c = '\t' || c = '\n' || c = '\r'

def trim (str : List Char) : List Char := (str.dropWhile isBlank).rdropWhile isBlank

def unquote (str : List Char) : List Char :=
  if 2 ≤ str.length ∧ (str.head? = some '"' ∧ str.getLast? = some '"' ∨
      str.head? = some '\'' ∧ str.getLast? = some '\'') then
    str.tail.dropLast
  else str

/-- What `std::getline` reads one after the other: a line break at the end of the text opens no further line. -/
def getlines : List Char → List (List Char)
  | [] => []
  | c :: text =>
    if c = '\n' then [] :: getlines text
    else match getlines text with
      | [] => [[c]]
      | line :: lines => (c :: line) :: lines

/-- The entry that a line sets. -/
def entry (line : List Char) : Option (String × String) :=
  let line := trim line
  if line = [] ∨ line.head? = some '#' ∨ line.head? = some ';' then none
  else if '=' ∈ line then
    let key := trim (line.takeWhile (· ≠ '='))
    let val := unquote (line.dropWhile (· ≠ '=')).tail
    if key ≠ [] then some (String.ofList key, String.ofList val) else none
  else none

/-- The entries of a file in their order. -/
def entries (text : String) : List (String × String) := (getlines text.toList).filterMap entry

def readLine (targetMap : ConfigMap) (line : List Char) : ConfigMap :=
  match entry line with
  | none => targetMap
  | some (key, val) => Function.update targetMap key (some val)

/-! ### Sources -/

def parseFileToMap (sys : System) (filename : String) (targetMap : ConfigMap) (optional : Bool) :
    Except String ConfigMap :=
  match sys.files filename with
  | none => if optional then .ok targetMap else .error ("Cannot open config file: " ++ filename)
  | some text => .ok ((getlines text.toList).foldl readLine targetMap)

def readEnv (sys : System) (targetMap : ConfigMap) (key : String) : ConfigMap :=
  match sys.getenv key with
  | none => targetMap
  | some env_val => Function.update targetMap key (some env_val)

def loadEnvToMap (sys : System) (keys : List String) (targetMap : ConfigMap) : ConfigMap :=
  keys.foldl (readEnv sys) targetMap

def getDefaultEnvKeys : List String :=
  ["DB_HOST", "DB_PORT", "DB_USER", "DB_PASS", "DB_NAME", "REDIS_HOST", "REDIS_PORT", "CACHE_TTL_SECONDS",
    "SERVER_PORT", "SERVER_ADDRESS", "SERVER_MAX_THREADS", "STREAM_SECRET_KEY"]

/-- The keys that are looked up in the environment. -/
def envKeys (options : LoadOptions) : List String :=
  if options.env_keys_to_load = [] then getDefaultEnvKeys else options.env_keys_to_load

/-! ### Loading -/

/-- All validators in their order, up to the first that refuses or throws. -/
def validateMap (targetMap : ConfigMap) : List (String × ValidatorInfo) → Except String Bool
  | [] => .ok true
  | (key, info) :: rest =>
    match targetMap key with
    | none => .ok false
    | some value => do
      if ← info.func value then validateMap targetMap rest
      else return false

/-- The env file, where there is one. -/
def parseEnvFile (sys : System) (env_filename : String) (targetMap : ConfigMap) (options : LoadOptions) :
    Except String ConfigMap :=
  if env_filename = "" then .ok targetMap
  else parseFileToMap sys env_filename targetMap options.allow_missing_env

def overrideFromEnvironment (sys : System) (targetMap : ConfigMap) (options : LoadOptions) : ConfigMap :=
  if options.override_from_environment then loadEnvToMap sys (envKeys options) targetMap else targetMap

/-- The map before it is checked. -/
def nextConfig (sys : System) (ini_filename env_filename : String) (options : LoadOptions) :
    Except String ConfigMap := do
  let ini ← parseFileToMap sys ini_filename (fun _ => none) options.allow_missing_ini
  let files ← parseEnvFile sys env_filename ini options
  return overrideFromEnvironment sys files options

def load (self : ConfigLoader) (sys : System) (ini_filename : String) (env_filename : String := "")
    (options : LoadOptions := {}) : Bool × ConfigLoader :=
  match nextConfig sys ini_filename env_filename options with
  | .error _ => (false, self)
  | .ok next =>
    match validateMap next self._validators with
    | .error _ => (false, self)
    | .ok false => (false, self)
    | .ok true =>
      (true, { self with
        _configMap := next
        _last_ini_file := ini_filename
        _last_env_file := env_filename
        _last_options := options })

def reload (self : ConfigLoader) (sys : System) : ConfigLoader :=
  (self.load sys self._last_ini_file self._last_env_file self._last_options).2

/-! ### Precedence -/

section Precedence

variable {sys : System} {filename ini_filename env_filename key : String} {options : LoadOptions}
  {optional : Bool} {keys : List String} {targetMap next : ConfigMap} {self : ConfigLoader}

/-- The last value that a file gives to a key. -/
def fileValue (sys : System) (filename key : String) : Option String :=
  (sys.files filename).bind fun text => lastAssigned (entries text) key

/-- The value of a key in the environment, where it is looked up there. -/
def envValue (sys : System) (options : LoadOptions) (key : String) : Option String :=
  if options.override_from_environment = true ∧ key ∈ envKeys options then sys.getenv key else none

/-- What a configuration says: the environment goes before the env file, and that before the ini file. -/
def effective (sys : System) (ini_filename env_filename : String) (options : LoadOptions) : ConfigMap := fun key =>
  (envValue sys options key).or
    ((if env_filename = "" then none else fileValue sys env_filename key).or (fileValue sys ini_filename key))

/-- A map that all validators accept. -/
def Accepted (targetMap : ConfigMap) (validators : List (String × ValidatorInfo)) : Prop :=
  ∀ v ∈ validators, ∃ value, targetMap v.1 = some value ∧ v.2.func value = .ok true

theorem bind_eq_ok {α β : Type} {x : Except String α} {f : α → Except String β} {b : β} (h : x >>= f = .ok b) :
    ∃ a, x = .ok a ∧ f a = .ok b := by
  cases x with
  | error e => cases h
  | ok a => exact ⟨a, rfl, h⟩

theorem foldl_readLine (lines : List (List Char)) (targetMap : ConfigMap) :
    lines.foldl readLine targetMap = assign (lines.filterMap entry) targetMap := by
  induction lines generalizing targetMap with
  | nil => rfl
  | cons line lines ih =>
    rw [List.foldl_cons, ih, List.filterMap_cons, readLine]
    cases entry line <;> rfl

/-- A file puts its entries over what was there. -/
theorem parseFileToMap_apply (h : parseFileToMap sys filename targetMap optional = .ok next) (key : String) :
    next key = (fileValue sys filename key).or (targetMap key) := by
  unfold parseFileToMap at h
  unfold fileValue
  cases hfile : sys.files filename with
  | none =>
    simp only [hfile] at h
    split at h
    · cases h
      rfl
    · cases h
  | some text =>
    simp only [hfile] at h
    cases h
    rw [foldl_readLine]
    exact assign_apply (entries text) targetMap key

theorem readEnv_apply (sys : System) (targetMap : ConfigMap) (first key : String) :
    readEnv sys targetMap first key = (if key = first then sys.getenv key else none).or (targetMap key) := by
  unfold readEnv
  rcases eq_or_ne key first with rfl | hne
  · rw [if_pos rfl]
    cases sys.getenv key with
    | none => rfl
    | some env_val => exact Function.update_self _ _ _
  · rw [if_neg hne, Option.none_or]
    cases sys.getenv first with
    | none => rfl
    | some env_val => exact Function.update_of_ne hne _ _

theorem loadEnvToMap_apply (sys : System) (keys : List String) (targetMap : ConfigMap) (key : String) :
    loadEnvToMap sys keys targetMap key = (if key ∈ keys then sys.getenv key else none).or (targetMap key) := by
  unfold loadEnvToMap
  induction keys generalizing targetMap with
  | nil => rfl
  | cons first keys ih =>
    rw [List.foldl_cons, ih, readEnv_apply]
    by_cases hmem : key ∈ keys
    · rw [if_pos hmem, if_pos (List.mem_cons_of_mem first hmem)]
      split
      · rw [← Option.or_assoc, Option.or_self]
      · rw [Option.none_or]
    · rw [if_neg hmem, Option.none_or]
      simp [hmem]

/-- The map before it is checked has the precedence. -/
theorem nextConfig_eq (h : nextConfig sys ini_filename env_filename options = .ok next) :
    next = effective sys ini_filename env_filename options := by
  obtain ⟨ini, hini, h⟩ := bind_eq_ok h
  obtain ⟨files, hfiles, h⟩ := bind_eq_ok h
  cases h
  funext key
  have hini_key : ini key = fileValue sys ini_filename key := by
    rw [parseFileToMap_apply hini key, Option.or_none]
  have hfiles_key : files key =
      (if env_filename = "" then none else fileValue sys env_filename key).or (fileValue sys ini_filename key) := by
    unfold parseEnvFile at hfiles
    split at hfiles
    · cases hfiles
      rw [if_pos ‹_›, Option.none_or, hini_key]
    · rw [if_neg ‹_›, parseFileToMap_apply hfiles key, hini_key]
  unfold overrideFromEnvironment effective envValue
  cases options.override_from_environment with
  | false => simpa using hfiles_key
  | true =>
    rw [if_pos rfl, loadEnvToMap_apply, hfiles_key]
    simp

theorem validateMap_eq_true {validators : List (String × ValidatorInfo)} :
    validateMap next validators = .ok true ↔ Accepted next validators := by
  induction validators with
  | nil => simp [validateMap, Accepted]
  | cons v validators ih =>
    obtain ⟨key, info⟩ := v
    unfold Accepted at ih ⊢
    rw [List.forall_mem_cons, validateMap, ← ih]
    cases next key with
    | none => simp
    | some value =>
      cases hfunc : info.func value with
      | error e => simp [hfunc, bind, Except.bind]
      | ok accepted => cases accepted <;> simp [hfunc, bind, Except.bind, pure, Except.pure]

/-- **All or nothing.**  A load that succeeds leaves the effective configuration, which all validators accept; any
other leaves the loader as it was. -/
theorem load_all_or_nothing (self : ConfigLoader) (sys : System) (ini_filename env_filename : String)
    (options : LoadOptions) :
    ((self.load sys ini_filename env_filename options).1 = true ∧
      (self.load sys ini_filename env_filename options).2._configMap =
        effective sys ini_filename env_filename options ∧
      Accepted (self.load sys ini_filename env_filename options).2._configMap self._validators) ∨
    ((self.load sys ini_filename env_filename options).1 = false ∧
      (self.load sys ini_filename env_filename options).2 = self) := by
  unfold load
  cases hnext : nextConfig sys ini_filename env_filename options with
  | error e => exact .inr ⟨rfl, rfl⟩
  | ok next =>
    dsimp only
    cases hvalid : validateMap next self._validators with
    | error e => exact .inr ⟨rfl, rfl⟩
    | ok accepted =>
      cases accepted with
      | false => exact .inr ⟨rfl, rfl⟩
      | true => exact .inl ⟨rfl, nextConfig_eq hnext, validateMap_eq_true.1 hvalid⟩

end Precedence

end ConfigLoader

end StreamGate.Config
