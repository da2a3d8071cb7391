import StreamGate.Config.Loader
import StreamGate.Lib.Seen

/-!
# Configuration with many threads

`ConfigLoader` is a singleton that threads load, reload, change and read at the same time, while the files and the
environment change.  A load reads its sources one by one and locks the mutex twice, for the validators and for the
exchange of the maps.  At every moment the configuration is that of one load as a whole, with the values that have
been set since (`configuration_of_one_load`).
-/

namespace StreamGate.Config

open StreamGate.Lib

/-! ### Commands -/

/-- What a thread does with a file, the environment, or `_mutex` locked. -/
inductive Cmd where
  /-- The text of a file that can be opened. -/
  | ifstream (filename : String)
  | getenv (key : String)
  | validateMap (targetMap : ConfigMap)
  /-- `_configMap.swap`, and what `reload` is going to use. -/
  | swap (next : ConfigMap) (ini_filename env_filename : String) (options : LoadOptions)
  /-- What `reload` reads. -/
  | last
  | find (key : String)
  | set (key value : String)
  | addValidator (key : String) (info : ValidatorInfo)

abbrev Cmd.Reply : Cmd → Type
  | .ifstream _ => Option String
  | .getenv _ => Option String
  | .validateMap _ => Except String Bool
  | .last => String × String × LoadOptions
  | .find _ => Option String
  | _ => Unit

abbrev iface : Iface := ⟨Cmd, Cmd.Reply⟩

abbrev CProg (α : Type) := Prog iface α

namespace ConfigLoader

def set (self : ConfigLoader) (key value : String) : ConfigLoader :=
  { self with _configMap := Function.update self._configMap key (some value) }

/-- An entry of a map that is ordered by its keys. -/
def insertKey (key : String) (info : ValidatorInfo) :
    List (String × ValidatorInfo) → List (String × ValidatorInfo)
  | [] => [(key, info)]
  | v :: rest =>
    if key < v.1 then (key, info) :: v :: rest
    else if key = v.1 then (key, info) :: rest
    else v :: insertKey key info rest

def addValidator (self : ConfigLoader) (key : String) (info : ValidatorInfo) : ConfigLoader :=
  { self with _validators := insertKey key info self._validators }

def swap (self : ConfigLoader) (next : ConfigMap) (ini_filename env_filename : String) (options : LoadOptions) :
    ConfigLoader :=
  { self with
    _configMap := next
    _last_ini_file := ini_filename
    _last_env_file := env_filename
    _last_options := options }

end ConfigLoader

/-- The loader and the system. -/
abbrev Shared := ConfigLoader × System

def handle : (c : iface.Cmd) → Shared → iface.Reply c × Shared
  | .ifstream filename, s => (s.2.files filename, s)
  | .getenv key, s => (s.2.getenv key, s)
  | .validateMap targetMap, s => (ConfigLoader.validateMap targetMap s.1._validators, s)
  | .swap next ini env options, s => ((), s.1.swap next ini env options, s.2)
  | .last, s => ((s.1._last_ini_file, s.1._last_env_file, s.1._last_options), s)
  | .find key, s => (s.1._configMap key, s)
  | .set key value, s => ((), s.1.set key value, s.2)
  | .addValidator key info, s => ((), s.1.addValidator key info, s.2)

/-- Files and environment change by themselves. -/
def machine : Machine iface Shared System := ⟨handle, fun sys s => (s.1, sys)⟩

/-! ### The functions of the loader, command by command -/

namespace Concurrent

/-- A system with one text and no environment. -/
def reading (text : Option String) : System := ⟨fun _ => text, fun _ => none⟩

def parseFileToMap (filename : String) (targetMap : ConfigMap) (optional : Bool) : CProg (Except String ConfigMap) :=
  .exec (Cmd.ifstream filename) fun (text : Option String) =>
    .ret (ConfigLoader.parseFileToMap (reading text) filename targetMap optional)

def parseEnvFile (env_filename : String) (targetMap : ConfigMap) (options : LoadOptions) :
    CProg (Except String ConfigMap) :=
  if env_filename = "" then .ret (.ok targetMap)
  else parseFileToMap env_filename targetMap options.allow_missing_env

def loadEnvToMap : List String → ConfigMap → CProg ConfigMap
  | [], targetMap => .ret targetMap
  | key :: keys, targetMap =>
    .exec (Cmd.getenv key) fun (env_val : Option String) =>
      loadEnvToMap keys (ConfigLoader.readEnv ⟨fun _ => none, fun _ => env_val⟩ targetMap key)

def overrideFromEnvironment (targetMap : ConfigMap) (options : LoadOptions) : CProg ConfigMap :=
  if options.override_from_environment then loadEnvToMap (ConfigLoader.envKeys options) targetMap
  else .ret targetMap

/-- The map before it is checked; an exception of a file ends the load. -/
def nextConfig (ini_filename env_filename : String) (options : LoadOptions) : CProg (Option ConfigMap) := do
  match ← parseFileToMap ini_filename (fun _ => none) options.allow_missing_ini with
  | .error _ => return none
  | .ok ini =>
    match ← parseEnvFile env_filename ini options with
    | .error _ => return none
    | .ok files =>
      let next ← overrideFromEnvironment files options
      return some next

/-- The check and the exchange. -/
def publish (ini_filename env_filename : String) (options : LoadOptions) (next : ConfigMap) : CProg Bool :=
  .exec (Cmd.validateMap next) fun (accepted : Except String Bool) =>
    match accepted with
    | .ok true => .exec (Cmd.swap next ini_filename env_filename options) fun _ => .ret true
    | _ => .ret false

def load (ini_filename env_filename : String) (options : LoadOptions) : CProg Bool := do
  match ← nextConfig ini_filename env_filename options with
  | none => return false
  | some next => publish ini_filename env_filename options next

def reload : CProg Unit :=
  .exec Cmd.last fun (last : String × String × LoadOptions) =>
    load last.1 last.2.1 last.2.2 >>= fun _ => .ret ()

/-- A call. -/
inductive Call where
  | load (ini_filename env_filename : String) (options : LoadOptions)
  | reload
  | find (key : String)
  | set (key value : String)
  | addValidator (key : String) (validator : Validator) (err_msg : String)

/-- What a call returns. -/
inductive Outcome where
  | loaded (success : Bool)
  | found (value : Option String)
  | done
  deriving DecidableEq

def Call.prog : Call → CProg Outcome
  | .load ini env options => Concurrent.load ini env options >>= fun success => .ret (.loaded success)
  | .reload => Concurrent.reload >>= fun _ => .ret .done
  | .find key => .exec (Cmd.find key) fun (value : Option String) => .ret (.found value)
  | .set key value => .exec (Cmd.set key value) fun _ => .ret .done
  | .addValidator key validator err_msg => .exec (Cmd.addValidator key ⟨validator, err_msg⟩) fun _ => .ret .done

/-! ### Alone -/

theorem run_loadEnvToMap (keys : List String) (targetMap : ConfigMap) (s : Shared) :
    (loadEnvToMap keys targetMap).run handle s = (ConfigLoader.loadEnvToMap s.2 keys targetMap, s) := by
  induction keys generalizing targetMap with
  | nil => rfl
  | cons key keys ih => exact ih _

theorem run_parseFileToMap (filename : String) (targetMap : ConfigMap) (optional : Bool) (s : Shared) :
    (parseFileToMap filename targetMap optional).run handle s =
      (ConfigLoader.parseFileToMap s.2 filename targetMap optional, s) := rfl

theorem run_parseEnvFile (env_filename : String) (targetMap : ConfigMap) (options : LoadOptions) (s : Shared) :
    (parseEnvFile env_filename targetMap options).run handle s =
      (ConfigLoader.parseEnvFile s.2 env_filename targetMap options, s) := by
  unfold parseEnvFile ConfigLoader.parseEnvFile
  split
  · rfl
  · exact run_parseFileToMap _ _ _ s

theorem run_overrideFromEnvironment (targetMap : ConfigMap) (options : LoadOptions) (s : Shared) :
    (overrideFromEnvironment targetMap options).run handle s =
      (ConfigLoader.overrideFromEnvironment s.2 targetMap options, s) := by
  unfold overrideFromEnvironment ConfigLoader.overrideFromEnvironment
  split
  · exact run_loadEnvToMap _ _ s
  · rfl

theorem run_nextConfig (ini_filename env_filename : String) (options : LoadOptions) (s : Shared) :
    (nextConfig ini_filename env_filename options).run handle s =
      ((ConfigLoader.nextConfig s.2 ini_filename env_filename options).toOption, s) := by
  rw [nextConfig, Prog.run_bind, run_parseFileToMap, ConfigLoader.nextConfig]
  dsimp only
  cases ConfigLoader.parseFileToMap s.2 ini_filename (fun _ => none) options.allow_missing_ini with
  | error e => rfl
  | ok ini =>
    show _ = ((ConfigLoader.parseEnvFile s.2 env_filename ini options >>= fun files =>
      pure (ConfigLoader.overrideFromEnvironment s.2 files options)).toOption, s)
    rw [Prog.run_bind, run_parseEnvFile]
    cases ConfigLoader.parseEnvFile s.2 env_filename ini options with
    | error e => rfl
    | ok files =>
      dsimp only
      rw [Prog.run_bind, run_overrideFromEnvironment]
      rfl

/-- **A load that runs alone** is the load of the loader. -/
theorem run_load (ini_filename env_filename : String) (options : LoadOptions) (s : Shared) :
    (load ini_filename env_filename options).run handle s =
      ((s.1.load s.2 ini_filename env_filename options).1, (s.1.load s.2 ini_filename env_filename options).2,
        s.2) := by
  rw [load, Prog.run_bind, run_nextConfig, ConfigLoader.load]
  cases ConfigLoader.nextConfig s.2 ini_filename env_filename options with
  | error e => rfl
  | ok next =>
    dsimp only [Except.toOption, publish]
    rw [Prog.run_exec]
    dsimp only [handle]
    cases ConfigLoader.validateMap next s.1._validators with
    | error e => rfl
    | ok accepted => cases accepted <;> rfl

/-! ### What a load has read -/

/-- The texts and values that a load finds. -/
structure Reading where
  ini : Option String
  env : Option String
  vars : String → Option String

/-- The texts and the values were there when they were read. -/
structure Found (x : Set (Cmd × Shared)) (ini_filename env_filename : String) (options : LoadOptions) (r : Reading) :
    Prop where
  ini : ∃ s, (Cmd.ifstream ini_filename, s) ∈ x ∧ s.2.files ini_filename = r.ini
  env : env_filename ≠ "" → ∃ s, (Cmd.ifstream env_filename, s) ∈ x ∧ s.2.files env_filename = r.env
  vars : options.override_from_environment = true → ∀ key ∈ ConfigLoader.envKeys options,
    ∃ s, (Cmd.getenv key, s) ∈ x ∧ s.2.getenv key = r.vars key

/-- The last value that a text gives to a key. -/
def textValue (text : Option String) (key : String) : Option String :=
  text.bind fun t => lastAssigned (ConfigLoader.entries t) key

/-- What was read, with its precedence. -/
def Reading.effective (r : Reading) (env_filename : String) (options : LoadOptions) : ConfigMap := fun key =>
  (if options.override_from_environment = true ∧ key ∈ ConfigLoader.envKeys options then r.vars key else none).or
    ((if env_filename = "" then none else textValue r.env key).or (textValue r.ini key))

/-- For a system that stands still, this is the effective configuration. -/
theorem effective_reading (sys : System) (ini_filename env_filename : String) (options : LoadOptions) :
    Reading.effective ⟨sys.files ini_filename, sys.files env_filename, sys.getenv⟩ env_filename options =
      ConfigLoader.effective sys ini_filename env_filename options := rfl

/-- What may be exchanged: a map that has been read, and that the validators of some moment accept. -/
structure Prepared (x : Set (Cmd × Shared)) (next : ConfigMap) (ini_filename env_filename : String)
    (options : LoadOptions) : Prop where
  found : ∃ r, Found x ini_filename env_filename options r ∧ next = r.effective env_filename options
  accepted : ∃ s, (Cmd.validateMap next, s) ∈ x ∧ ConfigLoader.Accepted next s.1._validators

/-- What a call is going to load. -/
def Call.Intends (x : Set (Cmd × Shared)) (ini_filename env_filename : String) (options : LoadOptions) : Call → Prop
  | .load ini env opts => ini = ini_filename ∧ env = env_filename ∧ opts = options
  | .reload => ∃ s, (Cmd.last, s) ∈ x ∧
      (s.1._last_ini_file, s.1._last_env_file, s.1._last_options) = (ini_filename, env_filename, options)
  | _ => False

/-- The commands that a call may send, given what it has seen. -/
def Permitted (call : Call) (x : Set (Cmd × Shared)) : Cmd → Prop
  | .swap next ini env options => call.Intends x ini env options ∧ Prepared x next ini env options
  | _ => True

variable {call : Call} {x : Set (Cmd × Shared)} {ini_filename env_filename : String} {options : LoadOptions}

/-- A part of a call that keeps to what the call has seen. -/
abbrev Keeps {α : Type} (call : Call) (p : CProg α) (Q : Set (Cmd × Shared) → α → Prop) (x : Set (Cmd × Shared)) :
    Prop := p.Tracks (Heard machine) (Permitted call) Q x

theorem keeps_parseFileToMap (filename : String) (targetMap : ConfigMap) (optional : Bool) :
    Keeps call (parseFileToMap filename targetMap optional) (fun y r => ∀ next, r = .ok next →
      ∃ text s, (Cmd.ifstream filename, s) ∈ y ∧ s.2.files filename = text ∧
        ∀ key, next key = (textValue text key).or (targetMap key)) x := by
  refine fun y _ => ⟨trivial, fun (text : Option String) hheard => ?_⟩
  obtain ⟨s, hs, rfl⟩ := hheard
  intro z hz next hnext
  exact ⟨_, s, hz hs, rfl, fun key => ConfigLoader.parseFileToMap_apply hnext key⟩

theorem keeps_loadEnvToMap (keys : List String) (targetMap : ConfigMap) :
    Keeps call (loadEnvToMap keys targetMap) (fun y next => ∃ vars : String → Option String,
      (∀ key ∈ keys, ∃ s, (Cmd.getenv key, s) ∈ y ∧ s.2.getenv key = vars key) ∧
        ∀ key, next key = (if key ∈ keys then vars key else none).or (targetMap key)) x := by
  induction keys generalizing targetMap x with
  | nil => exact fun y _ => ⟨fun _ => none, fun _ hk => absurd hk List.not_mem_nil, fun _ => rfl⟩
  | cons first keys ih =>
    refine fun y _ => ⟨trivial, fun (env_val : Option String) hheard => ?_⟩
    obtain ⟨s, hs, rfl⟩ := hheard
    refine (ih _).imp fun z next hz hnext => ?_
    obtain ⟨vars, hvars, hnext⟩ := hnext
    -- a key that is looked up twice has the later of its values, or the earlier where there is none
    refine ⟨fun key => if key = first then (if first ∈ keys then vars first else none).or (s.2.getenv first)
      else vars key, fun key hkey => ?_, fun key => ?_⟩
    · dsimp only
      by_cases hfirst : key = first
      · subst hfirst
        rw [if_pos rfl]
        by_cases hmem : key ∈ keys
        · rw [if_pos hmem]
          cases hv : vars key with
          | none => exact ⟨s, hz hs, rfl⟩
          | some v =>
            obtain ⟨s', hs', heq⟩ := hvars key hmem
            exact ⟨s', hs', heq.trans hv⟩
        · rw [if_neg hmem]
          exact ⟨s, hz hs, rfl⟩
      · rw [if_neg hfirst]
        exact hvars key ((List.mem_cons.1 hkey).resolve_left hfirst)
    · rw [hnext, ConfigLoader.readEnv_apply, ← Option.or_assoc]
      congr 1
      by_cases hfirst : key = first
      · subst hfirst
        simp
        rfl
      · simp [hfirst]

/-- What the env file adds. -/
theorem keeps_parseEnvFile (targetMap : ConfigMap) :
    Keeps call (parseEnvFile env_filename targetMap options) (fun y r => ∀ next, r = .ok next →
      ∃ text, (env_filename ≠ "" → ∃ s, (Cmd.ifstream env_filename, s) ∈ y ∧ s.2.files env_filename = text) ∧
        ∀ key, next key = (if env_filename = "" then none else textValue text key).or (targetMap key)) x := by
  unfold parseEnvFile
  split
  · rename_i hempty
    refine fun y _ next hnext => ⟨none, fun hne => absurd hempty hne, fun key => ?_⟩
    rw [Option.none_or, Except.ok.inj hnext]
  · refine (keeps_parseFileToMap _ _ _).imp fun y r _ hr next hnext => ?_
    obtain ⟨text, s, hs, htext, hkey⟩ := hr next hnext
    exact ⟨text, fun _ => ⟨s, hs, htext⟩, hkey⟩

theorem keeps_overrideFromEnvironment (targetMap : ConfigMap) :
    Keeps call (overrideFromEnvironment targetMap options) (fun y next => ∃ vars : String → Option String,
      (options.override_from_environment = true → ∀ key ∈ ConfigLoader.envKeys options,
        ∃ s, (Cmd.getenv key, s) ∈ y ∧ s.2.getenv key = vars key) ∧
      ∀ key, next key = (if options.override_from_environment = true ∧ key ∈ ConfigLoader.envKeys options
        then vars key else none).or (targetMap key)) x := by
  unfold overrideFromEnvironment
  split
  · rename_i hover
    refine (keeps_loadEnvToMap _ _).imp fun y next _ hnext => ?_
    obtain ⟨vars, hvars, hkey⟩ := hnext
    exact ⟨vars, fun _ => hvars, fun key => by simpa only [hover, true_and] using hkey key⟩
  · rename_i hover
    exact fun y _ => ⟨fun _ => none, fun h => absurd h hover, fun key => by simp⟩

/-- **What a load makes of its sources.** -/
theorem keeps_nextConfig : Keeps call (nextConfig ini_filename env_filename options) (fun y r => ∀ next, r = some next →
    ∃ r, Found y ini_filename env_filename options r ∧ next = r.effective env_filename options) x := by
  have hnone : ∀ {y : Set (Cmd × Shared)},
      Keeps call (pure none : CProg (Option ConfigMap)) (fun y r => ∀ next, r = some next →
        ∃ r, Found y ini_filename env_filename options r ∧ next = r.effective env_filename options) y :=
    fun _ _ _ h => by cases h
  refine (keeps_parseFileToMap _ _ _).bind fun y r _ hini => ?_
  cases r with
  | error e => exact hnone
  | ok ini =>
    obtain ⟨iniText, sIni, hsIni, htextIni, hkeyIni⟩ := hini ini rfl
    refine (keeps_parseEnvFile ini).bind fun z r hyz henv => ?_
    cases r with
    | error e => exact hnone
    | ok files =>
      obtain ⟨envText, hsEnv, hkeyEnv⟩ := henv files rfl
      refine (keeps_overrideFromEnvironment files).bind fun w next hzw hvars => ?_
      obtain ⟨vars, hsVars, hkeyVars⟩ := hvars
      rintro u hwu next' heq
      obtain rfl := Option.some.inj heq
      refine ⟨⟨iniText, envText, vars⟩, ⟨?_, fun hne => ?_, fun hover key hkey => ?_⟩, funext fun key => ?_⟩
      · exact ⟨sIni, hwu (hzw (hyz hsIni)), htextIni⟩
      · obtain ⟨s, hs, htext⟩ := hsEnv hne
        exact ⟨s, hwu (hzw hs), htext⟩
      · obtain ⟨s, hs, hval⟩ := hsVars hover key hkey
        exact ⟨s, hwu hs, hval⟩
      · rw [hkeyVars, hkeyEnv, hkeyIni, Option.or_none]
        rfl

theorem Found.mono {y : Set (Cmd × Shared)} {r : Reading} (h : Found x ini_filename env_filename options r)
    (hxy : x ⊆ y) : Found y ini_filename env_filename options r :=
  ⟨h.ini.imp fun _ hs => ⟨hxy hs.1, hs.2⟩, fun hne => (h.env hne).imp fun _ hs => ⟨hxy hs.1, hs.2⟩,
    fun hover key hkey => (h.vars hover key hkey).imp fun _ hs => ⟨hxy hs.1, hs.2⟩⟩

theorem Call.Intends.mono {y : Set (Cmd × Shared)} (h : call.Intends x ini_filename env_filename options)
    (hxy : x ⊆ y) :
    call.Intends y ini_filename env_filename options := by
  cases call with
  | load => exact h
  | reload => exact h.imp fun _ hs => ⟨hxy hs.1, hs.2⟩
  | _ => exact h.elim

/-- What a load returns: `true` only after the exchange. -/
def Exchanged (y : Set (Cmd × Shared)) (ini_filename env_filename : String) (options : LoadOptions) : Prop :=
  ∃ next s, (Cmd.swap next ini_filename env_filename options, s) ∈ y

theorem keeps_load (hcall : call.Intends x ini_filename env_filename options) :
    Keeps call (load ini_filename env_filename options)
    (fun y success => success = true → Exchanged y ini_filename env_filename options) x := by
  refine keeps_nextConfig.bind fun y r hxy hr => ?_
  cases r with
  | none => exact fun z _ h => by cases h
  | some next =>
    obtain ⟨r, hfound, hnext⟩ := hr next rfl
    refine fun z hz => ⟨trivial, fun (accepted : Except String Bool) hheard => ?_⟩
    obtain ⟨s, hs, haccepted⟩ := hheard
    have hrefused : Keeps call (.ret false : CProg Bool)
        (fun y success => success = true → Exchanged y ini_filename env_filename options) z := fun _ _ h => by cases h
    rcases accepted with e | accepted
    · exact hrefused
    cases accepted with
    | false => exact hrefused
    | true =>
      have hprepared : ∀ w, z ⊆ w → Prepared w next ini_filename env_filename options := fun w hw =>
        ⟨⟨r, hfound.mono (hz.trans hw), hnext⟩, s, hw hs, ConfigLoader.validateMap_eq_true.1 haccepted⟩
      refine fun w hw => ⟨⟨hcall.mono (hxy.trans (hz.trans hw)), hprepared w hw⟩, fun _ hswap v hv _ => ?_⟩
      obtain ⟨s', hs', -⟩ := hswap
      exact ⟨next, s', hv hs'⟩

/-- What the result of a call says about the commands that it has seen. -/
def Call.Explains (y : Set (Cmd × Shared)) : Call → Outcome → Prop
  | .load ini env options, .loaded success => success = true → Exchanged y ini env options
  | .find key, .found value => ∃ s, (Cmd.find key, s) ∈ y ∧ s.1._configMap key = value
  | _, _ => True

/-- **Every call keeps to what it has seen.** -/
theorem keeps_call (call : Call) : Keeps call call.prog (fun y outcome => call.Explains y outcome) ∅ := by
  cases call with
  | load ini env options =>
    have hcall : (Call.load ini env options).Intends ∅ ini env options := ⟨rfl, rfl, rfl⟩
    refine (keeps_load hcall).bind fun y success _ h z hz htrue => ?_
    obtain ⟨next, s, hs⟩ := h htrue
    exact ⟨next, s, hz hs⟩
  | reload =>
    refine Prog.Tracks.bind (Q := fun _ _ => True) ?_ fun _ _ _ _ _ _ => trivial
    refine fun y _ => ⟨trivial, fun (last : String × String × LoadOptions) hlast => ?_⟩
    obtain ⟨s, hs, rfl⟩ := hlast
    have hcall : Call.reload.Intends y s.1._last_ini_file s.1._last_env_file s.1._last_options := ⟨s, hs, rfl⟩
    exact (keeps_load hcall).bind fun _ _ _ _ _ _ => trivial
  | find key => exact fun y _ => ⟨trivial, fun (value : Option String) ⟨s, hs, hvalue⟩ z hz => ⟨s, hz hs, hvalue⟩⟩
  | set key value => exact fun y _ => ⟨trivial, fun _ _ _ _ => trivial⟩
  | addValidator key validator err_msg => exact fun y _ => ⟨trivial, fun _ _ _ _ => trivial⟩

/-! ### Exchanges and results -/

def IsSwap (c : Cmd) : Prop := ∃ next ini env options, c = .swap next ini env options

theorem nextConfig_only (ini_filename env_filename : String) (options : LoadOptions) :
    (nextConfig ini_filename env_filename options).Only fun c => ¬ IsSwap c := by
  have hfile : ∀ filename targetMap optional, (parseFileToMap filename targetMap optional).Only fun c => ¬ IsSwap c :=
    fun _ _ _ => ⟨(by rintro ⟨_, _, _, _, h⟩; cases h), fun _ _ => trivial⟩
  have hvars : ∀ keys targetMap, (loadEnvToMap keys targetMap).Only fun c => ¬ IsSwap c := by
    intro keys
    induction keys with
    | nil => exact fun _ => trivial
    | cons key keys ih => exact fun _ => ⟨(by rintro ⟨_, _, _, _, h⟩; cases h), fun _ _ => ih _⟩
  refine (hfile _ _ _).bind fun r => ?_
  cases r with
  | error e => trivial
  | ok ini =>
    refine Prog.Obeys.bind ?_ fun r => ?_
    · unfold parseEnvFile
      split
      · trivial
      · exact hfile _ _ _
    · cases r with
      | error e => trivial
      | ok files =>
        refine Prog.Obeys.bind ?_ fun _ => trivial
        unfold overrideFromEnvironment
        split
        · exact hvars _ _
        · trivial

/-- A load that has exchanged the maps returns `true`. -/
theorem seals_load (ini_filename env_filename : String) (options : LoadOptions) :
    (load ini_filename env_filename options).Seals IsSwap (· = true) := by
  refine Prog.Seals.bind (nextConfig_only _ _ _) fun r => ?_
  cases r with
  | none => trivial
  | some next =>
    refine fun (accepted : Except String Bool) => ⟨(by rintro ⟨_, _, _, _, h⟩; cases h), ?_⟩
    rcases accepted with e | accepted
    · trivial
    cases accepted with
    | false => trivial
    | true => exact fun _ => ⟨fun _ => rfl, trivial⟩

/-! ### The configuration at a moment -/

section Runs

variable {ι : Type} [DecidableEq ι]

/-- Threads that are about to make their calls. -/
def start (self : ConfigLoader) (sys : System) (calls : ι → Call) : Conf iface Shared ι Outcome :=
  ⟨(self, sys), fun i => (calls i).prog⟩

def setsOf (cs : List Cmd) : List (String × String) :=
  cs.filterMap fun
    | .set key value => some (key, value)
    | _ => none

/-- The load that the configuration after the events `es` comes from, and the commands since. -/
inductive Basis (calls : ι → Call) (c₀ : Conf iface Shared ι Outcome) (es : List (Ev ι System)) :
    ConfigMap → String → String → LoadOptions → List Cmd → Prop
  | initial (hnone : ∀ c ∈ Conf.log machine c₀ es, ¬ IsSwap c) :
      Basis calls c₀ es c₀.st.1._configMap c₀.st.1._last_ini_file c₀.st.1._last_env_file c₀.st.1._last_options
        (Conf.log machine c₀ es)
  | load {past rest : List (Ev ι System)} {i : ι} {m m' : Conf iface Shared ι Outcome} {next : ConfigMap}
      {ini env : String} {options : LoadOptions} (hes : es = past ++ .run i :: rest)
      (hm : c₀.exec machine past = some m) (hs : m.step machine (.run i) = some m')
      (hlast : ∀ c ∈ Conf.log machine m' rest, ¬ IsSwap c)
      (hcall : (calls i).Intends (Conf.Seen machine c₀ i past) ini env options)
      (hnext : Prepared (Conf.Seen machine c₀ i past) next ini env options) :
      Basis calls c₀ es next ini env options (Conf.log machine m' rest)

variable {calls : ι → Call} {c₀ c c' : Conf iface Shared ι Outcome} {past : List (Ev ι System)} {e : Ev ι System}

/-- An event that exchanges no maps. -/
theorem Basis.concat {base : ConfigMap} {ini env : String} {options : LoadOptions} {since : List Cmd}
    (h : Basis calls c₀ past base ini env options since) (hpast : c₀.exec machine past = some c)
    (hno : ∀ cmd ∈ c.logged e, ¬ IsSwap cmd) :
    Basis calls c₀ (past ++ [e]) base ini env options (since ++ c.logged e) := by
  cases h with
  | initial hnone =>
    rw [← Conf.log_concat hpast]
    refine .initial fun cmd hcmd => ?_
    rw [Conf.log_concat hpast] at hcmd
    exact (List.mem_append.1 hcmd).elim (hnone cmd) (hno cmd)
  | @load p rest i m m' _ _ _ _ hes hm hs hlast hcall hnext =>
    subst hes
    obtain ⟨m₁, hm₁, hrest⟩ := Conf.exec_append_eq_some.1 hpast
    obtain rfl := Option.some.inj (hm.symm.trans hm₁)
    obtain ⟨m₂, hm₂, hrest⟩ := Conf.exec_cons_eq_some.1 hrest
    obtain rfl := Option.some.inj (hs.symm.trans hm₂)
    rw [← Conf.log_concat hrest]
    refine .load (by simp) hm hs (fun cmd hcmd => ?_) hcall hnext
    rw [Conf.log_concat hrest] at hcmd
    exact (List.mem_append.1 hcmd).elim (hlast cmd) (hno cmd)

/-- The map and the parameters for `reload`. -/
def ConfigLoaderIs (self : ConfigLoader) (map : ConfigMap) (ini env : String) (options : LoadOptions) : Prop :=
  self._configMap = map ∧ self._last_ini_file = ini ∧ self._last_env_file = env ∧ self._last_options = options

theorem is_handle {self : ConfigLoader} {sys : System} {base : ConfigMap} {ini env : String} {options : LoadOptions}
    {since : List Cmd} {cmd : Cmd} (h : ConfigLoaderIs self (assign (setsOf since) base) ini env options)
    (hno : ¬ IsSwap cmd) :
    ConfigLoaderIs (handle cmd (self, sys)).2.1 (assign (setsOf (since ++ [cmd])) base) ini env options := by
  obtain ⟨hmap, hini, henv, hoptions⟩ := h
  have hassign : assign (setsOf (since ++ [cmd])) base = assign (setsOf [cmd]) (assign (setsOf since) base) := by
    rw [setsOf, List.filterMap_append]
    exact List.foldl_append
  rw [hassign, ← hmap]
  cases cmd with
  | swap next i e o => exact absurd ⟨next, i, e, o, rfl⟩ hno
  | _ => exact ⟨rfl, hini, henv, hoptions⟩

/-- **The configuration is that of one load.**  In every interleaving of loads, reloads, sets, new validators and
reads, with files and an environment that change, the configuration comes from one load as a whole (or from the
start), with the values that have been set since, and what `reload` uses are the arguments of that load: it had read
its sources and environment before, and the validators of some moment had accepted the map.  A load returns `true`
exactly if it has exchanged the maps, and a read returns what the configuration was at its moment. -/
theorem configuration_of_one_load {self : ConfigLoader} {sys : System} {es : List (Ev ι System)}
    {fin : Conf iface Shared ι Outcome} (hrun : (start self sys calls).exec machine es = some fin) :
    (∃ base ini env options since, Basis calls (start self sys calls) es base ini env options since ∧
        ConfigLoaderIs fin.st.1 (assign (setsOf since) base) ini env options) ∧
      (∀ i ini env options success, calls i = .load ini env options →
        (fin.thr i).result = some (.loaded success) →
        (success = true ↔ Conf.WasServed machine IsSwap (start self sys calls) i es)) ∧
      ∀ i key value, calls i = .find key → (fin.thr i).result = some (.found value) →
        ∃ past rest m, es = past ++ .run i :: rest ∧ (start self sys calls).exec machine past = some m ∧
          m.st.1._configMap key = value := by
  have hkeeps : ∀ i, Keeps (calls i) ((start self sys calls).thr i) (fun y outcome => (calls i).Explains y outcome) ∅ :=
    fun i => keeps_call (calls i)
  refine ⟨?_, fun i ini env options success hcall hresult => ⟨fun htrue => ?_, fun hserved => ?_⟩,
    fun i key value hcall hresult => ?_⟩
  · refine Conf.exec_induction (fun past c => ∃ base ini env options since,
      Basis calls (start self sys calls) past base ini env options since ∧
        ConfigLoaderIs c.st.1 (assign (setsOf since) base) ini env options) ?_ ?_ hrun
    · exact ⟨_, _, _, _, _, .initial (by simp [Conf.log]), rfl, rfl, rfl, rfl⟩
    rintro past e c c' - hpast ⟨base, ini, env, options, since, hbasis, his⟩ hs
    -- an event that serves no command leaves the loader as it is
    have hquiet : c.logged e = [] → c'.st.1 = c.st.1 → ∃ base ini env options since,
        Basis calls (start self sys calls) (past ++ [e]) base ini env options since ∧
          ConfigLoaderIs c'.st.1 (assign (setsOf since) base) ini env options := by
      intro hnone hst
      refine ⟨base, ini, env, options, since ++ c.logged e, hbasis.concat hpast (by simp [hnone]), ?_⟩
      rwa [hnone, List.append_nil, hst]
    cases e with
    | run j =>
      have hstep := hs
      obtain ⟨q, s', hq, rfl⟩ := Conf.step_run.1 hs
      obtain ⟨cmd, hcmd, rfl⟩ := Prog.next_head hq
      have hlogged : c.logged (.run j : Ev ι System) = [cmd] := by rw [Conf.logged, hcmd]; rfl
      by_cases hswap : IsSwap cmd
      · obtain ⟨next, ini', env', options', rfl⟩ := hswap
        obtain ⟨hcall, hnext⟩ := Conf.exec_seen_head (hkeeps j) hpast hcmd
        exact ⟨next, ini', env', options', [], .load rfl hpast hstep (fun _ h => absurd h List.not_mem_nil) hcall hnext,
          rfl, rfl, rfl, rfl⟩
      · refine ⟨base, ini, env, options, since ++ [cmd], ?_, is_handle his hswap⟩
        rw [← hlogged]
        exact hbasis.concat hpast fun cmd' hcmd' => by
          rw [hlogged, List.mem_singleton] at hcmd'
          exact hcmd' ▸ hswap
    | fail j =>
      obtain ⟨q, -, rfl⟩ := Option.map_eq_some_iff.1 hs
      exact hquiet rfl rfl
    | env x =>
      obtain rfl := Option.some.inj hs
      exact hquiet rfl rfl
  · have hseen := Conf.tracks_result (Conf.exec_seen (hkeeps i) hrun) hresult
    rw [hcall] at hseen
    obtain ⟨next, s, past, rest, m, hes, hm, hcmd, -⟩ := hseen htrue
    exact ⟨past, rest, m, _, hes, hm, hcmd, next, ini, env, options, rfl⟩
  · have hseals : ((start self sys calls).thr i).Seals IsSwap fun outcome => outcome = .loaded true := by
      show ((calls i).prog).Seals _ _
      rw [hcall]
      exact (seals_load ini env options).bind_only (fun _ => trivial) fun success hsuccess => by rw [hsuccess]; rfl
    have hleaves := Conf.leaves_of_wasServed hseals hserved hrun
    rw [Prog.result_eq_some.1 hresult] at hleaves
    cases hleaves
    rfl
  · have hseen := Conf.tracks_result (Conf.exec_seen (hkeeps i) hrun) hresult
    rw [hcall] at hseen
    obtain ⟨s, ⟨past, rest, m, hes, hm, hcmd, rfl⟩, hvalue⟩ := hseen
    exact ⟨past, rest, m, hes, hm, hvalue⟩

end Runs

/-- A load of one file, and a read. -/
def portCalls (i : Bool) : Call := if i then .load "sg.ini" "" { override_from_environment := false } else .find "PORT"

def portFile (text : String) : System :=
  ⟨fun filename => if filename = "sg.ini" then some text else none, fun _ => none⟩

/-- The file changes after it has been read. -/
def portRun : List (Ev Bool System) := [.run true, .env (portFile "PORT=2"), .run true, .run true, .run false]

theorem configuration_of_port :
    Conf.WasServed machine IsSwap (start {} (portFile "PORT = 1") portCalls) true portRun := by
  have hresult : ((start {} (portFile "PORT = 1") portCalls).exec machine portRun).map (fun c =>
      ((c.thr true).result, (c.thr false).result)) = some (some (.loaded true), some (.found (some " 1"))) := by
    decide +kernel
  obtain ⟨fin, hrun, hend⟩ := Option.map_eq_some_iff.1 hresult
  obtain ⟨hloaded, -⟩ := Prod.mk.inj hend
  exact ((configuration_of_one_load hrun).2.1 true _ _ _ true rfl hloaded).1 rfl

end Concurrent

end StreamGate.Config
