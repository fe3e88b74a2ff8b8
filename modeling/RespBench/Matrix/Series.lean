import Mathlib

/-!
# The series of a matrix

A matrix of the orchestrator (`run_benchmark_matrix.py`): the parsed dimensions, and the series of
`generate_series_combos` with their labels. A label is a file name, so that two series with one
label write into the same files.

Python reads a label's pieces off the values with `str`. Strings and objects are modelled as such;
any other value (a number, a truth value, `null`, an array, an object inside an object) is given by
its text, which determines it.
-/

namespace RespBench.Matrix

/-! ## Values -/

/-- A value that is no object: a string, or something else with its text. -/
inductive Scalar where
  | str (s : String)
  | other (text : String)
deriving DecidableEq

/-- `str`. -/
def Scalar.text : Scalar → String
  | .str s => s
  | .other text => text

/-- An object, with its items in the order of their keys. -/
structure Items where
  items : List (String × Scalar)
  sorted : items.Pairwise fun a b => a.1 < b.1
deriving DecidableEq

/-- The value of a dimension. -/
inductive Value where
  | scalar (v : Scalar)
  | object (env : Items)
deriving DecidableEq

def Value.empty : Value := .object ⟨[], .nil⟩

instance : Inhabited Value := ⟨.empty⟩

/-- A reference to another dimension: `isinstance(v, str) and v.startswith("$")`. -/
def Value.isBinding : Value → Bool
  | .scalar (.str s) => s.toList.head? = some '$'
  | _ => false

/-! ## Paths -/

/-- The last component of a path; `.` is no component. -/
def lastComponent (path : List Char) : List Char :=
  ((path.splitOn '/').filter fun part => part ≠ [] ∧ part ≠ ['.']).getLast?.getD []

/-- `Path(...).stem`: the last component without its suffix. A dot at its start or at its
end starts no suffix. -/
def stem (path : String) : String :=
  let name := lastComponent path.toList
  let suffix := name.reverse.takeWhile (· ≠ '.')
  let rest := (name.reverse.dropWhile (· ≠ '.')).drop 1
  if suffix = [] ∨ rest = [] then String.ofList name else String.ofList rest.reverse

/-! ## Patterns -/

/-- A piece of a pattern of `fnmatch`. -/
inductive Glob where
  | char (c : Char)
  | any
  | star
  | set (negated : Bool) (ranges : List (Char × Char))

/-- The ranges of a set. -/
def ranges : List Char → List (Char × Char)
  | a :: '-' :: b :: rest => (a, b) :: ranges rest
  | a :: rest => (a, a) :: ranges rest
  | [] => []

/-- The text of a set that has just been opened, and what follows it. A `]` at its
start does not close it. -/
def openSet (pattern : List Char) : Option (Bool × List Char × List Char) :=
  let negated := pattern.head? = some '!'
  let body := if negated then pattern.drop 1 else pattern
  let first := if body.head? = some ']' then body.take 1 else []
  let rest := body.drop first.length
  if rest.contains ']' then
    some (negated, first ++ rest.takeWhile (· ≠ ']'), (rest.dropWhile (· ≠ ']')).drop 1)
  else none

/-- The pieces of a pattern, of which there are at most as many as characters. -/
def globs : ℕ → List Char → List Glob
  | 0, _ => []
  | _, [] => []
  | fuel + 1, '*' :: rest => .star :: globs fuel rest
  | fuel + 1, '?' :: rest => .any :: globs fuel rest
  | fuel + 1, '[' :: rest =>
    match openSet rest with
    | some (negated, text, rest) => .set negated (ranges text) :: globs fuel rest
    | none => .char '[' :: globs fuel rest
  | fuel + 1, c :: rest => .char c :: globs fuel rest

def matchGlobs : List Glob → List Char → Bool
  | [], s => s.isEmpty
  | .char c :: rest, d :: s => c = d && matchGlobs rest s
  | .any :: rest, _ :: s => matchGlobs rest s
  | .set negated ranges :: rest, d :: s =>
    (ranges.any fun range => range.1 ≤ d && d ≤ range.2) != negated && matchGlobs rest s
  | .star :: rest, s => s.tails.any (matchGlobs rest)
  | _, [] => false

/-- `fnmatch.fnmatch`, where file names are case-sensitive. A set of empty ranges and one
`!`, as `[z-a!]`, matches the `!` here; CPython drops the ranges and takes what is left for
a negation of nothing. -/
def fnmatch (name pattern : String) : Bool :=
  matchGlobs (globs pattern.length pattern.toList) name.toList

/-! ## The configuration -/

def DIM_DRIVER_CONFIG : String := "driver_config"

/-- What stands for a dimension in a matrix: an object with `values`, an array, or a single
value. -/
inductive RawDimension where
  | extended (values : List Value) (applies_to : Option (List (String × List String)))
  | array (values : List Value)
  | single (value : Value)

structure DimensionSpec where
  name : String
  values : List Value
  applies_to : Option (List (String × List String))
deriving DecidableEq

/-- `DimensionSpec(name, raw_value)`. -/
def DimensionSpec.new (name : String) : RawDimension → DimensionSpec
  | .extended values applies_to => ⟨name, values, applies_to⟩
  | .array values => ⟨name, values, none⟩
  | .single value => ⟨name, [value], none⟩

/-- All values are references. -/
def DimensionSpec.is_binding_only (d : DimensionSpec) : Bool := d.values.all Value.isBinding

def DimensionSpec.matches_driver (d : DimensionSpec) (driver_config_path : String) : Bool :=
  match d.applies_to with
  | none => true
  | some filters => filters.all fun filter =>
    filter.1 ≠ DIM_DRIVER_CONFIG ||
      filter.2.any fun p => fnmatch (stem driver_config_path) p || fnmatch driver_config_path p

/-- A matrix as it is read. -/
structure RawMatrix where
  x_axis : Option String
  workload_template : Option Value
  dimensions : List (String × RawDimension)
  names_nodup : (dimensions.map Prod.fst).Nodup

structure Config where
  x_axis : String
  dimensions : List DimensionSpec
  names_nodup : (dimensions.map DimensionSpec.name).Nodup

def RawMatrix.config (raw : RawMatrix) : Config where
  x_axis := raw.x_axis.getD "connections"
  dimensions := raw.dimensions.map fun d => DimensionSpec.new d.1 d.2
  names_nodup := by
    have hname : ∀ d : String × RawDimension, (DimensionSpec.new d.1 d.2).name = d.1 := by
      rintro ⟨name, _ | _ | _⟩ <;> rfl
    rw [List.map_map]
    exact (List.map_congr_left fun d _ => hname d).symm ▸ raw.names_nodup

def Config.lookup (config : Config) (name : String) : Option DimensionSpec :=
  config.dimensions.find? (·.name = name)

/-- A value is the path of a file, as far as the outside tells: `resolve_config_path`. -/
def refersToFile (isFile : String → Bool) : Value → Bool
  | .scalar (.str path) => isFile path
  | _ => false

/-- `parse_matrix_config`, when it raises no `ValueError`. -/
def parse_matrix_config (isFile : String → Bool) (raw : RawMatrix) : Option Config := do
  let config := raw.config
  guard (config.lookup config.x_axis).isSome
  let driver_dim ← config.lookup DIM_DRIVER_CONFIG
  let workload_template ← raw.workload_template
  guard (refersToFile isFile workload_template)
  guard (driver_dim.values.all (refersToFile isFile))
  return config

/-! ## The series -/

structure Series where
  label : String
  driver_config : String
  params : List (String × Value)
  bindings : List (String × Value)

/-- `s.replace(old, new)`, for a text `old` that is not empty; the number counts the characters of
an occurrence that are still to be skipped. -/
def replaceFrom (old new : List Char) : ℕ → List Char → List Char
  | _, [] => []
  | skip + 1, _ :: s => replaceFrom old new skip s
  | 0, c :: s =>
    if old.isPrefixOf (c :: s) then new ++ replaceFrom old new (old.length - 1) s
    else c :: replaceFrom old new 0 s

def replace (s old new : String) : String :=
  String.ofList (replaceFrom old.toList new.toList 0 s.toList)

def short_key (k : String) : String :=
  replace (replace k "GLIDE_TOKIO_WORKER_THREADS" "tw") "GLIDE_CALLBACK_WORKER_THREADS" "cb"

/-- A piece of a label, `key=text`. -/
abbrev Part := String × String

/-- The pieces of a parameter: those of an object are the pieces of its items. -/
def paramParts (param : String × Value) : List Part :=
  match param.2 with
  | .object env => env.items.map fun item => (short_key item.1, item.2.text)
  | .scalar v => [(param.1, v.text)]

/-- The piece of a binding, without its `$`. -/
def bindingParts (binding : String × Value) : List Part :=
  match binding.2 with
  | .scalar v => [(binding.1, String.ofList (v.text.toList.drop 1))]
  | .object _ => []

def param_parts (params bindings : List (String × Value)) : List Part :=
  (params.insertionSort fun a b => a.1 ≤ b.1).flatMap paramParts ++
    (bindings.insertionSort fun a b => a.1 ≤ b.1).flatMap bindingParts

/-- The label of a driver and its pieces. -/
def renderLabel (driver_label : String) (parts : List Part) : String :=
  if parts = [] then driver_label
  else driver_label ++ "@" ++ ",".intercalate (parts.map fun part => part.1 ++ "=" ++ part.2)

/-- `itertools.product`. -/
def product : List (List Value) → List (List Value)
  | [] => [[]]
  | values :: rest => values.flatMap fun v => (product rest).map (v :: ·)

def Config.series_dims (config : Config) : List DimensionSpec :=
  config.dimensions.filter fun d => d.name ≠ config.x_axis ∧ d.name ≠ DIM_DRIVER_CONFIG

def Config.applicable_dims (config : Config) (driver_cfg : String) : List DimensionSpec :=
  config.series_dims.filter (·.matches_driver driver_cfg)

def Config.free_dims (config : Config) (driver_cfg : String) : List DimensionSpec :=
  (config.applicable_dims driver_cfg).filter fun d => !d.is_binding_only

def Config.binding_dims (config : Config) (driver_cfg : String) : List DimensionSpec :=
  (config.applicable_dims driver_cfg).filter DimensionSpec.is_binding_only

/-- The values of a free dimension, the references last. -/
def DimensionSpec.split_values (d : DimensionSpec) : List Value :=
  d.values.filter (fun v => !v.isBinding) ++ d.values.filter Value.isBinding

/-- The series of one combination of values, given with the names of their dimensions. -/
def comboSeries (driver_cfg : String) (combo fixed : List (String × Value)) : Series :=
  let params := combo.filter fun a => !a.2.isBinding
  let bindings := combo.filter (fun a => a.2.isBinding) ++ fixed
  ⟨renderLabel (stem driver_cfg) (param_parts params bindings), driver_cfg, params, bindings⟩

/-- The series of one driver, when every dimension that consists of references has a first one. -/
def Config.driverSeries (config : Config) (driver_cfg : String) : Option (List Series) := do
  let free_dims := config.free_dims driver_cfg
  let fixed ← (config.binding_dims driver_cfg).mapM fun d => d.values.head?.map (d.name, ·)
  if free_dims = [] then return [⟨stem driver_cfg, driver_cfg, [], fixed⟩]
  return (product (free_dims.map DimensionSpec.split_values)).map fun combo =>
    comboSeries driver_cfg ((free_dims.map DimensionSpec.name).zip combo) fixed

/-- The path of a driver. -/
def Value.path : Value → Option String
  | .scalar (.str path) => some path
  | _ => none

/-- `generate_series_combos`, when it raises nothing. -/
def generate_series_combos (config : Config) : Option (List Series) := do
  let driver_dim ← config.lookup DIM_DRIVER_CONFIG
  let driver_configs ← driver_dim.values.mapM Value.path
  let series ← driver_configs.mapM config.driverSeries
  return series.flatten

end RespBench.Matrix
