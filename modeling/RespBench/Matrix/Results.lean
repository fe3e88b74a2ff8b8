import RespBench.Lib.Pool
import RespBench.Lib.Table
import RespBench.Matrix.Sweep

/-!
# Results directories

The orchestrators that work in one output directory, at the same time or one after the other:
each chooses the directory of its run (`prepare_results_dir`), makes `latest` lead to it
(`update_latest_link`) and lets its engines append to the files in it. A step is one call of the
file system, apart from the listing of a directory, which is one step as well. An orchestrator
may be killed at any point.

Each step of an orchestrator follows a rule (`steps_of_step`), from which one reads what it
does to the directory of its run (`Steps.change`), to the link (`Steps.links`) and to
everything else (`Steps.elsewhere`).

Links lead to names of the output directory, as those that the code makes do. The files of a run lie
in its directory: labels with `/../` in them, which lead out of it, are not modelled.
-/

namespace RespBench.Matrix.Results
open RespBench.Lib

/-! ## The output directory -/

/-- A piece of a file with the orchestrator that has written it, if it is one of
those that are considered. -/
structure Piece (ι : Type) where
  writer : Option ι
  text : String

/-- The files in a directory, by their paths in it. -/
abbrev Files (ι : Type) := List (String × List (Piece ι))

inductive Entry (ι : Type) where
  | directory (files : Files ι)
  | link (target : String)
  | file

/-- The output directory: what its names stand for. -/
abbrev OutputDir (ι : Type) := String → Option (Entry ι)

section
variable {ι : Type}

/-- What a name leads to, through at most so many links, and the name of that. -/
def resolve (out : OutputDir ι) : ℕ → String → Option (String × Entry ι)
  | 0, name =>
    match out name with
    | some (.link _) => none
    | entry => entry.map (name, ·)
  | links + 1, name =>
    match out name with
    | some (.link target) => resolve out links target
    | entry => entry.map (name, ·)

/-- The links that a path may have. -/
def MAXSYMLINKS : ℕ := 40

/-- `Path.exists`. -/
def exists_ (out : OutputDir ι) (name : String) : Bool := (resolve out MAXSYMLINKS name).isSome

/-- `Path.is_symlink`. -/
def is_symlink (out : OutputDir ι) (name : String) : Bool :=
  match out name with
  | some (.link _) => true
  | _ => false

/-- The directory that a name leads to. -/
def directory (out : OutputDir ι) (name : String) : Option (String × Files ι) :=
  match resolve out MAXSYMLINKS name with
  | some (found, .directory files) => some (found, files)
  | _ => none

/-- `os.replace`. A directory takes the place of nothing but an empty directory, and nothing else
takes the place of a directory. -/
def replace (out : OutputDir ι) (source target : String) : Option (OutputDir ι) :=
  match out source, out target with
  | none, _ => none
  | some (.directory files), none => some (move (.directory files))
  | some (.directory files), some (.directory []) => some (move (.directory files))
  | some (.directory _), some _ => none
  | some _, some (.directory _) => none
  | some entry, _ => some (move entry)
where
  move (entry : Entry ι) : OutputDir ι :=
    Function.update (Function.update out target (some entry)) source none

end

def LATEST_LINK_NAME : String := "latest"

/-- The name of the link before it is moved to its place. -/
def STAGING : String := "." ++ LATEST_LINK_NAME ++ ".tmp"

def MANIFEST : String := "_manifest.json"

/-- `fnmatch` of a path in a directory, which `*` does not lead out of, with `*.ndjson`. -/
def isRecords (path : String) : Bool := !path.toList.contains '/' && fnmatch path "*.ndjson"

/-- A path that `RESULT_PATTERNS` finds. -/
def isResult (path : String) : Bool := isRecords path || path = MANIFEST

/-- `existing_result_files`, of a directory: the records in their order, then the manifest. -/
def existing_result_files {ι : Type} (files : Files ι) : List String :=
  let paths := Table.keys files
  Arrange.sortBy id (paths.filter isRecords) ++ paths.filter (· = MANIFEST)

/-- `validate_run_id`: a single component of a path. -/
def validate_run_id (run_id : String) : Bool :=
  run_id ≠ "" && lastComponent run_id.toList = run_id.toList && run_id ≠ "." && run_id ≠ ".."

/-! ## Orchestrators -/

/-- What an orchestrator is called with. -/
structure Invocation where
  config : Config
  iterations : ℤ
  run_id : String
  resume : Bool
  overwrite : Bool

/-- The series, unless there is an exception or no cell for them. -/
def Invocation.series (v : Invocation) : Option (List Series) := do
  let series_combos ← generate_series_combos v.config
  guard (0 < v.config.x_values.length * series_combos.length * v.iterations)
  return series_combos

/-- The files that the cells append to. -/
def Invocation.outputs (v : Invocation) : List String :=
  (v.series.getD []).flatMap fun combo =>
    [combo.label ++ ".ndjson", combo.label ++ ".system.ndjson"]

/-- Where an orchestrator is. -/
inductive Pc where
  -- `existing_result_files(results_dir)`
  | start
  -- `path.unlink()`, for each of the existing files
  | unlink (existing : List String)
  -- `results_dir.mkdir(parents=True, exist_ok=True)`
  | mkdir
  -- `preflight_server`
  | probe
  -- `link.exists()`
  | linkExists
  -- `link.is_symlink()`
  | linkIsSymlink
  -- `staging.unlink(missing_ok=True)`
  | clearStaging
  -- `staging.symlink_to(run_id)`
  | stage
  -- `os.replace(staging, link)`
  | replace
  -- the `write_manifest` before the cells
  | manifest
  -- the cells
  | sweep
  -- the sweep has been left, but one of its engines may still be at work
  | engine
  | ended
deriving DecidableEq

/-- An orchestrator that removes files. -/
def Pc.unlinking : Pc → Bool
  | .unlink _ => true
  | _ => false

/-- An orchestrator that has dealt with the files that it has found. -/
def Pc.cleared : Pc → Bool
  | .start => false
  | .unlink _ => false
  | .ended => false
  | _ => true

/-- The shared state. `passed` is history: the orchestrators whose preflight has passed. -/
structure Shared (ι : Type) where
  out : OutputDir ι
  passed : List ι

/-- The next call of an orchestrator, the outcome of the probe, a piece of text that an engine
or a monitor appends, the end of the sweep with the last manifest, or the end of the
orchestrator or of its engine. -/
inductive Event where
  | call (manifest : String)
  | probed (ready : Bool)
  | append (path : String) (text : String)
  | finish (manifest : String)
  | kill
deriving DecidableEq

section Machine
variable {ι : Type} (w : ι) (v : Invocation)

/-- The files of the run become others. -/
def setFiles (s : Shared ι) (name : String) (files : Files ι) : Shared ι :=
  { s with out := Function.update s.out name (some (.directory files)) }

/-- `open(path, "w")` and `write`. -/
def overwriteFile (text path : String) (files : Files ι) : Files ι :=
  Table.modify [] path (fun _ => [⟨some w, text⟩]) files

/-- `open(path, "a")` and `write`. -/
def appendFile (text path : String) (files : Files ι) : Files ι :=
  Table.modify [] path (· ++ [⟨some w, text⟩]) files

/-- One call of the file system. -/
def call (manifest : String) (s : Shared ι) : Pc → Option (Shared ι × Pc)
  | .start =>
    if v.series.isNone || !validate_run_id v.run_id then some (s, .ended)
    else
      let existing :=
        ((directory s.out v.run_id).map fun found => existing_result_files found.2).getD []
      if existing = [] then some (s, .mkdir)
      else if v.overwrite then some (s, .unlink existing)
      else if v.resume then some (s, .mkdir)
      else some (s, .ended)
  | .unlink [] => some (s, .mkdir)
  | .unlink (path :: rest) =>
    match directory s.out v.run_id with
    | some (name, files) =>
      if path ∈ Table.keys files
        then some (setFiles s name (files.filter fun file => file.1 ≠ path), .unlink rest)
      else some (s, .ended)
    | none => some (s, .ended)
  | .mkdir =>
    match s.out v.run_id with
    | none => some (setFiles s v.run_id [], .probe)
    | some _ => some (s, if (directory s.out v.run_id).isSome then .probe else .ended)
  | .linkExists =>
    some (s, if exists_ s.out LATEST_LINK_NAME then .linkIsSymlink else .clearStaging)
  | .linkIsSymlink =>
    some (s, if is_symlink s.out LATEST_LINK_NAME then .clearStaging else .manifest)
  | .clearStaging =>
    match s.out STAGING with
    | some (.directory _) => some (s, .ended)
    | _ => some ({ s with out := Function.update s.out STAGING none }, .stage)
  | .stage =>
    match s.out STAGING with
    | none => some ({ s with out := Function.update s.out STAGING (some (.link v.run_id)) },
        .replace)
    | some _ => some (s, .ended)
  | .replace =>
    match Results.replace s.out STAGING LATEST_LINK_NAME with
    | some out => some ({ s with out }, .manifest)
    | none => some (s, .ended)
  | .manifest =>
    match directory s.out v.run_id with
    | some (name, files) => some (setFiles s name (overwriteFile w manifest MANIFEST files), .sweep)
    | none => some (s, .ended)
  | _ => none

/-- Text that is appended to a file of the cells; there is none where the directory cannot be
found. -/
def append (path text : String) (s : Shared ι) (pc : Pc) : Option (Shared ι × Pc) :=
  if path ∈ v.outputs then
    (directory s.out v.run_id).map fun found =>
      (setFiles s found.1 (appendFile w text path found.2), pc)
  else none

/-- One event of an orchestrator. -/
def step (event : Event) (s : Shared ι) (pc : Pc) : Option (Shared ι × Pc) :=
  match event, pc with
  | .call manifest, pc => call w v manifest s pc
  | .probed ready, .probe =>
    if ready then some ({ s with passed := s.passed ++ [w] }, .linkExists) else some (s, .ended)
  | .append path text, .sweep => append w v path text s .sweep
  | .append path text, .engine => append w v path text s .engine
  | .finish manifest, .sweep =>
    match directory s.out v.run_id with
    | some (name, files) =>
      some (setFiles s name (overwriteFile w manifest MANIFEST files), .engine)
    | none => some (s, .engine)
  | .kill, .ended => none
  | .kill, .sweep => some (s, .engine)
  | .kill, _ => some (s, .ended)
  | _, _ => none

end Machine

/-- Orchestrators in an output directory: none of those considered has written the text
that is there before, and their run ids are neither links nor the names that the link
to the latest run uses. -/
structure Setup (ι : Type) where
  initial : OutputDir ι
  invocation : ι → Invocation
  earlier : ∀ name files, initial name = some (.directory files) → ∀ file ∈ files, ∀ piece ∈ file.2,
    piece.writer = none
  plain : ∀ i, is_symlink initial (invocation i).run_id = false ∧
    (invocation i).run_id ≠ LATEST_LINK_NAME ∧ (invocation i).run_id ≠ STAGING

/-- The orchestrators of an output directory. -/
def orchestrators {ι : Type} (setup : Setup ι) : Pool ι (Shared ι) Pc Event where
  shared := ⟨setup.initial, []⟩
  locals := fun _ => .start
  step := fun w => step w (setup.invocation w)

/-! ## Steps -/

section
variable {ι : Type} {out : OutputDir ι} {name : String}

/-- A link is recognised as one. -/
lemma is_symlink_link {target : String} (h : out name = some (.link target)) :
    is_symlink out name = true := by
  rw [is_symlink, h]

/-- A name that is no link leads to itself. -/
lemma resolve_of_not_link (h : is_symlink out name = false) (links : ℕ) :
    resolve out links name = (out name).map (name, ·) := by
  cases links <;> rw [resolve] <;> split
  next hlink => rw [is_symlink_link hlink] at h; cases h
  next => rfl
  next hlink => rw [is_symlink_link hlink] at h; cases h
  next => rfl

/-- A name that is no link leads to itself only. -/
lemma directory_eq_some (h : is_symlink out name = false) {found : String} {files : Files ι}
    (hfound : directory out name = some (found, files)) :
    found = name ∧ out name = some (.directory files) := by
  unfold directory at hfound
  rw [resolve_of_not_link h] at hfound
  cases hentry : out name with
  | none =>
    rw [hentry] at hfound
    cases hfound
  | some entry =>
    rw [hentry] at hfound
    cases entry <;> cases hfound
    exact ⟨rfl, rfl⟩

/-- A directory leads to itself. -/
lemma directory_of {files : Files ι} (h : out name = some (.directory files)) :
    directory out name = some (name, files) := by
  unfold directory
  rw [resolve_of_not_link (by rw [is_symlink, h]), h]
  rfl

variable {w : ι} {v : Invocation}

/-- The steps of an orchestrator whose run id is no link, one rule for each that writes or
that later steps rely on. -/
inductive Steps (w : ι) (v : Invocation) : Shared ι → Pc → Shared ι → Pc → Prop where
  | stop {s pc} : Steps w v s pc s .ended
  | leave {s} : Steps w v s .sweep s .engine
  | fresh {s} : (∀ files, s.out v.run_id = some (.directory files) →
    existing_result_files files = []) →
    Steps w v s .start s .mkdir
  | resume {s} : v.resume = true → Steps w v s .start s .mkdir
  | overwrite {s files} : v.overwrite = true → s.out v.run_id = some (.directory files) →
    Steps w v s .start s (.unlink (existing_result_files files))
  | unlink {s path rest files} : s.out v.run_id = some (.directory files) →
    Steps w v s (.unlink (path :: rest))
      (setFiles s v.run_id (files.filter fun file => file.1 ≠ path)) (.unlink rest)
  | unlinked {s} : Steps w v s (.unlink []) s .mkdir
  | mkdir {s} : s.out v.run_id = none → Steps w v s .mkdir (setFiles s v.run_id []) .probe
  | made {s files} : s.out v.run_id = some (.directory files) → Steps w v s .mkdir s .probe
  | ready {s} : Steps w v s .probe { s with passed := s.passed ++ [w] } .linkExists
  | linked {s} : Steps w v s .linkExists s .linkIsSymlink
  | dangling {s} : exists_ s.out LATEST_LINK_NAME = false → Steps w v s .linkExists s .clearStaging
  | symlink {s} : is_symlink s.out LATEST_LINK_NAME = true →
    Steps w v s .linkIsSymlink s .clearStaging
  | real {s} : Steps w v s .linkIsSymlink s .manifest
  | clearStaging {s} : (∀ files, s.out STAGING ≠ some (.directory files)) →
    Steps w v s .clearStaging { s with out := Function.update s.out STAGING none } .stage
  | stage {s} : s.out STAGING = none →
    Steps w v s .stage { s with out := Function.update s.out STAGING (some (.link v.run_id)) }
      .replace
  | replace {s entry} : s.out STAGING = some entry →
    Steps w v s .replace { s with out := replace.move s.out STAGING LATEST_LINK_NAME entry }
      .manifest
  | rewrite {s pc pc' files text} : (pc = .manifest ∨ pc = .sweep) →
    (pc' = .sweep ∨ pc' = .engine) →
    s.out v.run_id = some (.directory files) →
    Steps w v s pc (setFiles s v.run_id (overwriteFile w text MANIFEST files)) pc'
  | append {s pc files path text} : (pc = .sweep ∨ pc = .engine) →
    s.out v.run_id = some (.directory files) →
    Steps w v s pc (setFiles s v.run_id (appendFile w text path files)) pc

/-- `os.replace` moves an entry that is there. -/
lemma replace_eq_some {source target : String} {out' : OutputDir ι}
    (h : replace out source target = some out') :
    ∃ entry, out source = some entry ∧ out' = replace.move out source target entry := by
  unfold replace at h
  split at h
  next => cases h
  next files hsource _ =>
    cases h
    exact ⟨_, hsource, rfl⟩
  next files hsource _ =>
    cases h
    exact ⟨_, hsource, rfl⟩
  next => cases h
  next => cases h
  next entry hsource _ _ _ _ =>
    cases h
    exact ⟨_, hsource, rfl⟩

/-- A call of an engine follows a rule. -/
lemma steps_of_call {manifest : String} {s t : Shared ι} {pc pc' : Pc}
    (hlink : is_symlink s.out v.run_id = false) (h : call w v manifest s pc = some (t, pc')) :
    Steps w v s pc t pc' := by
  cases pc with
  | start =>
    simp only [call] at h
    split at h
    · cases h
      exact .stop
    · split at h
      next hexisting =>
        cases h
        refine .fresh fun files hfiles => ?_
        rw [directory_of hfiles] at hexisting
        exact hexisting
      next hexisting =>
        cases hfound : directory s.out v.run_id with
        | none => exact absurd (by rw [hfound]; rfl) hexisting
        | some found =>
          have hfiles := (directory_eq_some hlink hfound).2
          rw [hfound] at h
          split at h
          next hoverwrite =>
            cases h
            exact .overwrite hoverwrite hfiles
          next =>
            split at h <;> cases h
            next hresume => exact .resume hresume
            next => exact .stop
  | unlink existing =>
    cases existing with
    | nil =>
      cases h
      exact .unlinked
    | cons path rest =>
      simp only [call] at h
      split at h
      next name files hfound =>
        obtain ⟨hname, hfiles⟩ := directory_eq_some hlink hfound
        subst hname
        split at h <;> cases h
        · exact .unlink hfiles
        · exact .stop
      next =>
        cases h
        exact .stop
  | mkdir =>
    simp only [call] at h
    split at h
    next hnone =>
      cases h
      exact .mkdir hnone
    next =>
      cases hfound : directory s.out v.run_id with
      | none =>
        rw [hfound] at h
        cases h
        exact .stop
      | some found =>
        rw [hfound] at h
        cases h
        exact .made (directory_eq_some hlink hfound).2
  | probe => cases h
  | linkExists =>
    cases hexists : exists_ s.out LATEST_LINK_NAME <;> simp only [call, hexists] at h <;> cases h
    · exact .dangling hexists
    · exact .linked
  | linkIsSymlink =>
    cases hsymlink : is_symlink s.out LATEST_LINK_NAME
      <;> simp only [call, hsymlink] at h <;> cases h
    · exact .real
    · exact .symlink hsymlink
  | clearStaging =>
    simp only [call] at h
    split at h <;> cases h
    next => exact .stop
    next hother => exact .clearStaging fun files hfiles => hother files hfiles
  | stage =>
    simp only [call] at h
    split at h <;> cases h
    next hnone => exact .stage hnone
    next => exact .stop
  | replace =>
    simp only [call] at h
    split at h <;> cases h
    next out' hreplace =>
      obtain ⟨entry, hentry, rfl⟩ := replace_eq_some hreplace
      exact .replace hentry
    next => exact .stop
  | manifest =>
    simp only [call] at h
    split at h
    next name files hfound =>
      obtain ⟨hname, hfiles⟩ := directory_eq_some hlink hfound
      subst hname
      cases h
      exact .rewrite (.inl rfl) (.inl rfl) hfiles
    next =>
      cases h
      exact .stop
  | sweep => cases h
  | engine => cases h
  | ended => cases h

/-- What an engine appends follows a rule. -/
lemma steps_of_append {path text : String} {s t : Shared ι} {pc pc' : Pc}
    (hlink : is_symlink s.out v.run_id = false) (hpc : pc = .sweep ∨ pc = .engine)
    (h : append w v path text s pc = some (t, pc')) : Steps w v s pc t pc' := by
  unfold append at h
  split at h
  next =>
    obtain ⟨found, hfound, h⟩ := Option.map_eq_some_iff.mp h
    obtain ⟨hname, hfiles⟩ := directory_eq_some hlink hfound
    rw [hname] at h
    cases h
    exact .append hpc hfiles
  next => cases h

/-- Every step of an orchestrator follows a rule. -/
lemma steps_of_step {event : Event} {s t : Shared ι} {pc pc' : Pc}
    (hlink : is_symlink s.out v.run_id = false) (h : step w v event s pc = some (t, pc')) :
    Steps w v s pc t pc' := by
  cases event with
  | call manifest => exact steps_of_call hlink h
  | probed ready =>
    cases pc <;> simp only [step, reduceCtorEq] at h
    split at h <;> cases h
    · exact .ready
    · exact .stop
  | append path text =>
    cases pc <;> simp only [step, reduceCtorEq] at h
    · exact steps_of_append hlink (.inl rfl) h
    · exact steps_of_append hlink (.inr rfl) h
  | finish manifest =>
    cases pc <;> simp only [step, reduceCtorEq] at h
    split at h
    next name files hfound =>
      obtain ⟨hname, hfiles⟩ := directory_eq_some hlink hfound
      subst hname
      cases h
      exact .rewrite (.inr rfl) (.inr rfl) hfiles
    next =>
      cases h
      exact .leave
  | kill =>
    cases pc <;> simp only [step, reduceCtorEq, Option.some.injEq, Prod.mk.injEq] at h
    case sweep =>
      obtain ⟨rfl, rfl⟩ := h
      exact .leave
    all_goals
      obtain ⟨rfl, rfl⟩ := h
      exact .stop

/-- The files that were set are there. -/
@[simp] lemma setFiles_self (s : Shared ι) (name : String) (files : Files ι) :
    (setFiles s name files).out name = some (.directory files) := Function.update_self _ _ _

/-- What a step does to the directory of its run. -/
inductive Change (w : ι) (pc : Pc) : Option (Entry ι) → Option (Entry ι) → Prop where
  | same {entry} : Change w pc entry entry
  | create : Change w pc none (some (.directory []))
  | remove {files} (path : String) : pc.unlinking = true →
    Change w pc (some (.directory files))
      (some (.directory (files.filter fun file => file.1 ≠ path)))
  | rewrite {files} (text : String) : pc.cleared = true →
    Change w pc (some (.directory files)) (some (.directory (overwriteFile w text MANIFEST files)))
  | append {files} (text path : String) : pc.cleared = true →
    Change w pc (some (.directory files)) (some (.directory (appendFile w text path files)))

variable {s t : Shared ι} {pc pc' : Pc}

/-- What a step does to the directory of its run. -/
lemma Steps.change (h : Steps w v s pc t pc') (hlatest : v.run_id ≠ LATEST_LINK_NAME)
    (hstaging : v.run_id ≠ STAGING) :
    Change w pc (s.out v.run_id) (t.out v.run_id) := by
  cases h with
  | unlink hfiles =>
    rw [hfiles, setFiles_self]
    exact .remove _ rfl
  | mkdir hnone =>
    rw [hnone, setFiles_self]
    exact .create
  | clearStaging _ =>
    dsimp only
    rw [Function.update_of_ne hstaging]
    exact .same
  | stage _ =>
    dsimp only
    rw [Function.update_of_ne hstaging]
    exact .same
  | replace _ =>
    dsimp only
    rw [replace.move, Function.update_of_ne hstaging, Function.update_of_ne hlatest]
    exact .same
  | rewrite hpc _ hfiles =>
    rw [hfiles, setFiles_self]
    exact .rewrite _ (by rcases hpc with rfl | rfl <;> rfl)
  | append hpc hfiles =>
    rw [hfiles, setFiles_self]
    exact .append _ _ (by rcases hpc with rfl | rfl <;> rfl)
  | _ => exact .same

/-- A step leaves the other names alone, apart from the two of the link. -/
lemma Steps.elsewhere (h : Steps w v s pc t pc') (hrun : name ≠ v.run_id)
    (hlatest : name ≠ LATEST_LINK_NAME) (hstaging : name ≠ STAGING) : t.out name = s.out name := by
  cases h with
  | unlink _ => exact Function.update_of_ne hrun _ _
  | mkdir _ => exact Function.update_of_ne hrun _ _
  | clearStaging _ => exact Function.update_of_ne hstaging _ _
  | stage _ => exact Function.update_of_ne hstaging _ _
  | replace _ =>
    exact (Function.update_of_ne hstaging _ _).trans (Function.update_of_ne hlatest _ _)
  | rewrite _ _ _ => exact Function.update_of_ne hrun _ _
  | append _ _ => exact Function.update_of_ne hrun _ _
  | _ => rfl

/-- A moved entry has left its place. -/
lemma move_source (out : OutputDir ι) (source target : String) (entry : Entry ι) :
    replace.move out source target entry source = none :=
  Function.update_self _ _ _

/-- A moved entry is at its new place. -/
lemma move_target (out : OutputDir ι) {source target : String} (h : target ≠ source)
    (entry : Entry ι) :
    replace.move out source target entry target = some entry :=
  (Function.update_of_ne h _ _).trans (Function.update_self _ _ _)

/-- The staging link is not `latest`. -/
lemma latest_ne_staging : LATEST_LINK_NAME ≠ STAGING := by decide

/-- What a step does to the link and to the name that it has before. -/
lemma Steps.links (h : Steps w v s pc t pc') (hlatest : v.run_id ≠ LATEST_LINK_NAME)
    (hstaging : v.run_id ≠ STAGING) :
    (t.out LATEST_LINK_NAME = s.out LATEST_LINK_NAME ∧ t.out STAGING = s.out STAGING) ∨
    (pc = .clearStaging ∧ t.out LATEST_LINK_NAME = s.out LATEST_LINK_NAME ∧ t.out STAGING = none) ∨
    (pc = .stage ∧ t.out LATEST_LINK_NAME = s.out LATEST_LINK_NAME ∧
      t.out STAGING = some (.link v.run_id)) ∨
    pc = .replace ∧ ∃ entry, s.out STAGING = some entry ∧ t.out LATEST_LINK_NAME = some entry ∧
      t.out STAGING = none := by
  cases h with
  | unlink _ => exact .inl ⟨Function.update_of_ne hlatest.symm _ _,
      Function.update_of_ne hstaging.symm _ _⟩
  | mkdir _ => exact .inl ⟨Function.update_of_ne hlatest.symm _ _,
      Function.update_of_ne hstaging.symm _ _⟩
  | rewrite _ _ _ => exact .inl ⟨Function.update_of_ne hlatest.symm _ _,
      Function.update_of_ne hstaging.symm _ _⟩
  | append _ _ => exact .inl ⟨Function.update_of_ne hlatest.symm _ _,
      Function.update_of_ne hstaging.symm _ _⟩
  | clearStaging _ =>
    refine .inr (.inl ⟨rfl, ?_, ?_⟩) <;> dsimp only
    · exact Function.update_of_ne latest_ne_staging _ s.out
    · exact Function.update_self STAGING _ s.out
  | stage _ =>
    refine .inr (.inr (.inl ⟨rfl, ?_, ?_⟩)) <;> dsimp only
    · exact Function.update_of_ne latest_ne_staging _ s.out
    · exact Function.update_self STAGING _ s.out
  | @replace entry hentry =>
    exact .inr (.inr (.inr ⟨rfl, entry, hentry, move_target s.out latest_ne_staging entry,
      move_source s.out STAGING LATEST_LINK_NAME entry⟩))
  | _ => exact .inl ⟨rfl, rfl⟩

/-- A preflight that has passed stays passed. -/
lemma Steps.passed (h : Steps w v s pc t pc') : s.passed ⊆ t.passed := by
  cases h with
  | ready => exact List.subset_append_left _ _
  | _ => exact List.Subset.refl _

/-- No step makes a link of a name that the link to the latest run does not use. -/
lemma Steps.plain (h : Steps w v s pc t pc') (hv : v.run_id ≠ LATEST_LINK_NAME ∧ v.run_id ≠ STAGING)
    (hname : name ≠ LATEST_LINK_NAME ∧ name ≠ STAGING) (hlink : is_symlink s.out name = false) :
    is_symlink t.out name = false := by
  by_cases hrun : name = v.run_id
  · subst hrun
    have hchange := h.change hv.1 hv.2
    unfold is_symlink at hlink ⊢
    generalize s.out v.run_id = before at hchange hlink
    generalize t.out v.run_id = after at hchange
    cases hchange with
    | same => exact hlink
    | _ => rfl
  · unfold is_symlink
    rw [h.elsewhere hrun hname.1 hname.2]
    exact hlink

/-- Directories stay directories. -/
lemma Steps.directory (h : Steps w v s pc t pc')
    (hv : v.run_id ≠ LATEST_LINK_NAME ∧ v.run_id ≠ STAGING)
    (hname : name ≠ LATEST_LINK_NAME ∧ name ≠ STAGING)
    (hdir : ∃ files, s.out name = some (.directory files)) :
    ∃ files, t.out name = some (.directory files) := by
  obtain ⟨files, hfiles⟩ := hdir
  by_cases hrun : name = v.run_id
  · subst hrun
    have hchange := h.change hv.1 hv.2
    rw [hfiles] at hchange
    generalize t.out v.run_id = after at hchange
    cases hchange <;> exact ⟨_, rfl⟩
  · exact ⟨files, (h.elsewhere hrun hname.1 hname.2).trans hfiles⟩

end

end RespBench.Matrix.Results
