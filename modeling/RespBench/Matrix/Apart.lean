import RespBench.Matrix.Latest

/-!
# Runs in their directories

What becomes of the records of a run. They are only appended to, unless an orchestrator with its run
id was called with `--overwrite` (`records_kept`). And no two runs are merged unless `--resume` asks
for it, when no two orchestrators with one run id are at work at the same time (`results_apart`).
-/

namespace RespBench.Matrix.Results
open RespBench.Lib

/-! ## Records that are kept -/

section
variable {ι : Type} {setup : Setup ι} {w : ι} {pc : Pc} {entry : Option (Entry ι)}

/-- The manifest is no file of records. -/
lemma manifest_not_records : isRecords MANIFEST = false := by decide

/-- Records are followed by others, but they stay unless an orchestrator removes files. -/
lemma Change.records {files : Files ι} (h : Change w pc (some (.directory files)) entry)
    (hpc : pc.unlinking = false) {path : String} (hpath : isRecords path = true) :
    ∃ files', entry = some (.directory files') ∧
    Table.get [] path files <+: Table.get [] path files' := by
  have hne : path ≠ MANIFEST := by
    rintro rfl
    rw [manifest_not_records] at hpath
    cases hpath
  cases h with
  | same => exact ⟨files, rfl, List.prefix_rfl⟩
  | remove _ hunlinking =>
    rw [hpc] at hunlinking
    cases hunlinking
  | rewrite text _ =>
    refine ⟨_, rfl, ?_⟩
    rw [overwriteFile, Table.get_modify, if_neg hne]
  | append text path' _ =>
    refine ⟨_, rfl, ?_⟩
    rw [appendFile, Table.get_modify]
    split
    next heq =>
      subst heq
      exact List.prefix_append _ _
    next => exact List.prefix_rfl

variable [DecidableEq ι]

/-- In whatever order the orchestrators go on, the records of a run stay where they are, and others
are appended to them, unless an orchestrator with this run id was called with `--overwrite`. -/
theorem records_kept {σ σ' : Pool.State ι (Shared ι) Pc} {events : List (ι × Event)}
    (h : (orchestrators setup).Reachable σ) (hrun : (orchestrators setup).run events σ = some σ')
    (i : ι) (hkeep : ∀ j, (setup.invocation j).run_id = (setup.invocation i).run_id →
      (setup.invocation j).overwrite = false)
    {files : Files ι} (hfiles : σ.shared.out (setup.invocation i).run_id = some (.directory files))
    (path : String) (hpath : isRecords path = true) :
    ∃ files', σ'.shared.out (setup.invocation i).run_id = some (.directory files') ∧
      Table.get [] path files <+: Table.get [] path files' := by
  refine Pool.Reachable.run_induction (I := fun τ => ∃ files',
    τ.shared.out (setup.invocation i).run_id =
    some (.directory files') ∧ Table.get [] path files <+: Table.get [] path files') ?_ h hrun
    ⟨files, hfiles, List.prefix_rfl⟩
  rintro τ w e τ' hτ ⟨before, hbefore, hprefix⟩ hnext
  have hw := known hτ w
  have hstep := steps_of_step hw.plain (Pool.next_eq_some hnext).1
  by_cases hsame : (setup.invocation i).run_id = (setup.invocation w).run_id
  · have hchange := hstep.change (setup.plain w).2.1 (setup.plain w).2.2
    rw [← hsame, hbefore] at hchange
    have hpc : (τ.locals w).unlinking = false := by
      by_contra hunlinking
      have hoverwrite := hw.overwrites (Bool.eq_true_of_not_eq_false hunlinking)
      rw [hkeep w hsame.symm] at hoverwrite
      cases hoverwrite
    obtain ⟨after, hafter, hkept⟩ := hchange.records hpc hpath
    exact ⟨after, hafter, hprefix.trans hkept⟩
  · exact ⟨before, (hstep.elsewhere hsame (setup.plain i).2.1 (setup.plain i).2.2).trans hbefore,
      hprefix⟩

end

/-- The record of the first run is still there when the second has ended. -/
theorem secondEnd_records : ∃ before after, firstEnd.shared.out "run-1" = some (.directory before) ∧
    Table.get [] "jedis.ndjson" before = [⟨some false, "{}\n"⟩] ∧
    secondEnd.shared.out "run-1" = some (.directory after) ∧
    Table.get [] "jedis.ndjson" before <+: Table.get [] "jedis.ndjson" after := by
  obtain ⟨after, hafter, hprefix⟩ :=
    records_kept reachable_firstEnd run_secondEnd true (fun _ _ => rfl) rfl
    "jedis.ndjson" (by decide)
  exact ⟨_, after, rfl, rfl, hafter, hprefix⟩

/-! ## Runs that are kept apart -/

section
variable {ι : Type} {setup : Setup ι}

/-- The files of a run: what orchestrators have written in them is theirs, and in a file that counts
as a result other text comes only before that of an orchestrator that was asked to resume. -/
structure Apart (setup : Setup ι) (name : String) (files : Files ι) : Prop where
  owned : ∀ file ∈ files, ∀ piece ∈ file.2, ∀ i, piece.writer = some i →
    (setup.invocation i).run_id = name
  resumed : ∀ file ∈ files, isResult file.1 = true → file.2.Pairwise fun a b =>
    a.writer = b.writer ∨ ∃ i, b.writer = some i ∧ (setup.invocation i).resume = true

/-- An orchestrator is at work, or one of its engines is. -/
def Pc.working : Pc → Bool
  | .start => false
  | .ended => false
  | _ => true

/-- No other orchestrator with the same run id is at work. -/
def Alone (setup : Setup ι) (w : ι) (_ : Event) (σ : Pool.State ι (Shared ι) Pc) : Prop :=
  ∀ v, v ≠ w → (setup.invocation v).run_id = (setup.invocation w).run_id →
    (σ.locals v).working = false

instance [Fintype ι] [DecidableEq ι] (w : ι) (e : Event) (σ : Pool.State ι (Shared ι) Pc) :
    Decidable (Alone setup w e σ) := by
  unfold Alone
  infer_instance

/-- The results in a directory are those of an orchestrator, unless it was asked to resume. -/
def Cleared (setup : Setup ι) (w : ι) (files : Files ι) : Prop :=
  ∀ file ∈ files, isResult file.1 = true →
    (setup.invocation w).resume = true ∨ ∀ piece ∈ file.2, piece.writer = some w

/-- What an orchestrator relies on that is the only one with its run id. -/
structure Clears (setup : Setup ι) (w : ι) (s : Shared ι) (pc : Pc) : Prop where
  found : ∀ existing, pc = .unlink existing → ∀ files,
    s.out (setup.invocation w).run_id = some (.directory files) →
    ∀ file ∈ files, isResult file.1 = true → file.1 ∈ existing
  cleared : pc.cleared = true → ∀ files, s.out (setup.invocation w).run_id
    = some (.directory files) →
    Cleared setup w files

variable {w : ι} {s t : Shared ι} {pc pc' : Pc} {files : Files ι}

/-- All results are found. -/
lemma mem_existing {file : String × List (Piece ι)} (hmem : file ∈ files)
    (h : isResult file.1 = true) :
    file.1 ∈ existing_result_files files := by
  have hkey : file.1 ∈ Table.keys files := List.mem_map_of_mem hmem
  rcases Bool.or_eq_true_iff.mp h with hrecords | hmanifest
  · exact List.mem_append_left _ (Arrange.mem_sortBy.mpr (List.mem_filter.mpr ⟨hkey, hrecords⟩))
  · exact List.mem_append_right _ (List.mem_filter.mpr ⟨hkey, hmanifest⟩)

/-- What an orchestrator writes into a cleared directory leaves it cleared. -/
lemma Cleared.change {entry : Option (Entry ι)} (h : Cleared setup w files)
    (hchange : Change w pc (some (.directory files)) entry) {files' : Files ι}
    (hentry : entry = some (.directory files')) :
    Cleared setup w files' := by
  cases hchange with
  | same =>
    cases hentry
    exact h
  | remove path _ =>
    cases hentry
    exact fun file hfile => h file (List.mem_of_mem_filter hfile)
  | rewrite text _ =>
    cases hentry
    intro file hfile hresult
    rcases Table.mem_modify hfile with hold | ⟨v, rfl, -⟩
    · exact h file hold hresult
    · refine .inr fun piece hpiece => ?_
      rw [List.mem_singleton.mp hpiece]
  | append text path _ =>
    cases hentry
    intro file hfile hresult
    rcases Table.mem_modify hfile with hold | ⟨v, rfl, hv⟩
    · exact h file hold hresult
    · rcases hv with rfl | hold
      · refine .inr fun piece hpiece => ?_
        rw [List.mem_singleton.mp hpiece]
      · refine (h _ hold hresult).imp_right fun hown piece hpiece => ?_
        rcases List.mem_append.mp hpiece with hpiece | hpiece
        · exact hown piece hpiece
        · rw [List.mem_singleton.mp hpiece]

/-- An orchestrator clears its own directory only. -/
lemma Clears.own (hw : Clears setup w s pc) (h : Steps w (setup.invocation w) s pc t pc') :
    Clears setup w t pc' := by
  have hchange := h.change (setup.plain w).2.1 (setup.plain w).2.2
  constructor
  · rintro existing rfl files hfiles
    cases h with
    | overwrite _ hbefore =>
      rw [hbefore] at hfiles
      cases hfiles
      exact fun file => mem_existing
    | unlink hbefore =>
      rw [setFiles_self] at hfiles
      cases hfiles
      intro file hfile hresult
      obtain ⟨hmem, hne⟩ := List.mem_filter.mp hfile
      exact (List.mem_cons.mp (hw.found _ rfl _ hbefore file hmem hresult)).resolve_left
        (of_decide_eq_true hne)
    | rewrite _ hpc' _ => rcases hpc' with hpc' | hpc' <;> cases hpc'
    | append hpc' _ => rcases hpc' with hpc' | hpc' <;> cases hpc'
  · intro hpc' files hfiles
    by_cases hpc : pc.cleared = true
    · -- the directory was cleared before, or has just been made
      rw [hfiles] at hchange
      cases hbefore : s.out (setup.invocation w).run_id with
      | none =>
        rw [hbefore] at hchange
        cases hchange
        exact fun file hfile => absurd hfile List.not_mem_nil
      | some entry =>
        rw [hbefore] at hchange
        have hdir : ∃ before, entry = .directory before := by cases hchange <;> exact ⟨_, rfl⟩
        obtain ⟨before, rfl⟩ := hdir
        exact (hw.cleared hpc before hbefore).change hchange rfl
    · cases h with
      | fresh hempty =>
        intro file hfile hresult
        have hfound := mem_existing hfile hresult
        rw [hempty files hfiles] at hfound
        exact absurd hfound List.not_mem_nil
      | resume hresume => exact fun _ _ _ => .inl hresume
      | unlinked =>
        exact fun file hfile hresult =>
        absurd (hw.found _ rfl _ hfiles file hfile hresult) List.not_mem_nil
      | rewrite hbefore _ _ => rcases hbefore with rfl | rfl <;> exact absurd rfl hpc
      | append hbefore _ => rcases hbefore with rfl | rfl <;> exact absurd rfl hpc
      | stop => cases hpc'
      | overwrite _ _ => cases hpc'
      | unlink _ => cases hpc'
      | _ => exact absurd rfl hpc

/-- A change of the directory of a run that is cleared keeps the runs apart. -/
lemma Apart.change {before : Option (Entry ι)}
    (hchange : Change w pc before (some (.directory files)))
    (hbefore : ∀ files, before = some (.directory files) →
      Apart setup (setup.invocation w).run_id files ∧
      (pc.cleared = true → Cleared setup w files)) : Apart setup
        (setup.invocation w).run_id files := by
  cases hchange with
  | same => exact (hbefore files rfl).1
  | create => exact ⟨fun file hfile => absurd hfile List.not_mem_nil,
      fun file hfile => absurd hfile List.not_mem_nil⟩
  | remove path _ =>
    obtain ⟨howned, hresumed⟩ := (hbefore _ rfl).1
    exact ⟨fun file hfile => howned file (List.mem_of_mem_filter hfile),
      fun file hfile => hresumed file (List.mem_of_mem_filter hfile)⟩
  | rewrite text _ =>
    obtain ⟨howned, hresumed⟩ := (hbefore _ rfl).1
    constructor
    · intro file hfile piece hpiece i hi
      rcases Table.mem_modify hfile with hold | ⟨v, rfl, -⟩
      · exact howned file hold piece hpiece i hi
      · rw [List.mem_singleton.mp hpiece] at hi
        cases hi
        rfl
    · intro file hfile hresult
      rcases Table.mem_modify hfile with hold | ⟨v, rfl, -⟩
      · exact hresumed file hold hresult
      · exact List.pairwise_singleton _ _
  | append text path hpc =>
    obtain ⟨⟨howned, hresumed⟩, hcleared⟩ := hbefore _ rfl
    constructor
    · intro file hfile piece hpiece i hi
      rcases Table.mem_modify hfile with hold | ⟨v, rfl, hv⟩
      · exact howned file hold piece hpiece i hi
      · rcases List.mem_append.mp hpiece with hpiece | hpiece
        · rcases hv with rfl | hold
          · exact absurd hpiece List.not_mem_nil
          · exact howned _ hold piece hpiece i hi
        · rw [List.mem_singleton.mp hpiece] at hi
          cases hi
          rfl
    · intro file hfile hresult
      rcases Table.mem_modify hfile with hold | ⟨v, rfl, hv⟩
      · exact hresumed file hold hresult
      · rcases hv with rfl | hold
        · exact List.pairwise_singleton _ _
        · refine List.pairwise_append.mpr ⟨hresumed _ hold hresult, List.pairwise_singleton _ _, ?_⟩
          intro a ha b hb
          rw [List.mem_singleton.mp hb]
          rcases hcleared hpc _ hold hresult with hresume | hown
          · exact .inr ⟨w, rfl, hresume⟩
          · exact .inl (hown a ha)

/-- A step makes and changes no directory but that of its run: the names of the link are left
alone, or become links. -/
lemma Known.elsewhere (hw : Known setup w s pc) (h : Steps w (setup.invocation w) s pc t pc')
    {name : String} (hrun : name ≠ (setup.invocation w).run_id)
    (hfiles : t.out name = some (.directory files)) :
    s.out name = some (.directory files) := by
  by_cases hlink : name = LATEST_LINK_NAME ∨ name = STAGING
  · rcases h.links (setup.plain w).2.1 (setup.plain w).2.2
      with ⟨hlatest, hstaging⟩ | ⟨-, hlatest, hstaging⟩ |
      ⟨-, hlatest, hstaging⟩ | ⟨hpc, entry, hentry, hlatest, hstaging⟩
    · rcases hlink with rfl | rfl
      · exact hlatest.symm.trans hfiles
      · exact hstaging.symm.trans hfiles
    · rcases hlink with rfl | rfl
      · exact hlatest.symm.trans hfiles
      · cases hstaging.symm.trans hfiles
    · rcases hlink with rfl | rfl
      · exact hlatest.symm.trans hfiles
      · cases hstaging.symm.trans hfiles
    · rcases hlink with rfl | rfl
      · cases hlatest.symm.trans hfiles
        rcases hw.staged (.inr hpc) with hnone | ⟨_, _, hpublished, _⟩
        · cases hnone.symm.trans hentry
        · cases hpublished.symm.trans hentry
      · cases hstaging.symm.trans hfiles
  · rw [not_or] at hlink
    exact (h.elsewhere hrun hlink.1 hlink.2).symm.trans hfiles

/-- An orchestrator that does not work clears nothing. -/
lemma Clears.idle {i : ι} (hpc : pc.working = false) : Clears setup i s pc := by
  constructor
  · rintro existing rfl
    cases hpc
  · intro hcleared
    cases pc <;> cases hpc <;> cases hcleared

variable [DecidableEq ι]

/-- In every such run each orchestrator clears its own directory only. -/
lemma clears {σ : Pool.State ι (Shared ι) Pc} (h : (orchestrators setup).Within (Alone setup) σ)
    (i : ι) :
    Clears setup i σ.shared (σ.locals i) := by
  refine Pool.within_induction (P := orchestrators setup)
    (I := fun σ => ∀ i, Clears setup i σ.shared (σ.locals i)) (fun i => .idle rfl) ?_ h i
  intro σ w e σ' hσ hI halone hnext i
  obtain ⟨hstep, hrest⟩ := Pool.next_eq_some hnext
  have hsteps := steps_of_step (known hσ.reachable w).plain hstep
  by_cases hi : i = w
  · subst hi
    exact (hI i).own hsteps
  · rw [hrest i hi]
    by_cases hsame : (setup.invocation i).run_id = (setup.invocation w).run_id
    · exact .idle (halone i hi hsame)
    · have hout := hsteps.elsewhere hsame (setup.plain i).2.1 (setup.plain i).2.2
      obtain ⟨hfound, hcleared⟩ := hI i
      rw [← hout] at hfound hcleared
      exact ⟨hfound, hcleared⟩

/-- When no two orchestrators with one run id are at work at the same time, no two runs are merged
silently: in the files of a run stands what its own orchestrators have written, and what was there
before; and where a file of results has text of several writers, each of them but the first was
called with `--resume`. -/
theorem results_apart {σ : Pool.State ι (Shared ι) Pc}
    (h : (orchestrators setup).Within (Alone setup) σ) {name : String} {files : Files ι}
    (hfiles : σ.shared.out name = some (.directory files)) :
    Apart setup name files := by
  refine Pool.within_induction (P := orchestrators setup)
    (I := fun σ => ∀ name files, σ.shared.out name = some (.directory files) →
      Apart setup name files)
    ?_ ?_ h name files hfiles
  · intro name files hfiles
    have hnone := setup.earlier name files hfiles
    refine ⟨fun file hfile piece hpiece i hi => ?_, fun file hfile _ => ?_⟩
    · rw [hnone file hfile piece hpiece] at hi
      cases hi
    · refine List.pairwise_of_forall_mem_list fun a ha b hb => .inl ?_
      rw [hnone file hfile a ha, hnone file hfile b hb]
  · intro σ w e σ' hσ hI _ hnext name files hfiles
    have hknown := known hσ.reachable w
    have hsteps := steps_of_step hknown.plain (Pool.next_eq_some hnext).1
    by_cases hrun : name = (setup.invocation w).run_id
    · subst hrun
      have hchange := hsteps.change (setup.plain w).2.1 (setup.plain w).2.2
      rw [hfiles] at hchange
      exact Apart.change hchange fun before hbefore =>
        ⟨hI _ before hbefore, fun hpc => (clears hσ w).cleared hpc before hbefore⟩
    · exact hI name files (hknown.elsewhere hsteps hrun hfiles)

end

/-- The resumed run meets the condition. -/
lemma within_secondEnd : (orchestrators resumedSetup).Within (Alone resumedSetup) secondEnd := by
  have hrun : (orchestrators resumedSetup).runIf (Alone resumedSetup) (sweepEvents false 5 ++
    sweepEvents true 6)
      (orchestrators resumedSetup).init = some secondEnd := rfl
  exact .runIf .init hrun

/-- The records of both runs stand in one file, since the second was called with `--resume`. -/
theorem secondEnd_apart : ∃ files, secondEnd.shared.out "run-1" = some (.directory files) ∧
    Table.get [] "jedis.ndjson" files = [⟨some false, "{}\n"⟩, ⟨some true, "{}\n"⟩] ∧
      Apart resumedSetup "run-1" files :=
  ⟨_, rfl, rfl, results_apart within_secondEnd rfl⟩

end RespBench.Matrix.Results
