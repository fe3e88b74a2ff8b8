import RespBench.Matrix.Results

/-!
# The link to the latest run

Where `latest` leads while orchestrators move it (`update_latest_link`), with a link that is made
under another name and then moved to its place. `known` is what each orchestrator relies on, and
`latest_published` what follows for the link.
-/

namespace RespBench.Matrix.Results
open RespBench.Lib

section
variable {ι : Type} {setup : Setup ι}

/-- An orchestrator between `mkdir` and the move of the link. -/
def Pc.prepared : Pc → Bool
  | .probe => true
  | .linkExists => true
  | .linkIsSymlink => true
  | .clearStaging => true
  | .stage => true
  | .replace => true
  | _ => false

/-- An orchestrator that will move the link. -/
def Pc.linking : Pc → Bool
  | .clearStaging => true
  | .stage => true
  | .replace => true
  | _ => false

/-- An entry that leads to the directory of an orchestrator whose preflight has passed. -/
def Published (setup : Setup ι) (s : Shared ι) (entry : Option (Entry ι)) : Prop :=
  ∃ i ∈ s.passed, entry = some (.link (setup.invocation i).run_id) ∧
    ∃ files, s.out (setup.invocation i).run_id = some (.directory files)

/-- What is at a name, but no link. -/
def Real (entry : Option (Entry ι)) : Prop := ∃ e, entry = some e ∧ ∀ target, e ≠ .link target

/-- What is known when an orchestrator is at a place. -/
structure Known (setup : Setup ι) (i : ι) (s : Shared ι) (pc : Pc) : Prop where
  plain : is_symlink s.out (setup.invocation i).run_id = false
  made : pc.prepared = true → ∃ files, s.out (setup.invocation i).run_id = some (.directory files)
  passed : pc.prepared = true → pc ≠ .probe → i ∈ s.passed
  staged : pc = .stage ∨ pc = .replace → s.out STAGING = none ∨ Published setup s (s.out STAGING)
  real : Real (setup.initial LATEST_LINK_NAME) →
    s.out LATEST_LINK_NAME = setup.initial LATEST_LINK_NAME ∧ pc.linking = false
  latest : s.out LATEST_LINK_NAME = setup.initial LATEST_LINK_NAME ∨
    Published setup s (s.out LATEST_LINK_NAME)
  overwrites : pc.unlinking = true → (setup.invocation i).overwrite = true

variable {w i : ι} {v : Invocation} {s t : Shared ι} {pc pc' k : Pc}

/-- What is published stays published. -/
lemma Published.steps {entry : Option (Entry ι)} (h : Steps w (setup.invocation w) s pc t pc')
    (hentry : Published setup s entry) : Published setup t entry := by
  obtain ⟨i, hi, hlink, hdir⟩ := hentry
  exact ⟨i, h.passed hi, hlink, h.directory (setup.plain w).2 (setup.plain i).2 hdir⟩

/-- What is still known after a step of any orchestrator about the names that it leaves
alone and about the link. -/
lemma Known.links (hw : Known setup w s pc) (h : Steps w (setup.invocation w) s pc t pc') :
    (s.out STAGING = none ∨ Published setup s (s.out STAGING) →
      t.out STAGING = none ∨ Published setup t (t.out STAGING)) ∧
    (Real (setup.initial LATEST_LINK_NAME) → t.out LATEST_LINK_NAME
      = setup.initial LATEST_LINK_NAME) ∧
    (t.out LATEST_LINK_NAME = setup.initial LATEST_LINK_NAME ∨
      Published setup t (t.out LATEST_LINK_NAME)) := by
  rcases h.links (setup.plain w).2.1 (setup.plain w).2.2
    with ⟨hlatest, hstaging⟩ | ⟨hpc, hlatest, hstaging⟩ |
    ⟨hpc, hlatest, hstaging⟩ | ⟨hpc, entry, hentry, hlatest, hstaging⟩
  · rw [hlatest, hstaging]
    exact ⟨Or.imp_right (.steps h), fun hreal => (hw.real hreal).1, hw.latest.imp_right (.steps h)⟩
  · rw [hlatest, hstaging]
    exact ⟨fun _ => .inl rfl, fun hreal => (hw.real hreal).1, hw.latest.imp_right (.steps h)⟩
  · rw [hlatest, hstaging]
    subst hpc
    have hpublished : Published setup s (some (.link (setup.invocation w).run_id)) :=
      ⟨w, hw.passed rfl (by decide), rfl, hw.made rfl⟩
    exact ⟨fun _ => .inr (hpublished.steps h), fun hreal => (hw.real hreal).1,
      hw.latest.imp_right (.steps h)⟩
  · rw [hlatest, hstaging]
    subst hpc
    refine ⟨fun _ => .inl rfl, fun hreal => Bool.noConfusion (hw.real hreal).2, .inr ?_⟩
    rcases hw.staged (.inr rfl) with hnone | hpublished
    · rw [hnone] at hentry
      cases hentry
    · rw [hentry] at hpublished
      exact hpublished.steps h

/-- A dangling link is no directory. -/
lemma not_real_of_dangling (h : exists_ s.out LATEST_LINK_NAME = false) :
    ¬ Real (s.out LATEST_LINK_NAME) := by
  rintro ⟨e, he, hlink⟩
  have hplain : is_symlink s.out LATEST_LINK_NAME = false := by
    rw [is_symlink, he]
    cases e with
    | link target => exact absurd rfl (hlink target)
    | _ => rfl
  rw [exists_, resolve_of_not_link hplain, he] at h
  cases h

/-- A link is no directory. -/
lemma not_real_of_symlink (h : is_symlink s.out LATEST_LINK_NAME = true) :
    ¬ Real (s.out LATEST_LINK_NAME) := by
  rintro ⟨e, he, hlink⟩
  rw [is_symlink, he] at h
  cases e with
  | link target => exact hlink target rfl
  | _ => cases h

/-- An orchestrator comes to its probe with a directory, and passes it before it goes on to the
link. -/
lemma Steps.prepared (h : Steps w v s pc t pc') (hpc' : pc'.prepared = true) :
    (pc' = .probe ∧ ∃ files, t.out v.run_id = some (.directory files)) ∨
    pc.prepared = true ∧ pc' ≠ .probe ∧ (pc = .probe → w ∈ t.passed) := by
  cases h with
  | mkdir _ => exact .inl ⟨rfl, _, setFiles_self _ _ _⟩
  | made hfiles => exact .inl ⟨rfl, _, hfiles⟩
  | ready => exact .inr ⟨rfl, by decide, fun _ => List.mem_append_right _ List.mem_cons_self⟩
  | linked => exact .inr ⟨rfl, by decide, fun hprobe => by cases hprobe⟩
  | dangling _ => exact .inr ⟨rfl, by decide, fun hprobe => by cases hprobe⟩
  | symlink _ => exact .inr ⟨rfl, by decide, fun hprobe => by cases hprobe⟩
  | clearStaging _ => exact .inr ⟨rfl, by decide, fun hprobe => by cases hprobe⟩
  | stage _ => exact .inr ⟨rfl, by decide, fun hprobe => by cases hprobe⟩
  | rewrite _ hnext _ => rcases hnext with rfl | rfl <;> cases hpc'
  | append hsame _ => rcases hsame with rfl | rfl <;> cases hpc'
  | _ => cases hpc'

/-- An orchestrator knows what it needs to know after its own steps. -/
lemma Known.own (hw : Known setup w s pc) (h : Steps w (setup.invocation w) s pc t pc') :
    Known setup w t pc' := by
  obtain ⟨hstaging, hreal, hlatest⟩ := hw.links h
  refine ⟨h.plain (setup.plain w).2 (setup.plain w).2 hw.plain, ?_, ?_, ?_,
    fun hinitial => ⟨hreal hinitial, ?_⟩, hlatest, ?_⟩
  · intro hpc
    rcases h.prepared hpc with ⟨-, hdir⟩ | ⟨hbefore, -, -⟩
    · exact hdir
    · exact h.directory (setup.plain w).2 (setup.plain w).2 (hw.made hbefore)
  · intro hpc hprobe
    rcases h.prepared hpc with ⟨hpc', -⟩ | ⟨hbefore, -, hpassed⟩
    · exact absurd hpc' hprobe
    · by_cases hfirst : pc = .probe
      · exact hpassed hfirst
      · exact h.passed (hw.passed hbefore hfirst)
  · intro hpc
    cases h with
    | clearStaging _ => exact .inl (Function.update_self STAGING none s.out)
    | stage _ => exact hstaging (hw.staged (.inl rfl))
    | rewrite _ hpc' _ => rcases hpc' with rfl | rfl <;> simp at hpc
    | append hpc' _ => rcases hpc' with rfl | rfl <;> simp at hpc
    | _ => simp at hpc
  · have hfixed := (hw.real hinitial).1
    have hlinking := (hw.real hinitial).2
    rw [← hfixed] at hinitial
    cases h with
    | dangling hexists => exact absurd hinitial (not_real_of_dangling hexists)
    | symlink hsymlink => exact absurd hinitial (not_real_of_symlink hsymlink)
    | clearStaging _ => cases hlinking
    | stage _ => cases hlinking
    | rewrite _ hpc' _ => rcases hpc' with rfl | rfl <;> rfl
    | append hpc' _ => rcases hpc' with rfl | rfl <;> rfl
    | _ => rfl
  · intro hpc
    cases h with
    | overwrite hoverwrite _ => exact hoverwrite
    | unlink _ => exact hw.overwrites rfl
    | rewrite _ hpc' _ => rcases hpc' with rfl | rfl <;> cases hpc
    | append hpc' _ => rcases hpc' with rfl | rfl <;> cases hpc
    | _ => cases hpc

/-- An orchestrator still knows it after the steps of others. -/
lemma Known.other (hw : Known setup w s pc) (h : Steps w (setup.invocation w) s pc t pc')
    (hi : Known setup i s k) :
    Known setup i t k := by
  obtain ⟨hstaging, hreal, hlatest⟩ := hw.links h
  exact
    { plain := h.plain (setup.plain w).2 (setup.plain i).2 hi.plain
      made := fun hk => h.directory (setup.plain w).2 (setup.plain i).2 (hi.made hk)
      passed := fun hk hprobe => h.passed (hi.passed hk hprobe)
      staged := fun hk => hstaging (hi.staged hk)
      real := fun hinitial => ⟨hreal hinitial, (hi.real hinitial).2⟩
      latest := hlatest
      overwrites := hi.overwrites }

variable [DecidableEq ι]

/-- What every orchestrator knows holds in whatever order they take their steps. -/
theorem known {σ : Pool.State ι (Shared ι) Pc} (h : (orchestrators setup).Reachable σ) (i : ι) :
    Known setup i σ.shared (σ.locals i) := by
  refine Pool.knows_induction (K := fun i s pc => Known setup i s pc) ?_ ?_ ?_ h i
  · intro i
    exact ⟨(setup.plain i).1, fun h => Bool.noConfusion h, fun h => Bool.noConfusion h,
      (by rintro (h | h) <;> cases h), fun _ => ⟨rfl, rfl⟩, .inl rfl, fun h => Bool.noConfusion h⟩
  · intro w e s l s' l' hw hstep
    exact hw.own (steps_of_step hw.plain hstep)
  · intro w e s l s' l' v k _ hw hstep hv
    exact hw.other (steps_of_step hw.plain hstep) hv

/-- In whatever order any number of orchestrators take their steps, and whichever of them are
killed: `latest` is what it was at first, or a link to the directory of one whose preflight has
passed. What is no link is never touched. -/
theorem latest_published {σ : Pool.State ι (Shared ι) Pc} (h : (orchestrators setup).Reachable σ) :
    (σ.shared.out LATEST_LINK_NAME = setup.initial LATEST_LINK_NAME ∨
      Published setup σ.shared (σ.shared.out LATEST_LINK_NAME)) ∧
    (Real (setup.initial LATEST_LINK_NAME) → σ.shared.out LATEST_LINK_NAME
      = setup.initial LATEST_LINK_NAME) := by
  refine Pool.reachable_induction (P := orchestrators setup)
    (I := fun σ => (σ.shared.out LATEST_LINK_NAME = setup.initial LATEST_LINK_NAME ∨
      Published setup σ.shared (σ.shared.out LATEST_LINK_NAME)) ∧
      (Real (setup.initial LATEST_LINK_NAME) →
        σ.shared.out LATEST_LINK_NAME = setup.initial LATEST_LINK_NAME))
    ⟨.inl rfl, fun _ => rfl⟩ ?_ h
  intro σ w e σ' hσ _ hnext
  have hw := known hσ w
  obtain ⟨-, hreal, hlatest⟩ := hw.links (steps_of_step hw.plain (Pool.next_eq_some hnext).1)
  exact ⟨hlatest, hreal⟩

end

/-! ### Two runs in one directory -/

/-- The run of the example is not called `latest`. -/
lemma run_ne_latest : "run-1" ≠ LATEST_LINK_NAME := by decide

/-- The run of the example has not the name of the staging link. -/
lemma run_ne_staging : "run-1" ≠ STAGING := by decide

/-- Two calls with one run id, of which the second is to resume the first. -/
def resumedSetup : Setup Bool where
  initial := fun _ => none
  invocation := fun second => ⟨twoCells.config, 1, "run-1", second, false⟩
  earlier := fun _ _ h => absurd h.symm (Option.some_ne_none _)
  plain := fun _ => ⟨rfl, run_ne_latest, run_ne_staging⟩

/-- An orchestrator prepares its directory, moves the link in so many calls, and its
engine appends a record. -/
def sweepEvents (second : Bool) (linking : ℕ) : List (Bool × Event) :=
  List.replicate 2 (second, .call "{}") ++ [(second, .probed true)] ++
    List.replicate linking (second, .call "{}") ++
    [(second, .append "jedis.ndjson" "{}\n"), (second, .finish "{}"), (second, .kill)]

/-- The first has ended. -/
def firstEnd : Pool.State Bool (Shared Bool) Pc :=
  ((orchestrators resumedSetup).run (sweepEvents false 5) (orchestrators resumedSetup).init).get rfl

/-- Both have ended. -/
def secondEnd : Pool.State Bool (Shared Bool) Pc :=
  ((orchestrators resumedSetup).run (sweepEvents true 6) firstEnd).get rfl

/-- The state after the first sweep is reachable. -/
lemma reachable_firstEnd : (orchestrators resumedSetup).Reachable firstEnd :=
  .run .init (Option.some_get _).symm

/-- The second sweep leads to the end. -/
lemma run_secondEnd : (orchestrators resumedSetup).run (sweepEvents true 6) firstEnd
    = some secondEnd :=
  (Option.some_get _).symm

/-- After the second sweep `latest` leads to its run. -/
theorem secondEnd_latest : secondEnd.shared.out LATEST_LINK_NAME = some (.link "run-1") ∧
    Published resumedSetup secondEnd.shared (secondEnd.shared.out LATEST_LINK_NAME) := by
  have hlink : secondEnd.shared.out LATEST_LINK_NAME = some (.link "run-1") := rfl
  refine ⟨hlink,
    (latest_published (reachable_firstEnd.run run_secondEnd)).1.resolve_left fun hinitial => ?_⟩
  rw [hlink] at hinitial
  cases hinitial

end RespBench.Matrix.Results
