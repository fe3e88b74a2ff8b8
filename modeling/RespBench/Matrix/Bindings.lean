import RespBench.Lib.Resolve
import RespBench.Matrix.Product

/-!
# References between dimensions

The cells of a run and how their references are resolved (`run_matrix`, `resolve_binding`): in one
pass over the bindings of a series, in which each finds the dimensions that were resolved before it.
A reference on the x axis is not resolved at all. `bindingsResolve_iff` says for which matrices this
gives every reference the value of its dimension whatever the order of the declarations, instead of
an exception in the middle of the run or a cell that runs with the text of a reference.
-/

namespace RespBench.Matrix
open RespBench.Lib

/-! ## Cells -/

/-- A cell of a run. -/
structure Cell where
  iteration : ℕ
  x_val : Value
  combo : Series

def Config.x_values (config : Config) : List Value :=
  ((config.lookup config.x_axis).map DimensionSpec.values).getD []

/-- The cells of a run, in their order. There are none exactly if `run_matrix` finds
`total_cells` not positive. -/
def plannedCells (config : Config) (iterations : ℤ) (series_combos : List Series) : List Cell :=
  (List.range iterations.toNat).flatMap fun i =>
    config.x_values.flatMap fun x_val => series_combos.map fun combo => ⟨i + 1, x_val, combo⟩

/-- The name behind the `$` of a reference. -/
def Value.target : Value → Option String
  | .scalar (.str s) => if s.toList.head? = some '$'
      then some (String.ofList (s.toList.drop 1)) else none
  | _ => none

/-- A dictionary, by what its keys read. -/
abbrev Dict := String → Option Value

/-- `resolve_binding`, when it raises no `ValueError`. -/
def resolve_binding (value : Value) (resolved_values : Dict) : Option Value :=
  match value.target with
  | some ref_dim => resolved_values ref_dim
  | none => some value

/-- The two dictionaries of a cell. -/
structure Dicts where
  resolved : Dict
  params : Dict

/-- The loop over the bindings of a cell. -/
def resolveBindings : List (String × Value) → Dicts → Option Dicts
  | [], dicts => some dicts
  | (dim_name, binding) :: rest, dicts => do
    let value ← resolve_binding binding dicts.resolved
    resolveBindings rest
      ⟨Function.update dicts.resolved dim_name (some value),
        Function.update dicts.params dim_name (some value)⟩

/-- What `resolved` and `params` are before the loop. -/
def initialDicts (x_axis : String) (x_val : Value) (combo : Series) : Dicts where
  resolved name := (combo.params.lookup name).or (if name = x_axis then some x_val else none)
  params name := combo.params.lookup name

/-- The dictionaries of a cell, when no reference raises a `ValueError`. -/
def resolveCell (x_axis : String) (x_val : Value) (combo : Series) : Option Dicts :=
  resolveBindings combo.bindings (initialDicts x_axis x_val combo)

/-! ## What is to come out -/

/-- The value of the x axis is a reference. On an axis of driver configs it is a
path, whatever it reads. -/
def Refers (x_axis : String) (x_val : Value) : Prop := x_axis ≠ DIM_DRIVER_CONFIG ∧ x_val.isBinding

instance (x_axis : String) (x_val : Value) : Decidable (Refers x_axis x_val) :=
  inferInstanceAs (Decidable (_ ∧ _))

/-- The references of a cell: the bindings of its series, and the value of the x axis if it is
one. -/
def references (x_axis : String) (x_val : Value) (combo : Series) : List (String × Value) :=
  if Refers x_axis x_val then (x_axis, x_val) :: combo.bindings else combo.bindings

/-- The values that dimensions have in a cell by themselves. -/
def OwnValue (x_axis : String) (x_val : Value) (combo : Series) (name : String)
    (v : Value) : Prop :=
  name = x_axis ∧ ¬ Refers x_axis x_val ∧ v = x_val ∨
    name ≠ x_axis ∧ name = DIM_DRIVER_CONFIG ∧ v = .scalar (.str combo.driver_config) ∨
      (name, v) ∈ combo.params

/-- The value of a dimension in a cell. -/
abbrev ValueAt (x_axis : String) (x_val : Value) (combo : Series) : String → Value → Prop :=
  Resolve.Means Value.target (OwnValue x_axis x_val combo) (references x_axis x_val combo)

/-- The references of a cell are resolved, each to the value of the dimension that it names. A
reference on the x axis is resolved when the axis has a value that is not a reference any more. -/
structure Mirrored (x_axis : String) (x_val : Value) (combo : Series) (dicts : Dicts) : Prop where
  binding : ∀ b ∈ combo.bindings, ∃ ref_dim v, b.2.target = some ref_dim ∧
    dicts.params b.1 = some v ∧
    ∀ w, ValueAt x_axis x_val combo ref_dim w ↔ w = v
  axis : Refers x_axis x_val → ∃ ref_dim v, x_val.target = some ref_dim ∧
    dicts.resolved x_axis = some v ∧
    v.isBinding = false ∧ ∀ w, ValueAt x_axis x_val combo ref_dim w ↔ w = v

/-- The references of a cell are resolved without an exception. -/
def Mirrors (x_axis : String) (x_val : Value) (combo : Series) : Prop :=
  ∃ dicts, resolveCell x_axis x_val combo = some dicts ∧ Mirrored x_axis x_val combo dicts

/-- The same matrix with its dimensions declared in another order. -/
structure Config.Reordered (config config' : Config) : Prop where
  x_axis : config'.x_axis = config.x_axis
  dimensions : config'.dimensions.Perm config.dimensions

/-- In whatever order the dimensions are declared, the references of all cells are resolved. -/
def BindingsResolve (config : Config) (iterations : ℤ) : Prop :=
  ∀ config', config.Reordered config' → ∀ series, generate_series_combos config' = some series →
    ∀ cell ∈ plannedCells config' iterations series, Mirrors config'.x_axis cell.x_val cell.combo

/-- The references of a driver that are resolved in every order: to the x axis, or to a dimension
that does not refer to others. A dimension that consists of references may refer to any other kind,
since its turn comes after theirs. The x axis itself refers to nothing. -/
structure Config.Grounded (config : Config) (d : String) : Prop where
  axis : ∀ x_val ∈ config.x_values, ¬ Refers config.x_axis x_val
  free : ∀ s ∈ config.free_dims d, ∀ v ∈ s.values, ∀ ref_dim ∈ v.target,
    ref_dim = config.x_axis ∨ ∃ t ∈ config.free_dims d, t.name = ref_dim ∧
      ∀ w ∈ t.values, !w.isBinding
  binding : ∀ s ∈ config.binding_dims d, ∀ v ∈ s.values.head?, ∀ ref_dim ∈ v.target,
    ref_dim = config.x_axis ∨ ∃ t ∈ config.free_dims d, t.name = ref_dim

/-! ## The pass over the bindings -/

/-- The targets are those of references. -/
lemma isSome_target (v : Value) : v.target.isSome = v.isBinding := by
  cases v with
  | object env => rfl
  | scalar v =>
    cases v with
    | other text => rfl
    | str s =>
      simp only [Value.target, Value.isBinding]
      split <;> simp_all

/-- A binding is resolved by following its reference. -/
lemma resolve_binding_eq (value : Value) (dict : Dict) :
    resolve_binding value dict = Resolve.follow Value.target dict value := by
  unfold resolve_binding Resolve.follow
  cases value.target <;> rfl

/-- The bindings of a cell are resolved in one pass. -/
lemma resolveBindings_resolved (bindings : List (String × Value)) (dicts : Dicts) :
    (resolveBindings bindings dicts).map Dicts.resolved
      = Resolve.pass Value.target bindings dicts.resolved := by
  induction bindings generalizing dicts with
  | nil => rfl
  | cons b bindings ih =>
    rw [resolveBindings, Resolve.pass, resolve_binding_eq]
    cases Resolve.follow Value.target dicts.resolved b.2 with
    | none => rfl
    | some value => exact ih _

/-- The loop writes the same into both dictionaries. -/
lemma resolveBindings_params {bindings : List (String × Value)} {dicts dicts' : Dicts}
    (h : resolveBindings bindings dicts = some dicts') {name : String}
    (hname : name ∈ bindings.map Prod.fst ∨ dicts.params name = dicts.resolved name) :
    dicts'.params name = dicts'.resolved name := by
  induction bindings generalizing dicts with
  | nil =>
    cases h
    exact hname.resolve_left (by simp)
  | cons b bindings ih =>
    obtain ⟨value, -, h⟩ := Option.bind_eq_some_iff.mp h
    refine ih h ?_
    by_cases hb : name = b.1
    · subst hb
      simp
    · simpa [hb] using hname

variable {config : Config} {d : String} {σ : DimensionSpec → Value}

/-- The parameters of a series are the values of its free dimensions that refer to nothing. -/
lemma seriesOf_params : (config.seriesOf d σ).params
    = (pairs σ (config.free_dims d)).filter fun a => !a.2.isBinding := by
  unfold Config.seriesOf
  split
  · next hfree => rw [hfree]; rfl
  · rfl

/-- The bindings of a series are the other values. -/
lemma seriesOf_bindings : (config.seriesOf d σ).bindings
    = (pairs σ (config.free_dims d)).filter (fun a => a.2.isBinding) ++
    pairs σ (config.binding_dims d) := by
  unfold Config.seriesOf
  split
  · next hfree => rw [hfree]; rfl
  · rfl

/-- The parameters and the bindings of a series name the dimensions that apply, each once. -/
lemma names_perm (config : Config) (d : String) (σ : DimensionSpec → Value) :
    (((config.seriesOf d σ).params ++ (config.seriesOf d σ).bindings).map Prod.fst).Perm
      ((config.applicable_dims d).map DimensionSpec.name) := by
  have hnot : (pairs σ (config.free_dims d)).filter (fun a => a.2.isBinding)
      = (pairs σ (config.free_dims d)).filter fun a => !!a.2.isBinding :=
        by simp only [Bool.not_not]
  have hdims : config.binding_dims d = (config.applicable_dims d).filter fun s =>
    !!s.is_binding_only := by
    simp only [Bool.not_not, Config.binding_dims]
  have hnames (l : List DimensionSpec) : (pairs σ l).map Prod.fst = l.map DimensionSpec.name := by
    rw [pairs, List.map_map]
    rfl
  rw [seriesOf_params, seriesOf_bindings, ← List.append_assoc, hnot, List.map_append, hnames, hdims]
  refine (((List.filter_append_perm _ _).map Prod.fst).append_right _).trans ?_
  rw [hnames, ← List.map_append]
  exact (List.filter_append_perm _ _).map _

/-- The applicable dimensions have distinct names. -/
lemma applicable_names_nodup (config : Config) (d : String) :
    ((config.applicable_dims d).map DimensionSpec.name).Nodup :=
  config.names_nodup.sublist ((List.filter_sublist.trans List.filter_sublist).map _)

/-- Applicable dimensions are neither the x axis nor the driver. -/
lemma applicable_name {s : DimensionSpec} (hs : s ∈ config.applicable_dims d) :
    s.name ≠ config.x_axis ∧ s.name ≠ DIM_DRIVER_CONFIG := by
  simpa using (List.mem_filter.mp (List.mem_of_mem_filter hs)).2

section Series
variable {combo : Series} (hcombo : combo = config.seriesOf d σ)
include hcombo

/-- The names in a series are distinct. -/
lemma names_nodup : ((combo.params ++ combo.bindings).map Prod.fst).Nodup := by
  subst hcombo
  exact (names_perm config d σ).nodup_iff.mpr (applicable_names_nodup config d)

/-- The names in a series are neither the x axis nor the driver. -/
lemma name_ne {a : String × Value} (ha : a ∈ combo.params ++ combo.bindings) :
    a.1 ≠ config.x_axis ∧ a.1 ≠ DIM_DRIVER_CONFIG := by
  subst hcombo
  obtain ⟨s, hs, hname⟩ :=
    List.mem_map.mp ((names_perm config d σ).mem_iff.mp (List.mem_map_of_mem ha))
  rw [← hname]
  exact applicable_name hs

/-- A dimension has one value in a cell. -/
lemma valueAt_unique {x_val : Value} (haxis : ¬ Refers config.x_axis x_val)
    {name : String} {v w : Value} (h : ValueAt config.x_axis x_val combo name v)
    (h' : ValueAt config.x_axis x_val combo name w) : v = w := by
  unfold ValueAt at h h'
  rw [references, if_neg haxis] at h h'
  have hnodup := names_nodup hcombo
  rw [List.map_append, List.nodup_append'] at hnodup
  obtain ⟨hparams, hbindings, hdisjoint⟩ := hnodup
  have hparam {name : String} {v : Value} (h : (name, v) ∈ combo.params) :=
    name_ne hcombo (List.mem_append_left _ h)
  refine Resolve.Means.unique (fun name v w hv hw => ?_) hbindings (fun name v hv hmem => ?_) h h'
  · rcases hv with ⟨rfl, -, rfl⟩ | ⟨hx, rfl, rfl⟩ | hv <;>
      rcases hw with ⟨hname, -, rfl⟩ | ⟨hx', hname, rfl⟩ | hw
    · rfl
    · exact absurd rfl hx'
    · exact absurd rfl (hparam hw).1
    · exact absurd hname hx
    · rfl
    · exact absurd rfl (hparam hw).2
    · exact absurd hname (hparam hv).1
    · exact absurd hname (hparam hv).2
    · exact congrArg Prod.snd (List.inj_on_of_nodup_map hparams hv hw rfl)
  · obtain ⟨b, hb, rfl⟩ := List.mem_map.mp hmem
    have hne := name_ne hcombo (List.mem_append_right _ hb)
    rcases hv with ⟨hname, -⟩ | ⟨-, hname, -⟩ | hv
    · exact hne.1 hname
    · exact hne.2 hname
    · exact hdisjoint (List.mem_map_of_mem hv) hmem

end Series

/-- The names that have a value before the bindings are resolved. -/
def ownNames (x_axis : String) (combo : Series) : Set String :=
  {name | name = x_axis ∨ name ∈ combo.params.map Prod.fst}

/-- What is resolved at first is what the series itself says. -/
lemma isSome_initialDicts (x_axis : String) (x_val : Value) (combo : Series) :
    {name | ((initialDicts x_axis x_val combo).resolved name).isSome} = ownNames x_axis combo := by
  ext name
  have hlookup : (combo.params.lookup name).isSome ↔ name ∈ combo.params.map Prod.fst := by
    rw [List.lookup_isSome_iff]
    simp only [List.mem_map, beq_iff_eq]
    exact exists_congr fun a => and_congr_right fun _ => eq_comm
  have hx : (if name = x_axis then some x_val else none).isSome ↔ name = x_axis := by
    split
    · next h => exact iff_of_true rfl h
    · next h => exact iff_of_false Bool.false_ne_true h
  rw [Set.mem_ofPred_eq, initialDicts, Option.isSome_or, Bool.or_eq_true, hlookup, hx, or_comm]
  rfl

/-- What a dictionary has before the loop are values of dimensions. -/
lemma initialDicts_valueAt {x_axis : String} {x_val : Value} {combo : Series}
    (hx : ¬ Refers x_axis x_val) {name : String} {v : Value}
    (h : (initialDicts x_axis x_val combo).resolved name = some v) :
    ValueAt x_axis x_val combo name v := by
  refine .own ?_
  rcases Option.or_eq_some_iff.mp h with hparam | ⟨-, hx⟩
  · obtain ⟨l, l', hparams, -⟩ := List.lookup_eq_some_iff.mp hparam
    exact .inr (.inr (by rw [hparams]; exact List.mem_append_right _ List.mem_cons_self))
  · split at hx
    · next hname =>
      cases hx
      exact .inl ⟨hname, ‹_›, rfl⟩
    · cases hx

/-- The loop leaves the x axis as it is. -/
lemma resolved_x_axis {combo : Series} (hcombo : combo = config.seriesOf d σ) {x_val : Value}
    {dicts : Dicts} (h : resolveCell config.x_axis x_val combo = some dicts) :
    dicts.resolved config.x_axis = some x_val := by
  have hpass := resolveBindings_resolved combo.bindings (initialDicts config.x_axis x_val combo)
  rw [show resolveBindings combo.bindings (initialDicts config.x_axis x_val combo)
    = some dicts from h, Option.map_some] at hpass
  have hnot : config.x_axis ∉ (combo.params ++ combo.bindings).map Prod.fst := by
    intro hmem
    obtain ⟨a, ha, hname⟩ := List.mem_map.mp hmem
    exact (name_ne hcombo ha).1 hname
  rw [List.map_append, List.mem_append, not_or] at hnot
  have hparam : combo.params.lookup config.x_axis = none := by
    rw [List.lookup_eq_none_iff]
    intro a ha
    refine bne_iff_ne.mpr fun heq : config.x_axis = a.1 => hnot.1 ?_
    rw [heq]
    exact List.mem_map_of_mem ha
  rw [Resolve.pass_of_not_mem hpass.symm hnot.2, initialDicts]
  dsimp only
  rw [hparam, if_pos rfl, Option.none_or]

/-- A cell gives its references what they refer to exactly when the x axis has none, and each of the
others finds its dimension at its turn. -/
lemma mirrors_iff {combo : Series} (hσ : config.Chosen d σ) (hcombo : combo = config.seriesOf d σ)
    (x_val : Value) :
    Mirrors config.x_axis x_val combo ↔ ¬ Refers config.x_axis x_val ∧
      Resolve.Ready Value.target (ownNames config.x_axis combo) combo.bindings := by
  have hpass := resolveBindings_resolved combo.bindings (initialDicts config.x_axis x_val combo)
  rw [← isSome_initialDicts _ x_val, ← Resolve.isSome_pass_iff, ← hpass, Option.isSome_map]
  constructor
  · rintro ⟨dicts, hdicts, hmirrored⟩
    refine ⟨fun hrefers => ?_, Option.isSome_of_eq_some hdicts⟩
    obtain ⟨-, v, -, hv, hconcrete, -⟩ := hmirrored.axis hrefers
    rw [resolved_x_axis hcombo hdicts] at hv
    cases hv
    exact Bool.false_ne_true (hconcrete.symm.trans hrefers.2)
  · rintro ⟨hx, hsome⟩
    obtain ⟨dicts, hdicts⟩ := Option.isSome_iff_exists.mp hsome
    rw [hdicts, Option.map_some] at hpass
    refine ⟨dicts, hdicts, fun b hb => ?_, fun hrefers => absurd hrefers hx⟩
    have hbinding : b.2.isBinding := by
      subst hcombo
      rw [seriesOf_bindings] at hb
      rcases List.mem_append.mp hb with hb | hb
      · exact (List.mem_filter.mp hb).2
      · obtain ⟨s, hs, rfl⟩ := List.mem_map.mp hb
        exact hσ.isBinding hs
    obtain ⟨ref_dim, href⟩ := Option.isSome_iff_exists.mp ((isSome_target b.2).trans hbinding)
    have hnodup := names_nodup hcombo
    rw [List.map_append] at hnodup
    have hsame : references config.x_axis x_val combo = combo.bindings := if_neg hx
    obtain ⟨v, hv, hmeans⟩ := Resolve.pass_means hpass.symm (hsame ▸ List.Subset.refl _)
      hnodup.of_append_right (fun _ _ => initialDicts_valueAt hx) hb href
    refine ⟨ref_dim, v, href, ?_, fun w => ⟨fun hw => valueAt_unique hcombo hx hw hmeans, ?_⟩⟩
    · rw [resolveBindings_params hdicts (.inl (List.mem_map_of_mem hb)), hv]
    · rintro rfl
      exact hmeans

/-- The cells of the plan. -/
lemma mem_plannedCells {iterations : ℤ} {series : List Series} {cell : Cell} :
    cell ∈ plannedCells config iterations series ↔
      0 < cell.iteration ∧ cell.iteration ≤ iterations ∧ cell.x_val ∈ config.x_values ∧
      cell.combo ∈ series := by
  simp only [plannedCells, List.mem_flatMap, List.mem_range, List.mem_map]
  constructor
  · rintro ⟨i, hi, x_val, hx, combo, hcombo, rfl⟩
    exact ⟨i.succ_pos, by push_cast; omega, hx, hcombo⟩
  · rintro ⟨hpos, hle, hx, hcombo⟩
    obtain ⟨iteration, x_val, combo⟩ := cell
    refine ⟨iteration - 1, by dsimp only at *; omega, x_val, hx, combo, hcombo, ?_⟩
    rw [Nat.sub_add_cancel hpos]

/-! ## Orders of declaration -/

/-- A name is that of its dimension. -/
lemma lookup_eq_some_iff {name : String} {s : DimensionSpec} :
    config.lookup name = some s ↔ s ∈ config.dimensions ∧ s.name = name := by
  constructor
  · intro h
    exact ⟨List.mem_of_find?_eq_some h, by simpa using List.find?_some h⟩
  · rintro ⟨hs, rfl⟩
    have hsome : (config.lookup s.name).isSome := List.find?_isSome.mpr ⟨s, hs, by simp⟩
    obtain ⟨t, ht⟩ := Option.isSome_iff_exists.mp hsome
    have hname : t.name = s.name := by simpa using List.find?_some ht
    rw [ht, List.inj_on_of_nodup_map config.names_nodup (List.mem_of_find?_eq_some ht) hs hname]

namespace Config.Reordered
variable {config' : Config} (h : config.Reordered config')
include h

/-- The order of the dimensions does not matter for a name. -/
lemma lookup_eq (name : String) : config'.lookup name = config.lookup name := by
  ext s
  rw [lookup_eq_some_iff, lookup_eq_some_iff, h.dimensions.mem_iff]

/-- The order of the dimensions does not matter for the drivers. -/
lemma drivers_eq : config'.drivers = config.drivers :=
  by rw [Config.drivers, h.lookup_eq, Config.drivers]

/-- The order of the dimensions does not matter for the x axis. -/
lemma x_values_eq : config'.x_values = config.x_values := by
  rw [Config.x_values, h.lookup_eq, h.x_axis, Config.x_values]

/-- Up to their order the applicable dimensions are the same. -/
lemma applicable_perm (d : String) :
    (config'.applicable_dims d).Perm (config.applicable_dims d) := by
  unfold Config.applicable_dims Config.series_dims
  rw [h.x_axis]
  exact (h.dimensions.filter _).filter _

/-- Up to their order the free dimensions are the same. -/
lemma free_perm (d : String) : (config'.free_dims d).Perm (config.free_dims d) :=
  (h.applicable_perm d).filter _

/-- Up to their order the dimensions of references are the same. -/
lemma binding_perm (d : String) : (config'.binding_dims d).Perm (config.binding_dims d) :=
  (h.applicable_perm d).filter _

/-- The condition does not depend on the order. -/
lemma grounded (hd : config.Grounded d) : config'.Grounded d where
  axis x_val hx := by
    rw [h.x_values_eq] at hx
    rw [h.x_axis]
    exact hd.axis x_val hx
  free s hs v hv ref_dim href := by
    obtain hx | ⟨t, ht, hname, hconcrete⟩ :=
      hd.free s ((h.free_perm d).mem_iff.mp hs) v hv ref_dim href
    · exact .inl (hx.trans h.x_axis.symm)
    · exact .inr ⟨t, (h.free_perm d).mem_iff.mpr ht, hname, hconcrete⟩
  binding s hs v hv ref_dim href := by
    obtain hx | ⟨t, ht, hname⟩ := hd.binding s ((h.binding_perm d).mem_iff.mp hs) v hv ref_dim href
    · exact .inl (hx.trans h.x_axis.symm)
    · exact .inr ⟨t, (h.free_perm d).mem_iff.mpr ht, hname⟩

end Config.Reordered

/-- The first dimension and its value come first. -/
lemma pairs_cons (s : DimensionSpec) (l : List DimensionSpec) :
    pairs σ (s :: l) = (s.name, σ s) :: pairs σ l := rfl

/-- The names of the pairs whose values meet a condition. -/
lemma mem_names_pairs {l : List DimensionSpec} {p : Value → Bool} {name : String} :
    name ∈ ((pairs σ l).filter fun a => p a.2).map Prod.fst ↔ ∃ t ∈ l, t.name = name ∧ p (σ t) := by
  rw [filter_pairs, pairs, List.map_map, List.mem_map]
  simp only [List.mem_filter, Function.comp_apply]
  grind

/-- References of these kinds find their dimensions at their turn. -/
lemma Config.Grounded.ready (h : config.Grounded d) (hσ : config.Chosen d σ) :
    Resolve.Ready Value.target (ownNames config.x_axis (config.seriesOf d σ))
    (config.seriesOf d σ).bindings := by
  rw [seriesOf_bindings, Resolve.ready_append, ownNames, seriesOf_params]
  refine ⟨Resolve.ready_of_known fun e he ref_dim href => ?_,
    Resolve.ready_of_known fun e he ref_dim href => ?_⟩
  · obtain ⟨s, hs, rfl⟩ := List.mem_map.mp (List.mem_of_mem_filter he)
    obtain hx | ⟨t, ht, hname, hconcrete⟩ := h.free s hs _ (hσ.free s hs) ref_dim href
    · exact .inl hx
    · exact .inr ((mem_names_pairs (p := fun v => !v.isBinding)).mpr ⟨t, ht, hname,
        hconcrete _ (hσ.free t ht)⟩)
  · obtain ⟨s, hs, rfl⟩ := List.mem_map.mp he
    obtain hx | ⟨t, ht, hname⟩ := h.binding s hs _ (hσ.fixed s hs) ref_dim href
    · exact .inl (.inl hx)
    · cases hbinding : (σ t).isBinding with
      | true => exact .inr (mem_names_pairs.mpr ⟨t, ht, hname, hbinding⟩)
      | false =>
        exact .inl (.inr ((mem_names_pairs (p := fun v => !v.isBinding)).mpr ⟨t, ht, hname,
          by simp [hbinding]⟩))

/-- A value of a dimension, a reference if it has one. -/
def DimensionSpec.pick (t : DimensionSpec) : Value := (t.values.find? Value.isBinding).getD t.first

/-- The value picked is one of the dimension. -/
lemma pick_mem {t : DimensionSpec} (h : t.values ≠ []) : t.pick ∈ t.values := by
  unfold DimensionSpec.pick
  cases hfind : t.values.find? Value.isBinding with
  | some v => exact List.mem_of_find?_eq_some hfind
  | none =>
    obtain ⟨v, values, hvalues⟩ := List.exists_cons_of_ne_nil h
    rw [DimensionSpec.first, hvalues]
    exact List.mem_cons_self

/-- A dimension with a reference picks one. -/
lemma pick_isBinding {t : DimensionSpec} {w : Value} (hw : w ∈ t.values) (hbinding : w.isBinding) :
    t.pick.isBinding := by
  obtain ⟨v, hv⟩ := Option.isSome_iff_exists.mp (List.find?_isSome.mpr ⟨w, hw, hbinding⟩)
  rw [DimensionSpec.pick, hv]
  exact List.find?_some hv

/-- A dimension of references picks the first. -/
lemma pick_binding {t : DimensionSpec} (ht : t.is_binding_only) (h : t.values ≠ []) :
    t.values.head? = some t.pick := by
  obtain ⟨v, values, hvalues⟩ := List.exists_cons_of_ne_nil h
  have hv : v.isBinding := List.all_eq_true.mp ht v (by rw [hvalues]; exact List.mem_cons_self)
  rw [DimensionSpec.pick, hvalues, List.find?_cons_of_pos hv]
  rfl

/-- A matrix with one of its dimensions declared before the others. -/
def Config.front (config : Config) (s : DimensionSpec) (hs : s ∈ config.dimensions) : Config where
  x_axis := config.x_axis
  dimensions := s :: config.dimensions.erase s
  names_nodup := ((List.perm_cons_erase hs).map _).nodup_iff.mp config.names_nodup

/-- The front of a dimension is another order. -/
lemma front_reordered {s : DimensionSpec} (hs : s ∈ config.dimensions) :
    config.Reordered (config.front s hs) :=
  ⟨rfl, (List.perm_cons_erase hs).symm⟩

/-- The dimension that was put to the front is the first one. -/
lemma front_applicable {s : DimensionSpec} (hs : s ∈ config.applicable_dims d)
    (hmem : s ∈ config.dimensions) :
    ∃ rest, (config.front s hmem).applicable_dims d = s :: rest := by
  have hname := applicable_name hs
  have hmatches := (List.mem_filter.mp hs).2
  have hdims : (config.front s hmem).applicable_dims d
      = ((s :: config.dimensions.erase s).filter fun t => t.name ≠ config.x_axis ∧
        t.name ≠ DIM_DRIVER_CONFIG).filter
        fun t => t.matches_driver d := rfl
  rw [hdims, List.filter_cons_of_pos (by simpa using hname),
    List.filter_cons_of_pos (p := fun t : DimensionSpec => t.matches_driver d) hmatches]
  exact ⟨_, rfl⟩

/-- Every dimension refers where it can. -/
lemma Config.Chosen.pick (hvalues : ∀ t ∈ config.binding_dims d, t.values ≠ []) :
    config.Chosen d DimensionSpec.pick where
  free t ht := by
    refine pick_mem fun hnil => ?_
    have hfree := (List.mem_filter.mp ht).2
    rw [DimensionSpec.is_binding_only, hnil] at hfree
    cases hfree
  fixed t ht := pick_binding (List.mem_filter.mp ht).2 (hvalues t ht)

/-- A dimension that is resolved first, with others referring where they can. -/
lemma Config.Chosen.update_pick {s : DimensionSpec} {v : Value} (hv : v ∈ s.values)
    (hfirst : s.is_binding_only → s.values.head? = some v)
    (hvalues : ∀ t ∈ config.binding_dims d, t.values ≠ []) :
    config.Chosen d (Function.update DimensionSpec.pick s v) where
  free t ht := by
    by_cases hts : t = s
    · rw [hts, Function.update_self]
      exact hv
    · rw [Function.update_of_ne hts]
      exact (Config.Chosen.pick hvalues).free t ht
  fixed t ht := by
    have hbinding := (List.mem_filter.mp ht).2
    by_cases hts : t = s
    · subst hts
      rw [Function.update_self]
      exact hfirst hbinding
    · rw [Function.update_of_ne hts]
      exact (Config.Chosen.pick hvalues).fixed t ht

/-- A reference that finds its dimension, when its own is declared before all others. -/
lemma grounded_of_ready {s : DimensionSpec} {v : Value} {ref_dim : String}
    (href : v.target = some ref_dim) {rest : List DimensionSpec}
    (happlicable : config.applicable_dims d = s :: rest)
    (hready : Resolve.Ready Value.target
      (ownNames config.x_axis (config.seriesOf d (Function.update DimensionSpec.pick s v)))
      (config.seriesOf d (Function.update DimensionSpec.pick s v)).bindings) :
    ref_dim = config.x_axis ∨
      ∃ t ∈ config.free_dims d, t.name = ref_dim ∧
      (s.is_binding_only ∨ ∀ w ∈ t.values, !w.isBinding) := by
  have hbinding : v.isBinding := by rw [← isSome_target, href]; rfl
  rw [seriesOf_bindings, ownNames, seriesOf_params] at hready
  cases hs : s.is_binding_only with
  | true =>
    obtain ⟨-, hready⟩ := Resolve.ready_append.mp hready
    rw [Config.binding_dims, happlicable, List.filter_cons_of_pos hs, pairs_cons,
      Function.update_self] at hready
    obtain (hx | hparam) | hbound := hready.1 ref_dim href
    · exact .inl hx
    · obtain ⟨t, ht, hname, -⟩ := (mem_names_pairs (p := fun v => !v.isBinding)).mp hparam
      exact .inr ⟨t, ht, hname, .inl rfl⟩
    · obtain ⟨t, ht, hname, -⟩ := (mem_names_pairs (p := Value.isBinding)).mp hbound
      exact .inr ⟨t, ht, hname, .inl rfl⟩
  | false =>
    have hfree : config.free_dims d = s :: rest.filter fun t => !t.is_binding_only := by
      rw [Config.free_dims, happlicable, List.filter_cons_of_pos (by simp [hs])]
    obtain ⟨hready, -⟩ := Resolve.ready_append.mp hready
    nth_rewrite 2 [hfree] at hready
    rw [pairs_cons, Function.update_self,
      List.filter_cons_of_pos (p := fun a : String × Value => a.2.isBinding) hbinding] at hready
    obtain hx | hparam := hready.1 ref_dim href
    · exact .inl hx
    · obtain ⟨t, ht, hname, hconcrete⟩ := (mem_names_pairs (p := fun v => !v.isBinding)).mp hparam
      refine .inr ⟨t, ht, hname, .inr fun w hw => ?_⟩
      by_contra hw'
      rw [Bool.not_eq_true', Bool.not_eq_false] at hw'
      by_cases hts : t = s
      · rw [hts, Function.update_self, hbinding] at hconcrete
        cases hconcrete
      · rw [Function.update_of_ne hts, pick_isBinding hw hw'] at hconcrete
        cases hconcrete

/-- A reference that is resolved when its dimension is declared before all others. -/
lemma BindingsResolve.grounded {iterations : ℤ} (h : BindingsResolve config iterations)
    (hiterations : 0 < iterations) (hx : config.x_values ≠ []) {dim : DimensionSpec}
    (hdim : config.lookup DIM_DRIVER_CONFIG = some dim) (hpaths : ∀ v ∈ dim.values, v.path.isSome)
    (hvalues : ∀ e ∈ config.drivers, ∀ s ∈ config.binding_dims e, s.values ≠ [])
    (hd : d ∈ config.drivers) {s : DimensionSpec} (hs : s ∈ config.applicable_dims d) {v : Value}
    (hv : v ∈ s.values) (hfirst : s.is_binding_only → s.values.head? = some v) {ref_dim : String}
    (href : v.target = some ref_dim) :
    ref_dim = config.x_axis ∨
      ∃ t ∈ config.free_dims d, t.name = ref_dim ∧
      (s.is_binding_only ∨ ∀ w ∈ t.values, !w.isBinding) := by
  have hmem := applicable_subset d hs
  have hfront := front_reordered hmem
  have hvalues' : ∀ e ∈ (config.front s hmem).drivers, ∀ t ∈ (config.front s hmem).binding_dims e,
    t.values ≠ [] := by
    intro e he t ht
    rw [hfront.drivers_eq] at he
    exact hvalues e he t ((hfront.binding_perm e).mem_iff.mp ht)
  obtain ⟨series, hseries⟩ := exists_series ((hfront.lookup_eq _).trans hdim) hpaths hvalues'
  rw [← hfront.drivers_eq] at hd
  have hchosen := Config.Chosen.update_pick hv hfirst (hvalues' d hd)
  have hcombo := (mem_series hseries).mpr ⟨d, hd, _, hchosen, rfl⟩
  obtain ⟨x_val, hx_val⟩ := List.exists_mem_of_ne_nil _ hx
  have hcell := h _ hfront series hseries ⟨1, x_val, _⟩
    (mem_plannedCells.mpr ⟨Nat.one_pos, by exact_mod_cast hiterations,
      hfront.x_values_eq ▸ hx_val, hcombo⟩)
  obtain ⟨rest, hrest⟩ := front_applicable hs hmem
  obtain hx | ⟨t, ht, hname⟩ :=
    grounded_of_ready href hrest ((mirrors_iff hchosen rfl x_val).mp hcell).2
  · exact .inl hx
  · exact .inr ⟨t, (hfront.free_perm d).mem_iff.mp ht, hname⟩

/-- A reference on the x axis is resolved in no cell. -/
lemma BindingsResolve.axis {iterations : ℤ} (h : BindingsResolve config iterations)
    (hiterations : 0 < iterations) {dim : DimensionSpec}
    (hdim : config.lookup DIM_DRIVER_CONFIG = some dim) (hpaths : ∀ v ∈ dim.values, v.path.isSome)
    (hvalues : ∀ e ∈ config.drivers, ∀ s ∈ config.binding_dims e, s.values ≠ [])
    (hd : d ∈ config.drivers) {x_val : Value} (hx : x_val ∈ config.x_values) :
    ¬ Refers config.x_axis x_val := by
  obtain ⟨series, hseries⟩ := exists_series hdim hpaths hvalues
  have hchosen : config.Chosen d DimensionSpec.pick := Config.Chosen.pick (hvalues d hd)
  have hcombo := (mem_series hseries).mpr ⟨d, hd, _, hchosen, rfl⟩
  have hcell := h _ ⟨rfl, .refl _⟩ series hseries ⟨1, x_val, _⟩
    (mem_plannedCells.mpr ⟨Nat.one_pos, by exact_mod_cast hiterations, hx, hcombo⟩)
  exact ((mirrors_iff hchosen rfl x_val).mp hcell).1

/-- The references of an accepted matrix are resolved in all cells and in every order of
declaration exactly when no cell is run, or the x axis has no reference and every reference of a
driver is to the x axis, to a dimension without references, or from a dimension that consists of
references to one that does not. -/
theorem bindingsResolve_iff (isFile : String → Bool) (raw : RawMatrix) (config : Config)
    (iterations : ℤ) (h : parse_matrix_config isFile raw = some config) :
    BindingsResolve config iterations ↔
      iterations ≤ 0 ∨ config.x_values = [] ∨ (∃ d ∈ config.drivers, ∃ s ∈ config.binding_dims d,
        s.values = []) ∨
        ∀ d ∈ config.drivers, config.Grounded d := by
  constructor
  · intro hresolve
    by_contra hnot
    simp only [not_or, not_le] at hnot
    obtain ⟨hiterations, hx, hempty, hgrounded⟩ := hnot
    refine hgrounded fun d hd => ?_
    have hvalues : ∀ e ∈ config.drivers, ∀ s ∈ config.binding_dims e, s.values ≠ [] :=
      fun e he s hs hnil => hempty ⟨e, he, s, hs, hnil⟩
    obtain ⟨-, dim, hdim, hfiles⟩ := accepted h
    have hpaths : ∀ v ∈ dim.values, v.path.isSome := fun v hv => path_isSome (hfiles v hv)
    refine ⟨fun x_val => hresolve.axis hiterations hdim hpaths hvalues hd, ?_, ?_⟩
    · intro s hs v hv ref_dim href
      obtain ⟨hs, hfree⟩ := List.mem_filter.mp hs
      rw [Bool.not_eq_true'] at hfree
      have hground :=
        hresolve.grounded hiterations hx hdim hpaths hvalues hd hs hv (by simp [hfree]) href
      simpa only [hfree, Bool.false_eq_true, false_or] using hground
    · intro s hs v hv ref_dim href
      obtain ⟨hs, hbinding⟩ := List.mem_filter.mp hs
      obtain hx | ⟨t, ht, hname, -⟩ := hresolve.grounded hiterations hx hdim hpaths hvalues hd hs
        (List.mem_of_mem_head? hv) (fun _ => hv) href
      · exact .inl hx
      · exact .inr ⟨t, ht, hname⟩
  · rintro hcondition config' hreordered series hseries cell hcell
    obtain ⟨hpos, hle, hx, hcombo⟩ := mem_plannedCells.mp hcell
    obtain ⟨d, hd, σ, hσ, hcombo⟩ := (mem_series hseries).mp hcombo
    rw [hreordered.drivers_eq] at hd
    rcases hcondition with hiterations | hnil | ⟨e, he, s, hs, hnil⟩ | hgrounded
    · omega
    · rw [hreordered.x_values_eq, hnil] at hx
      cases hx
    · rw [← hreordered.drivers_eq] at he
      obtain ⟨v, hv⟩ := exists_heads hseries he s ((hreordered.binding_perm e).mem_iff.mpr hs)
      rw [hnil] at hv
      cases hv
    · have hgrounded := hreordered.grounded (hgrounded d hd)
      rw [mirrors_iff hσ hcombo, hcombo]
      exact ⟨hgrounded.axis _ hx, hgrounded.ready hσ⟩

/-- A pool of a fixed size or as large as the connections, and a second one that follows it. -/
def followedPool : RawMatrix where
  x_axis := some "connections"
  workload_template := some (.scalar (.str "configs/workloads/example-workload.json"))
  dimensions :=
    [("connections", .array [.scalar (.other "1"), .scalar (.other "64")]),
      ("driver_config", .single (.scalar (.str "configs/drivers/default/jedis.json"))),
      ("idle", .single (.scalar (.str "$pool_size"))),
      ("pool_size", .array [.scalar (.other "8"), .scalar (.str "$connections")])]
  names_nodup := by decide

/-- The matrix of the example resolves its bindings. -/
theorem followedPool_resolve : BindingsResolve followedPool.config 10 :=
  (bindingsResolve_iff (fun _ => true) followedPool _ 10 rfl).mpr
    (.inr (.inr (.inr (List.forall_mem_singleton.mpr ⟨by decide, by decide, by decide⟩))))

/-- A pool as large as the threads, which one of two drivers has not. -/
def threadsOfOne : RawMatrix where
  x_axis := some "connections"
  workload_template := some (.scalar (.str "configs/workloads/example-workload.json"))
  dimensions :=
    [("connections", .array [.scalar (.other "1"), .scalar (.other "64")]),
      ("driver_config", .array [.scalar (.str "configs/drivers/default/valkey-glide.json"),
        .scalar (.str "configs/drivers/default/jedis.json")]),
      ("threads", .extended [.scalar (.other "4")] (some [("driver_config", ["*glide*"])])),
      ("pool_size", .single (.scalar (.str "$threads")))]
  names_nodup := by decide

/-- The first cell is run, the second raises an exception. -/
theorem threadsOfOne_not_resolve :
    parse_matrix_config (fun _ => true) threadsOfOne = some threadsOfOne.config ∧
      ¬ BindingsResolve threadsOfOne.config 1 ∧
      ∃ series first second rest, generate_series_combos threadsOfOne.config = some series ∧
        plannedCells threadsOfOne.config 1 series = first :: second :: rest ∧
        (resolveCell "connections" first.x_val first.combo).isSome ∧
        resolveCell "connections" second.x_val second.combo = none := by
  refine ⟨rfl, fun hresolve => ?_, _, _, _, _, rfl, rfl, rfl, rfl⟩
  obtain ⟨dicts, hdicts, -⟩ :=
    hresolve _ ⟨rfl, .refl _⟩ _ rfl _ (List.mem_cons_of_mem _ List.mem_cons_self)
  cases hdicts

end RespBench.Matrix
