import RespBench.Matrix.Labels

/-!
# The product of the dimensions

Whether the series of a matrix are the elements of the product of its dimensions (`FullProduct`):
one series for each driver and each choice of a value for every dimension that applies to it.
`fullProduct_iff` says that they are exactly when no dimension that consists of references has more
than one of them, since of these the code takes the first only.
-/

namespace RespBench.Matrix
open RespBench.Lib

/-- The elements of the product for a driver: a value for each dimension that
applies, under its name. -/
def Config.elements (config : Config) (d : String) : List (List (String × Value)) :=
  (product ((config.applicable_dims d).map DimensionSpec.values)).map
    ((config.applicable_dims d).map DimensionSpec.name).zip

def Config.fullProduct (config : Config) : List (String × List (String × Value)) :=
  config.drivers.flatMap fun d => (config.elements d).map (d, ·)

/-- The series of a driver gives the dimensions these values: references in its bindings, the
others in its parameters. -/
structure Series.Assigns (s : Series) (d : String) (element : List (String × Value)) : Prop where
  driver_config : s.driver_config = d
  params : s.params.Perm (element.filter fun a => !a.2.isBinding)
  bindings : s.bindings.Perm (element.filter fun a => a.2.isBinding)

/-- The series are the elements of the product, each of them once. -/
def FullProduct (config : Config) (series : List Series) : Prop :=
  ∃ elements, elements.Perm config.fullProduct ∧
    List.Forall₂ (fun (s : Series) element => s.Assigns element.1 element.2) series elements

/-! ## Products -/

/-- Lists with reordered values have the same combinations. -/
lemma product_perm {ls ls' : List (List Value)} (h : List.Forall₂ List.Perm ls ls') :
    (product ls).Perm (product ls') := by
  induction h with
  | nil => exact .refl _
  | cons hvalues _ ih => exact hvalues.flatMap fun v _ => ih.map _

/-- There are as many combinations as the lengths multiply to. -/
lemma length_product (ls : List (List Value)) :
    (product ls).length = (ls.map List.length).prod := by
  induction ls with
  | nil => rfl
  | cons values ls ih => simp [product, List.length_flatMap, ih]

/-- Splitting only reorders the values. -/
lemma split_values_perm (s : DimensionSpec) : s.split_values.Perm s.values := by
  have hnot : s.values.filter Value.isBinding = s.values.filter fun v => !!v.isBinding := by
    simp only [Bool.not_not]
  rw [DimensionSpec.split_values, hnot]
  exact List.filter_append_perm _ _

/-! ## Values for all dimensions -/

/-- The first value of a dimension. -/
def DimensionSpec.first (s : DimensionSpec) : Value := s.values.head?.getD .empty

/-- A combination of values for the free ones among some dimensions, with the first
values of the others. -/
def weave : List DimensionSpec → List Value → List (String × Value)
  | [], _ => []
  | s :: l, combo =>
    if s.is_binding_only then (s.name, s.first) :: weave l combo
    else
      match combo with
      | [] => []
      | v :: combo => (s.name, v) :: weave l combo

section Weave
variable {s : DimensionSpec} {l : List DimensionSpec}

/-- A dimension of references adds its first value. -/
lemma weave_of_binding (h : s.is_binding_only = true) :
    weave (s :: l) = List.cons (s.name, s.first) ∘ weave l := by
  funext combo
  simp [weave, h]

/-- A free dimension adds the value that is chosen. -/
lemma weave_of_free (h : s.is_binding_only = false) (v : Value) :
    weave (s :: l) ∘ List.cons v = List.cons (s.name, v) ∘ weave l := by
  funext combo
  simp [weave, h]

end Weave

/-- When every dimension that consists of references has only one, the combinations make up the
product. -/
lemma map_weave {l : List DimensionSpec} (hone : ∀ s ∈ l, s.is_binding_only → s.values.length = 1) :
    (product ((l.filter fun s => !s.is_binding_only).map DimensionSpec.values)).map (weave l)
      = (product (l.map DimensionSpec.values)).map (l.map DimensionSpec.name).zip := by
  induction l with
  | nil => rfl
  | cons s l ih =>
    obtain ⟨hs, hl⟩ := List.forall_mem_cons.mp hone
    have hrest := ih hl
    cases hbinding : s.is_binding_only with
    | true =>
      obtain ⟨v, hv⟩ := List.length_eq_one_iff.mp (hs hbinding)
      have hfirst : s.first = v := by rw [DimensionSpec.first, hv]; rfl
      rw [List.filter_cons_of_neg (by simp [hbinding]), weave_of_binding hbinding, hfirst,
        ← List.map_map, hrest]
      simp only [List.map_cons, hv, product, List.flatMap_singleton, List.map_map]
      rfl
    | false =>
      rw [List.filter_cons_of_pos (by simp [hbinding])]
      simp only [List.map_cons, product, List.map_flatMap]
      refine List.flatMap_congr fun v _ => ?_
      rw [List.map_map, weave_of_free hbinding, ← List.map_map, hrest, List.map_map, List.map_map]
      rfl

/-- The values of the free dimensions and of the others, in two parts. -/
lemma weave_perm (l : List DimensionSpec) (combo : List Value)
    (hcombo : combo.length = (l.filter fun s => !s.is_binding_only).length) :
    (weave l combo).Perm (((l.filter fun s => !s.is_binding_only).map DimensionSpec.name).zip combo
      ++ pairs DimensionSpec.first (l.filter DimensionSpec.is_binding_only)) := by
  induction l generalizing combo with
  | nil => exact .refl _
  | cons s l ih =>
    cases hbinding : s.is_binding_only with
    | true =>
      rw [List.filter_cons_of_neg (by simp [hbinding])] at hcombo ⊢
      rw [weave_of_binding hbinding, List.filter_cons_of_pos hbinding, pairs, List.map_cons]
      exact ((ih _ hcombo).cons _).trans List.perm_middle.symm
    | false =>
      rw [List.filter_cons_of_pos (by simp [hbinding])] at hcombo ⊢
      rw [List.filter_cons_of_neg (by simp [hbinding])]
      cases combo with
      | nil => cases hcombo
      | cons v combo =>
        have hweave := congrFun (weave_of_free (l := l) hbinding v) combo
        rw [Function.comp_apply, Function.comp_apply] at hweave
        rw [hweave, List.map_cons, List.zip_cons_cons, List.cons_append]
        exact (ih _ (Nat.succ.inj hcombo)).cons _

/-! ## The series of a driver -/

variable {config : Config} {d : String}

/-- What is woven of a combination and references is assigned by the two lists of a series. -/
lemma assigns_of_perm {s : Series} (combo : List (String × Value))
    {fixed element : List (String × Value)} (helement : element.Perm (combo ++ fixed))
    (hfixed : ∀ a ∈ fixed, a.2.isBinding) (hdriver : s.driver_config = d)
    (hparams : s.params = combo.filter fun a => !a.2.isBinding)
    (hbindings : s.bindings = combo.filter (fun a => a.2.isBinding) ++ fixed) :
    s.Assigns d element := by
  have hnone : fixed.filter (fun a => !a.2.isBinding) = [] :=
    List.filter_eq_nil_iff.mpr fun a ha => by simp [hfixed a ha]
  have hall : fixed.filter (fun a => a.2.isBinding) = fixed := List.filter_eq_self.mpr hfixed
  refine ⟨hdriver, ?_, ?_⟩
  · have h := (helement.filter fun a => !a.2.isBinding).symm
    rw [List.filter_append, hnone, List.append_nil] at h
    rwa [hparams]
  · have h := (helement.filter fun a => a.2.isBinding).symm
    rw [List.filter_append, hall] at h
    rwa [hbindings]

/-- The references that the series of a driver share. -/
lemma driverSeries_fixed {series : List Series} (h : config.driverSeries d = some series) :
    (∀ a ∈ pairs DimensionSpec.first (config.binding_dims d), a.2.isBinding) ∧
      series = if config.free_dims d = []
        then [⟨stem d, d, [], pairs DimensionSpec.first (config.binding_dims d)⟩]
        else (product ((config.free_dims d).map DimensionSpec.split_values)).map fun combo =>
          comboSeries d (((config.free_dims d).map DimensionSpec.name).zip combo)
            (pairs DimensionSpec.first (config.binding_dims d)) := by
  obtain ⟨fixed, hfixed, h⟩ := Option.bind_eq_some_iff.mp h
  obtain ⟨hheads, hpairs⟩ := fixed_eq hfixed
  have hfirst : ∀ s ∈ config.binding_dims d, s.values.head? = some s.first := by
    intro s hs
    obtain ⟨v, hv⟩ := hheads s hs
    rw [DimensionSpec.first, hv, Option.getD_some]
  rw [hpairs _ hfirst] at h
  refine ⟨fun a ha => ?_, ?_⟩
  · obtain ⟨s, hs, rfl⟩ := List.mem_map.mp ha
    exact List.all_eq_true.mp (List.mem_filter.mp hs).2 _ (List.mem_of_head? (hfirst s hs))
  · split at h
    · next hfree =>
      rw [if_pos hfree]
      exact (Option.some.inj h).symm
    · next hfree =>
      rw [if_neg hfree]
      exact (Option.some.inj h).symm

/-- The series of a driver are its elements, when no dimension has a second reference to lose. -/
lemma driverSeries_assigns {series : List Series} (h : config.driverSeries d = some series)
    (hone : ∀ s ∈ config.binding_dims d, s.values.length = 1) :
    ∃ elements, elements.Perm (config.elements d) ∧
      List.Forall₂ (fun (s : Series) element => s.Assigns d element) series elements := by
  obtain ⟨hfixed, rfl⟩ := driverSeries_fixed h
  refine ⟨(product ((config.free_dims d).map DimensionSpec.split_values)).map
    (weave (config.applicable_dims d)), ?_, ?_⟩
  · have hone' : ∀ s ∈ config.applicable_dims d, s.is_binding_only → s.values.length = 1 :=
      fun s hs hbinding => hone s (List.mem_filter.mpr ⟨hs, hbinding⟩)
    have hsplit : List.Forall₂ List.Perm ((config.free_dims d).map DimensionSpec.split_values)
        ((config.free_dims d).map DimensionSpec.values) := by
      rw [List.forall₂_map_left_iff, List.forall₂_map_right_iff]
      exact List.forall₂_same.mpr fun s _ => split_values_perm s
    rw [Config.elements, ← map_weave hone']
    exact (product_perm hsplit).map _
  · split
    · next hfree =>
      have hweave := weave_perm (config.applicable_dims d) [] (by
        change 0 = (config.free_dims d).length
        rw [hfree, List.length_nil])
      rw [List.zip_nil_right, List.nil_append] at hweave
      rw [hfree]
      exact .cons (assigns_of_perm [] hweave hfixed rfl rfl rfl) .nil
    · rw [List.forall₂_map_left_iff, List.forall₂_map_right_iff]
      refine List.forall₂_same.mpr fun combo hcombo => ?_
      have hlength := (mem_product.mp hcombo).length_eq
      rw [List.length_map] at hlength
      exact assigns_of_perm _ (weave_perm _ _ hlength) hfixed rfl rfl rfl

/-! ## All series -/

/-- Applicable dimensions are dimensions of the matrix. -/
lemma applicable_subset (d : String) : config.applicable_dims d ⊆ config.dimensions := fun _ hs =>
  List.mem_of_mem_filter (List.mem_of_mem_filter hs)

/-- A driver has series when no dimension of references is empty. -/
lemma driverSeries_isSome (hvalues : ∀ s ∈ config.binding_dims d, s.values ≠ []) :
    (config.driverSeries d).isSome := by
  obtain ⟨fixed, hfixed⟩ : ∃ fixed,
    ((config.binding_dims d).mapM fun s => s.values.head?.map (s.name, ·))
      = some fixed := by
    refine Runs.exists_mapM fun s hs => ?_
    rw [Option.isSome_map, List.isSome_head?]
    exact hvalues s hs
  rw [Config.driverSeries, hfixed]
  dsimp only [Option.bind_eq_bind, Option.bind_some]
  split <;> rfl

/-- What an accepted matrix is known to have: an x axis, and drivers that are the paths of files. -/
lemma accepted {isFile : String → Bool} {raw : RawMatrix}
    (h : parse_matrix_config isFile raw = some config) :
    (config.lookup config.x_axis).isSome ∧
      ∃ dim, config.lookup DIM_DRIVER_CONFIG = some dim ∧ ∀ v ∈ dim.values,
      refersToFile isFile v := by
  obtain ⟨_, hx, h⟩ := Option.bind_eq_some_iff.mp h
  obtain ⟨dim, hdim, h⟩ := Option.bind_eq_some_iff.mp h
  obtain ⟨template, -, h⟩ := Option.bind_eq_some_iff.mp h
  obtain ⟨_, -, h⟩ := Option.bind_eq_some_iff.mp h
  obtain ⟨_, hfiles, h⟩ := Option.bind_eq_some_iff.mp h
  cases h
  exact ⟨(Option.guard_eq_some' _).mp hx, dim, hdim,
    List.all_eq_true.mp ((Option.guard_eq_some' _).mp hfiles)⟩

/-- What refers to a file is a path. -/
lemma path_isSome {isFile : String → Bool} {v : Value} (h : refersToFile isFile v) :
    v.path.isSome := by
  cases v with
  | object env => cases h
  | scalar v =>
    cases v with
    | str path => rfl
    | other text => cases h

/-- A matrix has series if its drivers are paths, and no dimension is empty where its
first reference is used. -/
lemma exists_series {dim : DimensionSpec} (hdim : config.lookup DIM_DRIVER_CONFIG = some dim)
    (hpaths : ∀ v ∈ dim.values, v.path.isSome)
    (hvalues : ∀ d ∈ config.drivers, ∀ s ∈ config.binding_dims d, s.values ≠ []) :
    ∃ series, generate_series_combos config = some series := by
  obtain ⟨paths, hpaths⟩ := Runs.exists_mapM hpaths
  have hdrivers : config.drivers = paths := by
    rw [Config.drivers, hdim, Option.map_some, Option.getD_some]
    exact Runs.filterMap_of_forall₂ (Runs.forall₂_of_mapM hpaths)
  obtain ⟨all, hall⟩ := Runs.exists_mapM fun d hd => driverSeries_isSome (hvalues d hd)
  rw [hdrivers] at hall
  exact ⟨all.flatten, by rw [generate_series_combos, hdim]; simp [hpaths, hall]⟩

/-- The number of the series of a driver. -/
lemma length_driverSeries {series : List Series} (h : config.driverSeries d = some series) :
    series.length = ((config.free_dims d).map fun s => s.values.length).prod := by
  obtain ⟨-, rfl⟩ := driverSeries_fixed h
  split
  · next hfree =>
    rw [hfree]
    rfl
  · rw [List.length_map, length_product, List.map_map]
    exact congrArg List.prod (List.map_congr_left fun s _ => (split_values_perm s).length_eq)

/-- The number of the elements of a driver. -/
lemma length_elements (d : String) : (config.elements d).length
    = ((config.free_dims d).map fun s => s.values.length).prod
      * ((config.binding_dims d).map fun s => s.values.length).prod := by
  have hnot : config.binding_dims d = (config.applicable_dims d).filter fun s =>
    !!s.is_binding_only := by
    simp only [Bool.not_not, Config.binding_dims]
  rw [Config.elements, List.length_map, length_product, List.map_map, hnot, ← List.prod_append,
    ← List.map_append]
  exact (((List.filter_append_perm _ _).map _).prod_eq).symm

/-- The number of the series of a matrix. -/
lemma length_series {series : List Series} (h : generate_series_combos config = some series) :
    series.length = (config.drivers.map fun d =>
      ((config.free_dims d).map fun s => s.values.length).prod).sum := by
  obtain ⟨all, rfl, hall⟩ := generate_eq_some h
  clear h
  generalize config.drivers = drivers at hall
  induction hall with
  | nil => rfl
  | cons hd _ ih => rw [List.flatten_cons, List.length_append, length_driverSeries hd, ih,
      List.map_cons, List.sum_cons]

/-- The number of the elements of the full product. -/
lemma length_fullProduct (config : Config) :
    config.fullProduct.length = (config.drivers.map fun d => (config.elements d).length).sum := by
  rw [Config.fullProduct, List.length_flatMap]
  simp only [List.length_map]

/-- A product of lengths is positive when no dimension is empty. -/
lemma prod_pos (hvalues : ∀ s ∈ config.dimensions, s.values ≠ []) {l : List DimensionSpec}
    (hl : l ⊆ config.applicable_dims d) : 0 < (l.map fun s => s.values.length).prod := by
  refine List.prod_pos fun n hn => ?_
  obtain ⟨t, ht, rfl⟩ := List.mem_map.mp hn
  exact List.length_pos_iff.mpr (hvalues t (applicable_subset d (hl ht)))

/-- A second reference of a dimension is lost. -/
lemma elements_lost (hvalues : ∀ s ∈ config.dimensions, s.values ≠ []) {s : DimensionSpec}
    (hs : s ∈ config.binding_dims d) (hmany : s.values.length ≠ 1) :
    ((config.free_dims d).map fun s => s.values.length).prod < (config.elements d).length := by
  have hfree : 0 < ((config.free_dims d).map fun s => s.values.length).prod :=
    prod_pos hvalues (List.filter_subset_self _)
  have hbinding : 0 < ((config.binding_dims d).map fun s => s.values.length).prod :=
    prod_pos hvalues (List.filter_subset_self _)
  have hle := Nat.le_of_dvd hbinding (List.dvd_prod (List.mem_map_of_mem hs))
  have hone := List.length_pos_iff.mpr (hvalues s (applicable_subset d (List.mem_of_mem_filter hs)))
  rw [length_elements]
  exact lt_mul_of_one_lt_right hfree (by omega)

/-- The series of an accepted matrix without empty dimensions are the full product exactly when
every dimension that consists of references, and applies to a driver, has only one. -/
theorem fullProduct_iff (isFile : String → Bool) (raw : RawMatrix) (config : Config)
    (h : parse_matrix_config isFile raw = some config)
    (hvalues : ∀ s ∈ config.dimensions, s.values ≠ []) :
    (∃ series, generate_series_combos config = some series ∧ FullProduct config series) ↔
      ∀ d ∈ config.drivers, ∀ s ∈ config.binding_dims d, s.values.length = 1 := by
  constructor
  · rintro ⟨series, hseries, elements, hperm, hall⟩ d hd s hs
    by_contra hmany
    have hlength := hall.length_eq.trans hperm.length_eq
    rw [length_series hseries, length_fullProduct] at hlength
    refine hlength.not_lt (List.sum_lt_sum _ _ (fun e _ => ?_) ⟨d, hd,
      elements_lost hvalues hs hmany⟩)
    rw [length_elements]
    exact Nat.le_mul_of_pos_right _ (prod_pos hvalues (List.filter_subset_self _))
  · intro hone
    obtain ⟨-, dim, hdim, hfiles⟩ := accepted h
    obtain ⟨series, hseries⟩ := exists_series hdim (fun v hv => path_isSome (hfiles v hv))
      fun d _ s hs => hvalues s (applicable_subset d (List.mem_of_mem_filter hs))
    refine ⟨series, hseries, ?_⟩
    obtain ⟨all, rfl, hall⟩ := generate_eq_some hseries
    unfold FullProduct Config.fullProduct
    clear hseries
    generalize config.drivers = drivers at hone hall
    induction hall with
    | nil => exact ⟨[], .refl _, .nil⟩
    | @cons d block drivers all hd hrest ih =>
      obtain ⟨hone, htail⟩ := List.forall_mem_cons.mp hone
      obtain ⟨elements, hperm, hassigns⟩ := driverSeries_assigns hd hone
      obtain ⟨rest, hpermrest, hassignsrest⟩ := ih htail
      refine ⟨elements.map (d, ·) ++ rest, (hperm.map _).append hpermrest, ?_⟩
      rw [List.flatten_cons]
      refine List.rel_append ?_ hassignsrest
      rw [List.forall₂_map_right_iff]
      exact hassigns

/-- A pool that follows the connections, for one of two drivers. -/
def conditionalPool : RawMatrix where
  x_axis := some "connections"
  workload_template := some (.scalar (.str "configs/workloads/example-workload.json"))
  dimensions :=
    [("connections", .array [.scalar (.other "1"), .scalar (.other "64")]),
      ("driver_config", .array [.scalar (.str "configs/drivers/default/jedis.json"),
        .scalar (.str "configs/drivers/default/spring-data-valkey-lettuce.json")]),
      ("pool_size",
        .extended [.scalar (.str "$connections")] (some [("driver_config", ["*spring-data*"])])),
      ("use_pooling", .array [.scalar (.other "True"), .scalar (.other "False")])]
  names_nodup := by decide

/-- The example has the full product. -/
theorem conditionalPool_fullProduct :
    ∃ series, generate_series_combos conditionalPool.config = some series ∧
    FullProduct conditionalPool.config series :=
  (fullProduct_iff (fun _ => true) conditionalPool _ rfl (by decide)).mpr (by decide)

/-- A pool that is to follow the connections in one half of the series and the
threads in the other. -/
def twoReferences : RawMatrix where
  x_axis := some "connections"
  workload_template := some (.scalar (.str "configs/workloads/example-workload.json"))
  dimensions :=
    [("connections", .array [.scalar (.other "1"), .scalar (.other "64")]),
      ("driver_config", .single (.scalar (.str "configs/drivers/default/jedis.json"))),
      ("threads", .array [.scalar (.other "4"), .scalar (.other "8")]),
      ("pool_size", .array [.scalar (.str "$connections"), .scalar (.str "$threads")])]
  names_nodup := by decide

/-- The half with the threads is lost. -/
theorem twoReferences_not_fullProduct :
    parse_matrix_config (fun _ => true) twoReferences = some twoReferences.config ∧
      (∀ s ∈ twoReferences.config.dimensions, s.values ≠ []) ∧
      ∃ series, generate_series_combos twoReferences.config = some series ∧
        series.length = 2 ∧ twoReferences.config.fullProduct.length = 4 ∧
        ¬ FullProduct twoReferences.config series := by
  refine ⟨rfl, by decide, _, rfl, rfl, rfl, fun hfull => ?_⟩
  obtain ⟨elements, hperm, hall⟩ := hfull
  exact absurd (hall.length_eq.trans hperm.length_eq) (by decide)

end RespBench.Matrix
