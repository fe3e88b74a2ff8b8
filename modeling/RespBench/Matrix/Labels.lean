import RespBench.Lib.Arrange
import RespBench.Lib.Runs
import RespBench.Lib.Text
import RespBench.Matrix.Series

/-!
# Labels of series

Whether the labels of a matrix identify its series. A series is a driver with a value for each of
its dimensions (`mem_series`), and its label is the stem of the driver with the pieces of the
values, arranged by the names of the dimensions with the references last (`label_eq`).
-/

namespace RespBench.Matrix
open RespBench.Lib RespBench.Lib.Arrange

/-! ## Series as assignments -/

/-- The pieces of a label that a value gives its dimension. -/
def DimensionSpec.parts (s : DimensionSpec) (v : Value) : List Part :=
  if v.isBinding then bindingParts (s.name, v) else paramParts (s.name, v)

/-- Dimensions with their values. -/
def pairs (σ : DimensionSpec → Value) (l : List DimensionSpec) : List (String × Value) :=
  l.map fun s => (s.name, σ s)

/-- The series of a driver with a value for each of its dimensions. -/
def Config.seriesOf (config : Config) (d : String) (σ : DimensionSpec → Value) : Series :=
  if config.free_dims d = [] then ⟨stem d, d, [], pairs σ (config.binding_dims d)⟩
  else comboSeries d (pairs σ (config.free_dims d)) (pairs σ (config.binding_dims d))

/-- The driver of a series. -/
@[simp] lemma seriesOf_driver_config (config : Config) (d : String) (σ : DimensionSpec → Value) :
    (config.seriesOf d σ).driver_config = d := by
  unfold Config.seriesOf
  split <;> rfl

/-- The values that a dimension may have in a series of a driver. -/
structure Config.Chosen (config : Config) (d : String) (σ : DimensionSpec → Value) : Prop where
  free : ∀ s ∈ config.free_dims d, σ s ∈ s.values
  fixed : ∀ s ∈ config.binding_dims d, s.values.head? = some (σ s)

/-- The paths of the drivers. -/
def Config.drivers (config : Config) : List String :=
  (((config.lookup DIM_DRIVER_CONFIG).map DimensionSpec.values).getD []).filterMap Value.path

/-- A combination takes a value from every list. -/
lemma mem_product {ls : List (List Value)} {combo : List Value} :
    combo ∈ product ls ↔ List.Forall₂ (fun v values => v ∈ values) combo ls := by
  induction ls generalizing combo with
  | nil => simp [product]
  | cons values ls ih =>
    simp only [product, List.mem_flatMap, List.mem_map]
    constructor
    · rintro ⟨v, hv, rest, hrest, rfl⟩
      exact .cons hv (ih.mp hrest)
    · intro h
      cases h with
      | cons hv hrest => exact ⟨_, hv, _, ih.mpr hrest, rfl⟩

/-- Splitting only reorders the values. -/
lemma mem_split_values {s : DimensionSpec} {v : Value} : v ∈ s.split_values ↔ v ∈ s.values := by
  simp only [DimensionSpec.split_values, List.mem_append, List.mem_filter]
  cases v.isBinding <;> simp

/-- A combination of values assigns one to each dimension. -/
lemma exists_assignment {l : List DimensionSpec} (hnodup : l.Nodup) {combo : List Value}
    (h : combo ∈ product (l.map DimensionSpec.split_values)) :
    ∃ σ : DimensionSpec → Value, combo = l.map σ ∧ ∀ s ∈ l, σ s ∈ s.values := by
  induction l generalizing combo with
  | nil =>
    rw [List.map_nil, mem_product] at h
    cases h
    exact ⟨fun _ => .empty, rfl, fun _ h => (by cases h)⟩
  | cons s l ih =>
    obtain ⟨hs, hl⟩ := List.nodup_cons.mp hnodup
    rw [List.map_cons, mem_product] at h
    cases h with
    | @cons v _ rest _ hv hrest =>
      obtain ⟨σ, rfl, hσ⟩ := ih hl (mem_product.mpr hrest)
      have hold : ∀ t ∈ l, Function.update σ s v t = σ t := by
        intro t ht
        refine Function.update_of_ne ?_ _ _
        rintro rfl
        exact hs ht
      refine ⟨Function.update σ s v, ?_, ?_⟩
      · rw [List.map_cons, Function.update_self, List.map_congr_left hold]
      · intro t ht
        rcases List.mem_cons.mp ht with rfl | ht
        · rw [Function.update_self]
          exact mem_split_values.mp hv
        · rw [hold t ht]
          exact hσ t ht

/-- An assignment of values is a combination. -/
lemma assignment_mem {l : List DimensionSpec} {σ : DimensionSpec → Value}
    (h : ∀ s ∈ l, σ s ∈ s.values) :
    l.map σ ∈ product (l.map DimensionSpec.split_values) := by
  rw [mem_product, List.forall₂_map_left_iff, List.forall₂_map_right_iff]
  exact List.forall₂_same.mpr fun s hs => mem_split_values.mpr (h s hs)

variable {config : Config}

/-- No dimension is given twice. -/
lemma dimensions_nodup (config : Config) : config.dimensions.Nodup := config.names_nodup.of_map _

/-- No free dimension is given twice. -/
lemma free_dims_nodup (d : String) : (config.free_dims d).Nodup :=
  (((dimensions_nodup config).filter _).filter _).filter _

/-- The values of the dimensions of references are their first ones. -/
lemma fixed_eq {l : List DimensionSpec} {fixed : List (String × Value)}
    (h : (l.mapM fun s => s.values.head?.map (s.name, ·)) = some fixed) :
    (∀ s ∈ l, ∃ v, s.values.head? = some v) ∧
      ∀ σ : DimensionSpec → Value, (∀ s ∈ l, s.values.head? = some (σ s)) → fixed = pairs σ l := by
  have hall := Runs.forall₂_of_mapM h
  clear h
  induction hall with
  | nil => exact ⟨fun _ h => (by cases h), fun _ _ => rfl⟩
  | @cons s b l fixed hb _ ih =>
    obtain ⟨v, hv, rfl⟩ := Option.map_eq_some_iff.mp hb
    refine ⟨List.forall_mem_cons.mpr ⟨⟨v, hv⟩, ih.1⟩, fun σ hσ => ?_⟩
    obtain ⟨hs, hl⟩ := List.forall_mem_cons.mp hσ
    rw [hv] at hs
    cases hs
    rw [ih.2 σ hl, pairs, pairs, List.map_cons]

/-- The names and their values, side by side. -/
lemma zip_eq_pairs (σ : DimensionSpec → Value) (l : List DimensionSpec) :
    (l.map DimensionSpec.name).zip (l.map σ) = pairs σ l := by
  rw [List.zip_map']
  rfl

/-- The same values make the same pairs. -/
lemma pairs_congr {σ τ : DimensionSpec → Value} {l : List DimensionSpec} (h : ∀ s ∈ l, σ s = τ s) :
    pairs σ l = pairs τ l := List.map_congr_left fun s hs => by rw [h s hs]

/-- An assignment of the free dimensions, with the first values of the others. -/
def complete (ρ : DimensionSpec → Value) (s : DimensionSpec) : Value :=
  if s.is_binding_only then s.values.head?.getD .empty else ρ s

/-- A free dimension keeps its value. -/
lemma complete_free (ρ : DimensionSpec → Value) {d : String} {s : DimensionSpec}
    (hs : s ∈ config.free_dims d) :
    complete ρ s = ρ s := if_neg (by simpa using (List.mem_filter.mp hs).2)

/-- The completed values are chosen. -/
lemma Config.Chosen.complete {d : String}
    (hheads : ∀ s ∈ config.binding_dims d, ∃ v, s.values.head? = some v) {ρ : DimensionSpec → Value}
    (h : ∀ s ∈ config.free_dims d, ρ s ∈ s.values) :
    config.Chosen d (complete ρ) where
  free s hs := by
    rw [complete_free ρ hs]
    exact h s hs
  fixed s hs := by
    obtain ⟨v, hv⟩ := hheads s hs
    rw [Matrix.complete, if_pos (List.mem_filter.mp hs).2, hv, Option.getD_some]

/-- The series of a driver are those of the chosen values. -/
lemma mem_driverSeries {d : String} {series : List Series} (h : config.driverSeries d = some series)
    {t : Series} :
    t ∈ series ↔ ∃ σ, config.Chosen d σ ∧ t = config.seriesOf d σ := by
  obtain ⟨fixed, hfixed, h⟩ := Option.bind_eq_some_iff.mp h
  obtain ⟨hheads, hpairs⟩ := fixed_eq hfixed
  unfold Config.seriesOf
  by_cases hfree : config.free_dims d = []
  · simp only [hfree, if_true] at h ⊢
    cases h
    rw [List.mem_singleton]
    constructor
    · rintro rfl
      have hchosen : config.Chosen d (complete fun _ => .empty) :=
        .complete hheads (by rw [hfree]; exact fun _ h => (by cases h))
      exact ⟨_, hchosen, by rw [hpairs _ hchosen.fixed]⟩
    · rintro ⟨σ, hσ, rfl⟩
      rw [hpairs σ hσ.fixed]
  · simp only [hfree, if_false] at h ⊢
    cases h
    rw [List.mem_map]
    constructor
    · rintro ⟨combo, hcombo, rfl⟩
      obtain ⟨σ, rfl, hσ⟩ := exists_assignment (free_dims_nodup d) hcombo
      have hchosen : config.Chosen d (complete σ) := .complete hheads hσ
      refine ⟨_, hchosen, ?_⟩
      rw [zip_eq_pairs, pairs_congr fun s hs => complete_free σ hs, hpairs _ hchosen.fixed]
    · rintro ⟨σ, hσ, rfl⟩
      exact ⟨_, assignment_mem hσ.free, by rw [zip_eq_pairs, hpairs σ hσ.fixed]⟩

/-- The series of several drivers. -/
lemma mem_flatten_series {paths : List String} {all : List (List Series)}
    (h : List.Forall₂ (fun d series => config.driverSeries d = some series) paths all)
    {t : Series} :
    t ∈ all.flatten ↔ ∃ d ∈ paths, ∃ σ, config.Chosen d σ ∧ t = config.seriesOf d σ := by
  induction h with
  | nil => simp
  | cons hd _ ih => rw [List.flatten_cons, List.mem_append, mem_driverSeries hd, ih,
      List.exists_mem_cons_iff]

/-- The series of a matrix are those of its drivers. -/
lemma generate_eq_some {series : List Series} (h : generate_series_combos config = some series) :
    ∃ all, series = all.flatten ∧
      List.Forall₂ (fun d series => config.driverSeries d = some series) config.drivers all := by
  obtain ⟨dim, hdim, hseries⟩ := Option.bind_eq_some_iff.mp h
  obtain ⟨paths, hpaths, hseries⟩ := Option.bind_eq_some_iff.mp hseries
  obtain ⟨all, hall, hseries⟩ := Option.bind_eq_some_iff.mp hseries
  cases hseries
  refine ⟨all, rfl, ?_⟩
  rw [Config.drivers, hdim, Option.map_some, Option.getD_some,
    Runs.filterMap_of_forall₂ (Runs.forall₂_of_mapM hpaths)]
  exact Runs.forall₂_of_mapM hall

/-- The series are the assignments of the drivers. -/
theorem mem_series {series : List Series} (h : generate_series_combos config = some series)
    {t : Series} :
    t ∈ series ↔ ∃ d ∈ config.drivers, ∃ σ, config.Chosen d σ ∧ t = config.seriesOf d σ := by
  obtain ⟨all, rfl, hall⟩ := generate_eq_some h
  exact mem_flatten_series hall

/-- A dimension that consists of references has a first one. -/
lemma exists_heads {series : List Series} (h : generate_series_combos config = some series)
    {d : String} (hd : d ∈ config.drivers) : ∀ s ∈ config.binding_dims d, ∃ v,
    s.values.head? = some v := by
  obtain ⟨all, -, hall⟩ := generate_eq_some h
  generalize config.drivers = drivers at hd hall
  induction hall with
  | nil => cases hd
  | cons hseries _ ih =>
    rcases List.mem_cons.mp hd with rfl | hd
    · obtain ⟨fixed, hfixed, -⟩ := Option.bind_eq_some_iff.mp hseries
      exact (fixed_eq hfixed).1
    · exact ih hd

/-! ## Labels as arrangements -/

/-- The dimensions that the labels of a driver show: all that apply to it, unless
none of them is free. -/
def Config.shown (config : Config) (d : String) : List DimensionSpec :=
  if config.free_dims d = [] then [] else config.free_dims d ++ config.binding_dims d

/-- The pieces of the values of some dimensions, in the order of a label. -/
def labelParts (σ : DimensionSpec → Value) (l : List DimensionSpec) : List Part :=
  (arrange DimensionSpec.name (fun s => !(σ s).isBinding) l).flatMap fun s => s.parts (σ s)

/-- A chosen value is one of its dimension. -/
lemma Config.Chosen.mem_values {d : String} {σ : DimensionSpec → Value} (h : config.Chosen d σ)
    {s : DimensionSpec} (hs : s ∈ config.shown d) : σ s ∈ s.values := by
  unfold shown at hs
  split at hs
  · cases hs
  · rcases List.mem_append.mp hs with hs | hs
    · exact h.free s hs
    · exact List.mem_of_head? (h.fixed s hs)

/-- A dimension of references has chosen a reference. -/
lemma Config.Chosen.isBinding {d : String} {σ : DimensionSpec → Value} (h : config.Chosen d σ)
    {s : DimensionSpec} (hs : s ∈ config.binding_dims d) : (σ s).isBinding :=
  List.all_eq_true.mp (List.mem_filter.mp hs).2 _ (List.mem_of_head? (h.fixed s hs))

/-- Sorting the values of dimensions sorts the dimensions. -/
lemma flatMap_sorted_pairs (f : String × Value → List Part) (σ : DimensionSpec → Value)
    (l : List DimensionSpec) :
    ((pairs σ l).insertionSort fun a b => a.1 ≤ b.1).flatMap f
      = (sortBy DimensionSpec.name l).flatMap fun s => f (s.name, σ s) := by
  rw [pairs, ← List.map_insertionSort (fun a b => a.name ≤ b.name) (fun a b => a.1 ≤ b.1) (fun s =>
    (s.name, σ s)) l
    fun _ _ _ _ => Iff.rfl, List.flatMap_map]
  rfl

/-- The pairs whose values meet a condition. -/
lemma filter_pairs (p : Value → Bool) (σ : DimensionSpec → Value) (l : List DimensionSpec) :
    ((pairs σ l).filter fun a => p a.2) = pairs σ (l.filter fun s => p (σ s)) := by
  rw [pairs, List.filter_map]
  rfl

/-- The pieces of sorted parameters and sorted bindings are those of the arranged dimensions. -/
lemma param_parts_eq (σ : DimensionSpec → Value) (l : List DimensionSpec) :
    param_parts (pairs σ (l.filter fun s => !(σ s).isBinding))
    (pairs σ (l.filter fun s => (σ s).isBinding))
      = labelParts σ l := by
  have hparam : ∀ s ∈ sortBy DimensionSpec.name (l.filter fun s => !(σ s).isBinding),
      paramParts (s.name, σ s) = s.parts (σ s) := by
    intro s hs
    have hconcrete := (List.mem_filter.mp (mem_sortBy.mp hs)).2
    rw [DimensionSpec.parts, if_neg (by simpa using hconcrete)]
  have hbinding : ∀ s ∈ sortBy DimensionSpec.name (l.filter fun s => (σ s).isBinding),
      bindingParts (s.name, σ s) = s.parts (σ s) := by
    intro s hs
    rw [DimensionSpec.parts, if_pos (List.mem_filter.mp (mem_sortBy.mp hs)).2]
  rw [param_parts, flatMap_sorted_pairs, flatMap_sorted_pairs, List.flatMap_congr hparam,
    List.flatMap_congr hbinding, labelParts, arrange, List.flatMap_append]
  simp only [Bool.not_not]

/-- The label of a series arranges the pieces of its values. -/
theorem label_eq {d : String} {σ : DimensionSpec → Value} (h : config.Chosen d σ) :
    (config.seriesOf d σ).label = renderLabel (stem d) (labelParts σ (config.shown d)) := by
  unfold Config.seriesOf Config.shown
  split
  · rfl
  · have hfixed : (config.binding_dims d).filter (fun s => (σ s).isBinding)
      = config.binding_dims d :=
      List.filter_eq_self.mpr fun s hs => h.isBinding hs
    have hnone : (config.binding_dims d).filter (fun s => !(σ s).isBinding) = [] := by
      refine List.filter_eq_nil_iff.mpr fun s hs => ?_
      rw [h.isBinding hs]
      exact Bool.false_ne_true
    rw [← param_parts_eq, List.filter_append, List.filter_append, hfixed, hnone,
      List.append_nil, comboSeries, filter_pairs (fun v => !v.isBinding),
        filter_pairs Value.isBinding, pairs, pairs, pairs, ← List.map_append]
    rfl

/-! ## Labels that can be read -/

/-- A piece that can be told apart from the others of a label, and its key from its text. -/
def Plain (part : Part) : Prop := ',' ∉ part.1.toList ∧ '=' ∉ part.1.toList ∧ ',' ∉ part.2.toList

/-- The characters of a label. -/
lemma toList_renderLabel (a : String) (parts : List Part) : (renderLabel a parts).toList =
    if parts = [] then a.toList
    else a.toList ++ '@' :: [','].intercalate (parts.map fun part => part.1.toList ++
      '=' :: part.2.toList) := by
  unfold renderLabel
  split
  · rfl
  · simp [String.toList_append, String.toList_intercalate, Function.comp_def]

/-- A plain piece can be read. -/
lemma renderPart_injective {p q : Part} (hp : Plain p) (hq : Plain q)
    (h : p.1.toList ++ '=' :: p.2.toList = q.1.toList ++ '=' :: q.2.toList) : p = q := by
  obtain ⟨hkey, htext⟩ := Text.cut_injective hp.2.1 hq.2.1 h
  exact Prod.ext (String.toList_inj.mp hkey) (String.toList_inj.mp htext)

/-- Plain pieces in a row can be read. -/
lemma renderParts_injective {ps qs : List Part} (hps : ∀ p ∈ ps, Plain p) (hqs : ∀ q ∈ qs, Plain q)
    (h : ps.map (fun part => part.1.toList ++ '=' :: part.2.toList)
      = qs.map fun part => part.1.toList ++ '=' :: part.2.toList) : ps = qs := by
  induction ps generalizing qs with
  | nil => exact (List.map_eq_nil_iff.mp h.symm).symm
  | cons p ps ih =>
    cases qs with
    | nil => cases h
    | cons q qs =>
      obtain ⟨hpart, hrest⟩ := List.cons.inj h
      obtain ⟨hp, hps⟩ := List.forall_mem_cons.mp hps
      obtain ⟨hq, hqs⟩ := List.forall_mem_cons.mp hqs
      rw [renderPart_injective hp hq hpart, ih hps hqs hrest]

/-- A plain piece has no comma. -/
lemma comma_not_mem {ps : List Part} (hps : ∀ p ∈ ps, Plain p) {text : List Char}
    (h : text ∈ ps.map fun part => part.1.toList ++ '=' :: part.2.toList) : ',' ∉ text := by
  obtain ⟨p, hp, rfl⟩ := List.mem_map.mp h
  obtain ⟨hkey, -, htext⟩ := hps p hp
  rw [List.mem_append, List.mem_cons]
  rintro (h | h | h)
  · exact hkey h
  · exact absurd h (by decide)
  · exact htext h

/-- A label of plain pieces determines its stem and its pieces. -/
theorem renderLabel_injective {a b : String} {ps qs : List Part} (ha : '@' ∉ a.toList)
    (hb : '@' ∉ b.toList) (hps : ∀ p ∈ ps, Plain p) (hqs : ∀ q ∈ qs, Plain q)
    (h : renderLabel a ps = renderLabel b qs) :
    a = b ∧ ps = qs := by
  have htext := congrArg String.toList h
  rw [toList_renderLabel, toList_renderLabel] at htext
  split at htext <;> split at htext
  · next hp hq => exact ⟨String.toList_inj.mp htext, hp.trans hq.symm⟩
  · exact absurd (htext ▸ List.mem_append_right _ List.mem_cons_self) ha
  · exact absurd (htext ▸ List.mem_append_right _ List.mem_cons_self) hb
  · next hp hq =>
    obtain ⟨hstem, hjoin⟩ := Text.cut_injective ha hb htext
    refine ⟨String.toList_inj.mp hstem, ?_⟩
    have htexts :=
      Text.join_injective (fun _ h => comma_not_mem hps h) (fun _ h => comma_not_mem hqs h)
      (by simpa using hp) (by simpa using hq) hjoin
    exact renderParts_injective hps hqs htexts

end RespBench.Matrix
