import RespBench.Matrix.Labels

/-!
# Labels that identify series

When the pieces of a label can be told apart and traced to their dimensions (`Readable`), the labels
identify the series exactly when no two values of a dimension read alike and no two drivers with one
stem show the same dimensions (`labelsIdentify_iff`).
-/

namespace RespBench.Matrix
open RespBench.Lib RespBench.Lib.Arrange

/-- Series with one label are the same. -/
def LabelsIdentify (series : List Series) : Prop :=
  ∀ s ∈ series, ∀ t ∈ series, s.label = t.label →
    s.driver_config = t.driver_config ∧ s.params = t.params ∧ s.bindings = t.bindings

/-- The keys that the values of a dimension put into a label. -/
def DimensionSpec.keys (s : DimensionSpec) : List String :=
  s.values.flatMap fun v => (s.parts v).map Prod.fst

/-- The pieces of labels can be told apart, and no two dimensions share a key. -/
structure Config.Readable (config : Config) : Prop where
  stems : ∀ d ∈ config.drivers, '@' ∉ (stem d).toList
  plain : ∀ s ∈ config.series_dims, ∀ v ∈ s.values, ∀ part ∈ s.parts v, Plain part
  owners : config.series_dims.Pairwise fun s t => ∀ k ∈ s.keys, k ∉ t.keys

/-- The values and the drivers of a matrix read differently. Where a value reads like a reference,
another dimension that always shows must stand between the two places. -/
structure Config.Distinguished (config : Config) : Prop where
  values : ∀ d ∈ config.drivers, ∀ s ∈ config.free_dims d, ∀ v ∈ s.values, ∀ w ∈ s.values,
    v.isBinding = false → w.isBinding = false → s.parts v = s.parts w → v = w
  references : ∀ d ∈ config.drivers, ∀ s ∈ config.free_dims d, ∀ v ∈ s.values, ∀ w ∈ s.values,
    v.isBinding = false → w.isBinding = true → s.parts v = s.parts w →
      (∃ r ∈ config.free_dims d, s.name < r.name ∧ ∀ u ∈ r.values,
        u.isBinding = false ∧ u ≠ .empty) ∨
      ∃ r ∈ config.binding_dims d, r.name < s.name
  drivers : ∀ d ∈ config.drivers, ∀ d' ∈ config.drivers, d ≠ d' → stem d = stem d' →
    ∃ s ∈ config.series_dims, (s ∈ config.shown d ↔ s ∉ config.shown d') ∧ .empty ∉ s.values

variable {config : Config} {d d' : String} {σ τ : DimensionSpec → Value}

/-! ## Dimensions -/

/-- Dimensions have distinct names. -/
lemma distinct_names (config : Config) : Distinct DimensionSpec.name config.dimensions :=
  fun _ hs _ ht => List.inj_on_of_nodup_map config.names_nodup hs ht

/-- Free dimensions are in the series. -/
lemma free_dims_subset : config.free_dims d ⊆ config.series_dims := fun _ hs =>
  (List.mem_filter.mp (List.mem_filter.mp hs).1).1

/-- Dimensions of references are in the series. -/
lemma binding_dims_subset : config.binding_dims d ⊆ config.series_dims := fun _ hs =>
  (List.mem_filter.mp (List.mem_filter.mp hs).1).1

/-- Dimensions that show are in the series. -/
lemma shown_subset : config.shown d ⊆ config.series_dims := by
  unfold Config.shown
  split
  · exact List.nil_subset _
  · exact List.append_subset.mpr ⟨free_dims_subset, binding_dims_subset⟩

/-- The dimensions of the series have distinct names. -/
lemma distinct_series_dims (config : Config) : Distinct DimensionSpec.name config.series_dims :=
  (distinct_names config).filter _

/-- The dimensions that show have distinct names. -/
lemma distinct_shown : Distinct DimensionSpec.name (config.shown d) :=
  (distinct_series_dims config).subset shown_subset

/-- A dimension that shows is free or made of references. -/
lemma free_or_binding {s : DimensionSpec} (hs : s ∈ config.shown d) :
    s ∈ config.free_dims d ∨ s ∈ config.binding_dims d := by
  unfold Config.shown at hs
  split at hs
  · cases hs
  · exact List.mem_append.mp hs

/-- A free dimension shows. -/
lemma mem_shown_of_free {s : DimensionSpec} (hs : s ∈ config.free_dims d) : s ∈ config.shown d := by
  unfold Config.shown
  rw [if_neg (List.ne_nil_of_mem hs)]
  exact List.mem_append_left _ hs

/-- A dimension of references shows beside a free one. -/
lemma mem_shown_of_binding {s : DimensionSpec} (hfree : config.free_dims d ≠ [])
    (hs : s ∈ config.binding_dims d) :
    s ∈ config.shown d := by
  unfold Config.shown
  rw [if_neg hfree]
  exact List.mem_append_right _ hs

/-- No dimension shows twice. -/
lemma shown_nodup : (config.shown d).Nodup := by
  have happlicable : (config.applicable_dims d).Nodup :=
    ((dimensions_nodup config).filter _).filter _
  unfold Config.shown
  split
  · exact List.nodup_nil
  · refine (happlicable.filter _).append (happlicable.filter _) fun s hfree hbinding => ?_
    have hs := (List.mem_filter.mp hfree).2
    rw [(List.mem_filter.mp hbinding).2] at hs
    cases hs

/-- Only the empty object leaves no piece. -/
lemma parts_eq_nil {s : DimensionSpec} {v : Value} : s.parts v = [] ↔ v = .empty := by
  cases v with
  | scalar v =>
    have hne : s.parts (.scalar v) ≠ [] := by
      unfold DimensionSpec.parts
      split <;> exact List.cons_ne_nil _ _
    exact iff_of_false hne nofun
  | object env =>
    obtain ⟨items, sorted⟩ := env
    rw [Value.empty, Value.object.injEq, Items.mk.injEq]
    exact List.map_eq_nil_iff

/-- A free dimension has a value that is no reference. -/
lemma exists_concrete {s : DimensionSpec} (hs : s ∈ config.free_dims d) :
    ∃ v ∈ s.values, v.isBinding = false := by
  have hfree := (List.mem_filter.mp hs).2
  simpa [DimensionSpec.is_binding_only] using hfree

/-! ## Reading a label -/

section Reading
variable {l T : List DimensionSpec}

/-- The keys of a value are keys of its dimension. -/
lemma key_mem {s : DimensionSpec} {v : Value} {part : Part} (hv : v ∈ s.values)
    (h : part ∈ s.parts v) :
    part.1 ∈ s.keys := List.mem_flatMap.mpr ⟨v, hv, List.mem_map_of_mem h⟩

/-- A key belongs to one dimension. -/
lemma Config.Readable.owner_unique (hr : config.Readable) {s t : DimensionSpec}
    (hs : s ∈ config.series_dims) (ht : t ∈ config.series_dims) {k : String} (hks : k ∈ s.keys)
    (hkt : k ∈ t.keys) : s = t := by
  by_contra hne
  have hsymm : Std.Symm fun s t : DimensionSpec => ∀ k ∈ s.keys, k ∉ t.keys :=
    ⟨fun _ _ h k hk hk' => h k hk' hk⟩
  exact hr.owners.forall hs ht hne k hks hkt

/-- The pieces of some dimensions can be picked out of a label. -/
lemma filter_labelParts (hr : config.Readable) (hl : l ⊆ config.series_dims)
    (hσ : ∀ s ∈ l, σ s ∈ s.values) (hT : T ⊆ config.series_dims) :
    (labelParts σ l).filter (fun part => part.1 ∈ T.flatMap DimensionSpec.keys)
      = labelParts σ (l.filter fun s => s ∈ T) := by
  have hone : ∀ s ∈ l, (s.parts (σ s)).filter (fun part => part.1 ∈ T.flatMap DimensionSpec.keys)
      = if s ∈ T then s.parts (σ s) else [] := by
    intro s hs
    split
    · next hmem =>
      refine List.filter_eq_self.mpr fun part hpart => ?_
      exact decide_eq_true (List.mem_flatMap.mpr ⟨s, hmem, key_mem (hσ s hs) hpart⟩)
    · next hnot =>
      refine List.filter_eq_nil_iff.mpr fun part hpart howned => hnot ?_
      obtain ⟨t, ht, hkey⟩ := List.mem_flatMap.mp (of_decide_eq_true howned)
      rw [hr.owner_unique (hl hs) (hT ht) (key_mem (hσ s hs) hpart) hkey]
      exact ht
  have harrange : ∀ s ∈ arrange DimensionSpec.name (fun s => !(σ s).isBinding) l, s ∈ l :=
    fun s hs => (arrange_perm _ _ _).mem_iff.mp hs
  have hshow : ∀ s ∈ arrange DimensionSpec.name (fun s => !(σ s).isBinding) l,
    decide (s ∈ T) = false →
      (if s ∈ T then s.parts (σ s) else []) = [] := fun s _ hs => if_neg (of_decide_eq_false hs)
  rw [labelParts, List.filter_flatMap, List.flatMap_congr fun s hs => hone s (harrange s hs),
    ← flatMap_filter _ hshow, filter_arrange ((distinct_series_dims config).subset hl), labelParts]
  refine List.flatMap_congr fun s hs => if_pos ?_
  have hmem := (arrange_perm _ _ _).mem_iff.mp hs
  exact of_decide_eq_true (List.mem_filter.mp hmem).2

/-- The pieces of a label with the keys of one dimension. -/
lemma filter_one (hr : config.Readable) (hσ : config.Chosen d σ) {t : DimensionSpec}
    (ht : t ∈ config.series_dims) :
    (labelParts σ (config.shown d)).filter (fun part => part.1 ∈ [t].flatMap DimensionSpec.keys)
      = if t ∈ config.shown d then t.parts (σ t) else [] := by
  rw [filter_labelParts hr shown_subset (fun s hs =>
    hσ.mem_values hs) (List.cons_subset.mpr ⟨ht, List.nil_subset _⟩)]
  have hone : (config.shown d).filter (fun s => s ∈ [t]) = if t ∈ config.shown d
    then [t] else [] := by
    simp only [List.mem_singleton]
    rw [List.filter_eq]
    split
    · next hmem => rw [List.count_eq_one_of_mem shown_nodup hmem, List.replicate_one]
    · next hnot => rw [List.count_eq_zero_of_not_mem hnot, List.replicate_zero]
  rw [hone]
  split
  · rw [labelParts, arrange_singleton, List.flatMap_singleton]
  · rfl

/-- The pieces of two dimensions stand in the order of a label. -/
lemma filter_two (hr : config.Readable) (hσ : config.Chosen d σ) {q r : DimensionSpec}
    (hq : q ∈ config.shown d) (hrmem : r ∈ config.shown d) (hqr : q.name < r.name) :
    (labelParts σ (config.shown d)).filter (fun part => part.1 ∈ [q, r].flatMap DimensionSpec.keys)
      = if !(σ r).isBinding && (σ q).isBinding then r.parts (σ r) ++ q.parts (σ q)
        else q.parts (σ q) ++ r.parts (σ r) := by
  have hpair : [q, r] ⊆ config.shown d :=
    List.cons_subset.mpr ⟨hq, List.cons_subset.mpr ⟨hrmem, List.nil_subset _⟩⟩
  have hperm : ((config.shown d).filter fun s => s ∈ [q, r]).Perm [q, r] := by
    refine (List.perm_ext_iff_of_nodup (shown_nodup.filter _) ?_).mpr fun s => ?_
    · exact List.nodup_cons.mpr ⟨by rw [List.mem_singleton]; rintro rfl; exact lt_irrefl _ hqr,
        List.nodup_singleton r⟩
    · rw [List.mem_filter, decide_eq_true_iff]
      exact and_iff_right_of_imp fun hs => hpair hs
  rw [filter_labelParts hr shown_subset (fun s hs =>
    hσ.mem_values hs) (List.Subset.trans hpair shown_subset), labelParts,
      arrange_congr (distinct_shown.filter _) hperm fun _ _ => rfl, arrange_pair hqr, Bool.not_not]
  split
  · rw [List.flatMap_cons, List.flatMap_singleton]
  · rw [List.flatMap_cons, List.flatMap_singleton]

end Reading

/-- Series with one label have drivers with one stem, and their labels the same pieces. -/
lemma same_pieces (hr : config.Readable) (hd : d ∈ config.drivers) (hd' : d' ∈ config.drivers)
    (hσ : config.Chosen d σ) (hτ : config.Chosen d' τ)
    (h : (config.seriesOf d σ).label = (config.seriesOf d' τ).label) :
    stem d = stem d' ∧ labelParts σ (config.shown d) = labelParts τ (config.shown d') := by
  have hplain : ∀ {d σ}, config.Chosen d σ → ∀ part ∈ labelParts σ (config.shown d),
    Plain part := by
    intro d σ hσ part hpart
    obtain ⟨s, hs, hpart⟩ := List.mem_flatMap.mp hpart
    have hshown := (arrange_perm _ _ _).mem_iff.mp hs
    exact hr.plain s (shown_subset hshown) _ (hσ.mem_values hshown) part hpart
  rw [label_eq hσ, label_eq hτ] at h
  exact renderLabel_injective (hr.stems d hd) (hr.stems d' hd') (hplain hσ) (hplain hτ) h

/-- The values of a dimension that is shown for both have the same pieces, and one that is not shown
for the other has none. -/
lemma same_parts (hr : config.Readable) (hσ : config.Chosen d σ) (hτ : config.Chosen d' τ)
    (h : labelParts σ (config.shown d) = labelParts τ (config.shown d')) {t : DimensionSpec}
    (ht : t ∈ config.shown d) : t.parts (σ t) = if t ∈ config.shown d'
      then t.parts (τ t) else [] := by
  have hone := filter_one hr hσ (shown_subset ht)
  rw [h, filter_one hr hτ (shown_subset ht), if_pos ht] at hone
  exact hone.symm

/-- Two dimensions that both show cannot change places. -/
lemma not_swapped (hr : config.Readable) (hσ : config.Chosen d σ) (hτ : config.Chosen d τ)
    (h : labelParts σ (config.shown d) = labelParts τ (config.shown d)) {q r : DimensionSpec}
    (hq : q ∈ config.shown d) (hrmem : r ∈ config.shown d) (hqr : q.name < r.name)
    (hqshow : σ q ≠ .empty) (hrshow : σ r ≠ .empty) :
    (!(σ r).isBinding && (σ q).isBinding) = (!(τ r).isBinding && (τ q).isBinding) := by
  have htwo := filter_two hr hσ hq hrmem hqr
  rw [h, filter_two hr hτ hq hrmem hqr] at htwo
  have hqparts := same_parts hr hσ hτ h hq
  have hrparts := same_parts hr hσ hτ h hrmem
  rw [if_pos hq] at hqparts
  rw [if_pos hrmem] at hrparts
  rw [← hqparts, ← hrparts] at htwo
  -- the first pieces of the two have different keys
  have hne : q.parts (σ q) ++ r.parts (σ r) ≠ r.parts (σ r) ++ q.parts (σ q) := by
    intro heq
    obtain ⟨p, ps, hp⟩ := List.exists_cons_of_ne_nil (mt parts_eq_nil.mp hqshow)
    obtain ⟨p', ps', hp'⟩ := List.exists_cons_of_ne_nil (mt parts_eq_nil.mp hrshow)
    rw [hp, hp', List.cons_append, List.cons_append] at heq
    have hkey : p.1 ∈ q.keys := key_mem (hσ.mem_values hq) (hp ▸ List.mem_cons_self)
    have hkey' : p'.1 ∈ r.keys := key_mem (hσ.mem_values hrmem) (hp' ▸ List.mem_cons_self)
    rw [← (List.cons.inj heq).1] at hkey'
    rw [hr.owner_unique (shown_subset hq) (shown_subset hrmem) hkey hkey'] at hqr
    exact lt_irrefl _ hqr
  cases hl : (!(σ r).isBinding && (σ q).isBinding)
    <;> cases hr : (!(τ r).isBinding && (τ q).isBinding) <;>
    simp only [hl, hr, if_true, if_false, Bool.false_eq_true] at htwo
  · rfl
  · exact absurd htwo.symm hne
  · exact absurd htwo hne
  · rfl

/-- A reference is a `$` and the text of its piece. -/
lemma text_of_isBinding {s : DimensionSpec} {v : Value} (h : v.isBinding) :
    ∃ text, v = .scalar (.str (String.ofList ('$' :: text))) ∧
    s.parts v = [(s.name, String.ofList text)] := by
  have hparts : s.parts v = bindingParts (s.name, v) := if_pos h
  cases v with
  | object env => cases h
  | scalar v =>
    cases v with
    | other text => cases h
    | str x =>
      have hhead : x.toList.head? = some '$' := of_decide_eq_true h
      obtain ⟨text, htext⟩ : ∃ text, x.toList = '$' :: text := by
        cases hx : x.toList with
        | nil => rw [hx] at hhead; cases hhead
        | cons c text =>
          rw [hx] at hhead
          cases hhead
          exact ⟨text, rfl⟩
      refine ⟨text, ?_, ?_⟩
      · rw [← htext, String.ofList_toList]
      · rw [hparts]
        change [(s.name, String.ofList (x.toList.drop 1))] = _
        rw [htext, List.drop_one, List.tail_cons]

/-- References with the same pieces are the same. -/
lemma binding_parts_injective {s : DimensionSpec} {v w : Value} (hv : v.isBinding)
    (hw : w.isBinding) (h : s.parts v = s.parts w) : v = w := by
  obtain ⟨a, rfl, ha⟩ := text_of_isBinding (s := s) hv
  obtain ⟨b, rfl, hb⟩ := text_of_isBinding (s := s) hw
  rw [ha, hb, List.singleton_inj, Prod.mk.injEq, String.ofList_inj] at h
  rw [h.2]

/-- In labels that agree, no value of one reads like a reference of the other. -/
lemma not_mixed (hr : config.Readable) (hdist : config.Distinguished) (hd : d ∈ config.drivers)
    (hσ : config.Chosen d σ) (hτ : config.Chosen d τ)
    (h : labelParts σ (config.shown d) = labelParts τ (config.shown d)) {s : DimensionSpec}
    (hs : s ∈ config.free_dims d) (hparts : s.parts (σ s) = s.parts (τ s))
    (hvalue : (σ s).isBinding = false) :
    (τ s).isBinding = false := by
  by_contra hreference
  have hbinding := Bool.eq_true_of_not_eq_false hreference
  have hshown := mem_shown_of_free hs
  have hshow : ∀ {v : Value}, v.isBinding → v ≠ .empty := by
    rintro _ h rfl
    cases h
  have hnonempty : σ s ≠ .empty := by
    rw [Ne, ← parts_eq_nil (s := s), hparts, parts_eq_nil]
    exact hshow hbinding
  rcases hdist.references d hd s hs _ (hσ.free s hs) _ (hτ.free s hs) hvalue hbinding hparts with
    ⟨r, hrfree, hsr, hvalues⟩ | ⟨r, hrbinding, hrs⟩
  · obtain ⟨hrvalue, hrshow⟩ := hvalues _ (hσ.free r hrfree)
    have hswap := not_swapped hr hσ hτ h hshown (mem_shown_of_free hrfree) hsr hnonempty hrshow
    rw [hrvalue, (hvalues _ (hτ.free r hrfree)).1, hvalue, hbinding] at hswap
    cases hswap
  · have hrshown := mem_shown_of_binding (List.ne_nil_of_mem hs) hrbinding
    have hswap :=
      not_swapped hr hσ hτ h hrshown hshown hrs (hshow (hσ.isBinding hrbinding)) hnonempty
    rw [hσ.isBinding hrbinding, hτ.isBinding hrbinding, hvalue, hbinding] at hswap
    cases hswap

/-- Labels with the same pieces have the same values. -/
lemma same_value (hr : config.Readable) (hdist : config.Distinguished) (hd : d ∈ config.drivers)
    (hσ : config.Chosen d σ) (hτ : config.Chosen d τ)
    (h : labelParts σ (config.shown d) = labelParts τ (config.shown d)) {s : DimensionSpec}
    (hs : s ∈ config.free_dims d) : σ s = τ s := by
  have hshown := mem_shown_of_free hs
  have hparts := same_parts hr hσ hτ h hshown
  rw [if_pos hshown] at hparts
  cases hvalue : (σ s).isBinding
  · have hvalue' := not_mixed hr hdist hd hσ hτ h hs hparts hvalue
    exact hdist.values d hd s hs _ (hσ.free s hs) _ (hτ.free s hs) hvalue hvalue' hparts
  · have hbinding : (τ s).isBinding := by
      by_contra hvalue'
      have := not_mixed hr hdist hd hτ hσ h.symm hs hparts.symm
        (Bool.eq_false_of_not_eq_true hvalue')
      rw [hvalue] at this
      cases this
    exact binding_parts_injective hvalue hbinding hparts

/-- Labels with the same pieces have the same driver. -/
lemma same_driver (hr : config.Readable) (hdist : config.Distinguished) (hd : d ∈ config.drivers)
    (hd' : d' ∈ config.drivers) (hσ : config.Chosen d σ) (hτ : config.Chosen d' τ)
    (hstem : stem d = stem d')
    (h : labelParts σ (config.shown d) = labelParts τ (config.shown d')) : d = d' := by
  by_contra hne
  obtain ⟨s, -, hone, hshow⟩ := hdist.drivers d hd d' hd' hne hstem
  by_cases hs : s ∈ config.shown d
  · have hparts := same_parts hr hσ hτ h hs
    rw [if_neg (hone.mp hs), parts_eq_nil] at hparts
    exact hshow (hparts ▸ hσ.mem_values hs)
  · have hs' : s ∈ config.shown d' := by
      by_contra hs'
      exact hs (hone.mpr hs')
    have hparts := same_parts hr hτ hσ h.symm hs'
    rw [if_neg hs, parts_eq_nil] at hparts
    exact hshow (hparts ▸ hτ.mem_values hs')

/-! ## Labels that agree -/

/-- Pieces depend on the values that show, and on which of them are references. -/
lemma labelParts_congr {l : List DimensionSpec} (hl : Distinct DimensionSpec.name l)
    (h : ∀ s ∈ l, (σ s).isBinding = (τ s).isBinding ∧ s.parts (σ s) = s.parts (τ s)) :
    labelParts σ l = labelParts τ l := by
  rw [labelParts, labelParts, arrange_congr hl (List.Perm.refl l) fun s hs => by rw [(h s hs).1]]
  exact List.flatMap_congr fun s hs => (h s ((arrange_perm _ _ _).mem_iff.mp hs)).2

/-- A free dimension of one series has its parameter in the other. -/
lemma value_of_params {s : DimensionSpec} (hs : s ∈ config.free_dims d)
    (hvalue : (σ s).isBinding = false)
    (h : (config.seriesOf d σ).params = (config.seriesOf d τ).params) : τ s = σ s := by
  have hfree := List.ne_nil_of_mem hs
  unfold Config.seriesOf at h
  rw [if_neg hfree, if_neg hfree] at h
  have hmem : (s.name, σ s) ∈ (pairs σ (config.free_dims d)).filter fun a => !a.2.isBinding := by
    refine List.mem_filter.mpr ⟨List.mem_map_of_mem hs, ?_⟩
    rw [hvalue]
    rfl
  rw [show (pairs σ (config.free_dims d)).filter (fun a => !a.2.isBinding)
    = (pairs τ (config.free_dims d)).filter (fun a => !a.2.isBinding) from h] at hmem
  obtain ⟨t, ht, heq⟩ := List.mem_map.mp (List.mem_filter.mp hmem).1
  obtain ⟨hname, hval⟩ := Prod.mk.inj heq
  rw [distinct_series_dims config t (free_dims_subset ht) s (free_dims_subset hs) hname] at hval
  exact hval

/-- Labels that identify the series leave no two assignments of a driver with the same pieces and
different parameters. -/
lemma identified {series : List Series} (h : generate_series_combos config = some series)
    (hidentify : LabelsIdentify series) (hd : d ∈ config.drivers) (hσ : config.Chosen d σ)
    (hτ : config.Chosen d τ)
    (hparts : labelParts σ (config.shown d) = labelParts τ (config.shown d)) {s : DimensionSpec}
    (hs : s ∈ config.free_dims d) (hvalue : (σ s).isBinding = false) : τ s = σ s := by
  have hlabel : (config.seriesOf d σ).label = (config.seriesOf d τ).label := by
    rw [label_eq hσ, label_eq hτ, hparts]
  have hsame := hidentify _ ((mem_series h).mpr ⟨d, hd, σ, hσ, rfl⟩)
    _ ((mem_series h).mpr ⟨d, hd, τ, hτ, rfl⟩) hlabel
  exact value_of_params hs hvalue hsame.2.1

/-- A value of a free dimension that is no reference. -/
def DimensionSpec.concrete (s : DimensionSpec) : Value :=
  (s.values.find? fun v => !v.isBinding).getD .empty

/-- A free dimension has a concrete value. -/
lemma concrete_spec {s : DimensionSpec} (hs : s ∈ config.free_dims d) :
    s.concrete ∈ s.values ∧ s.concrete.isBinding = false := by
  obtain ⟨v, hv, hvalue⟩ := exists_concrete hs
  cases hfind : s.values.find? fun v => !v.isBinding with
  | none =>
    have hnone := List.find?_eq_none.mp hfind v hv
    rw [hvalue] at hnone
    exact absurd rfl hnone
  | some w =>
    rw [DimensionSpec.concrete, hfind, Option.getD_some]
    exact ⟨List.mem_of_find?_eq_some hfind, by simpa using List.find?_some hfind⟩

section Identified
variable {series : List Series}

/-- The values of a series may be changed one by one. -/
lemma chosen_update (h : generate_series_combos config = some series) (hd : d ∈ config.drivers)
    {ρ : DimensionSpec → Value} (hρ : ∀ t ∈ config.free_dims d, ρ t ∈ t.values)
    {s : DimensionSpec} {u : Value} (hu : u ∈ s.values) :
    config.Chosen d (complete (Function.update ρ s u)) := by
  refine .complete (exists_heads h hd) fun t ht => ?_
  by_cases hts : t = s
  · rw [hts, Function.update_self]
    exact hu
  · rw [Function.update_of_ne hts]
    exact hρ t ht

/-- The changed value is that of its dimension. -/
lemma complete_update_self (ρ : DimensionSpec → Value) {s : DimensionSpec}
    (hs : s ∈ config.free_dims d) (u : Value) :
    complete (Function.update ρ s u) s = u := by
  rw [complete_free _ hs, Function.update_self]

/-- The other values stay. -/
lemma complete_update_of_ne (ρ : DimensionSpec → Value) {s t : DimensionSpec}
    (hts : t ≠ s) (u : Value) :
    complete (Function.update ρ s u) t = complete ρ t := by
  rw [complete, complete, Function.update_of_ne hts]

/-- When labels identify the series, values that are no references read differently. -/
lemma distinguished_values (h : generate_series_combos config = some series)
    (hidentify : LabelsIdentify series) (hd : d ∈ config.drivers) {s : DimensionSpec}
    (hs : s ∈ config.free_dims d) {v w : Value} (hv : v ∈ s.values) (hw : w ∈ s.values)
    (hvalue : v.isBinding = false) (hvalue' : w.isBinding = false)
    (hparts : s.parts v = s.parts w) : v = w := by
  have hconcrete : ∀ t ∈ config.free_dims d, t.concrete ∈ t.values :=
    fun t ht => (concrete_spec ht).1
  have hself := complete_update_self DimensionSpec.concrete hs
  have hsame : labelParts (complete (Function.update DimensionSpec.concrete s v)) (config.shown d)
      = labelParts (complete (Function.update DimensionSpec.concrete s w)) (config.shown d) := by
    refine labelParts_congr distinct_shown fun t ht => ?_
    by_cases hts : t = s
    · rw [hts, hself, hself]
      exact ⟨hvalue.trans hvalue'.symm, hparts⟩
    · rw [complete_update_of_ne _ hts, complete_update_of_ne _ hts]
      exact ⟨rfl, rfl⟩
  have hequal := identified h hidentify hd (chosen_update h hd hconcrete hv)
    (chosen_update h hd hconcrete hw) hsame hs
    (by rw [hself]; exact hvalue)
  rw [hself, hself] at hequal
  exact hequal.symm

/-- When no reference stands before a dimension, and only references or nothing behind it, the
pieces are in the order of the names. -/
lemma labelParts_sorted (hσ : config.Chosen d σ) {s : DimensionSpec}
    (hbefore : ∀ t ∈ config.free_dims d, t.name < s.name → (σ t).isBinding = false)
    (hbehind : ∀ t ∈ config.free_dims d, s.name < t.name → (σ t).isBinding = false → σ t = .empty)
    (hearly : ∀ t ∈ config.binding_dims d, ¬ t.name < s.name) :
    labelParts σ (config.shown d)
      = (sortBy DimensionSpec.name (config.shown d)).flatMap fun t => t.parts (σ t) := by
  refine flatMap_arrange distinct_shown _ fun a ha b hb hab hback hfront => ?_
  have hreference : (σ a).isBinding := by simpa using hback
  have hvalue : (σ b).isBinding = false := by simpa using hfront
  have hbfree : b ∈ config.free_dims d := by
    refine (free_or_binding hb).resolve_right fun hb => ?_
    rw [hσ.isBinding hb] at hvalue
    cases hvalue
  rcases lt_or_ge s.name b.name with hsb | hbs
  · exact parts_eq_nil.mpr (hbehind b hbfree hsb hvalue)
  · have has := hab.trans_le hbs
    rcases free_or_binding ha with ha | ha
    · rw [hbefore a ha has] at hreference
      cases hreference
    · exact absurd has (hearly a ha)

/-- When labels identify the series, a value reads like a reference only with another between. -/
lemma distinguished_references (h : generate_series_combos config = some series)
    (hidentify : LabelsIdentify series) (hd : d ∈ config.drivers) {s : DimensionSpec}
    (hs : s ∈ config.free_dims d) {v w : Value} (hv : v ∈ s.values) (hw : w ∈ s.values)
    (hvalue : v.isBinding = false) (hbinding : w.isBinding = true)
    (hparts : s.parts v = s.parts w) :
    (∃ r ∈ config.free_dims d, s.name < r.name ∧ ∀ u ∈ r.values, u.isBinding = false ∧ u ≠ .empty) ∨
      ∃ r ∈ config.binding_dims d, r.name < s.name := by
  by_contra hnone
  obtain ⟨hlate, hearly⟩ := not_or.mp hnone
  have hexists : ∀ r ∈ config.free_dims d, s.name < r.name →
      ∃ u ∈ r.values, u.isBinding = false → u = .empty := by
    intro r hr hsr
    by_contra hall
    refine hlate ⟨r, hr, hsr, fun u hu => ?_⟩
    by_contra hu'
    refine hall ⟨u, hu, fun hvalue => ?_⟩
    by_contra hempty
    exact hu' ⟨hvalue, hempty⟩
  choose! late hlate hempty using hexists
  -- before the dimension no references, behind it only references or nothing
  obtain ⟨ρ, hρ⟩ : ∃ ρ : DimensionSpec → Value, ∀ t,
    ρ t = if s.name < t.name then late t else t.concrete :=
    ⟨_, fun _ => rfl⟩
  have hmem : ∀ t ∈ config.free_dims d, ρ t ∈ t.values := by
    intro t ht
    rw [hρ]
    split
    · next hst => exact hlate t ht hst
    · exact (concrete_spec ht).1
  have hsorted : ∀ u ∈ s.values, labelParts (complete (Function.update ρ s u)) (config.shown d)
      = (sortBy DimensionSpec.name (config.shown d)).flatMap
          fun t => t.parts (complete (Function.update ρ s u) t) := by
    intro u hu
    refine labelParts_sorted (s := s) (chosen_update h hd hmem hu) ?_ ?_ fun t ht hts =>
      hearly ⟨t, ht, hts⟩
    · intro t ht hts
      rw [complete_update_of_ne _ (by rintro rfl; exact lt_irrefl _ hts), complete_free _ ht, hρ,
        if_neg hts.not_gt]
      exact (concrete_spec ht).2
    · intro t ht hst
      rw [complete_update_of_ne _ (by rintro rfl; exact lt_irrefl _ hst), complete_free _ ht,
        hρ, if_pos hst]
      exact hempty t ht hst
  have hsame : labelParts (complete (Function.update ρ s v)) (config.shown d)
      = labelParts (complete (Function.update ρ s w)) (config.shown d) := by
    rw [hsorted v hv, hsorted w hw]
    refine List.flatMap_congr fun t _ => ?_
    by_cases hts : t = s
    · rw [hts, complete_update_self ρ hs, complete_update_self ρ hs, hparts]
    · rw [complete_update_of_ne _ hts, complete_update_of_ne _ hts]
  have hequal :=
    identified h hidentify hd (chosen_update h hd hmem hv) (chosen_update h hd hmem hw) hsame hs
    (by rw [complete_update_self ρ hs]; exact hvalue)
  rw [complete_update_self ρ hs, complete_update_self ρ hs] at hequal
  rw [hequal, hvalue] at hbinding
  cases hbinding

/-- Dimensions whose value is empty may be left out of a label. -/
lemma labelParts_filter {l : List DimensionSpec} (hl : Distinct DimensionSpec.name l)
    {p : DimensionSpec → Bool} (h : ∀ s ∈ l, p s = false → σ s = .empty) :
    labelParts σ (l.filter p) = labelParts σ l := by
  rw [labelParts, ← filter_arrange hl, labelParts]
  exact flatMap_filter _ fun s hs hp =>
    parts_eq_nil.mpr (h s ((arrange_perm _ _ _).mem_iff.mp hs) hp)

/-- A dimension with an empty value does not consist of references. -/
lemma complete_of_empty {ρ : DimensionSpec → Value} {s : DimensionSpec} (h : .empty ∈ s.values) :
    complete ρ s = ρ s := by
  refine if_neg fun hbinding => ?_
  have := List.all_eq_true.mp hbinding _ h
  cases this

/-- When labels identify the series, drivers with one stem show different dimensions. -/
lemma distinguished_drivers (h : generate_series_combos config = some series)
    (hidentify : LabelsIdentify series) (hd : d ∈ config.drivers) (hd' : d' ∈ config.drivers)
    (hne : d ≠ d') (hstem : stem d = stem d') :
    ∃ s ∈ config.series_dims, (s ∈ config.shown d ↔ s ∉ config.shown d') ∧ .empty ∉ s.values := by
  by_contra hnone
  have hempty : ∀ s ∈ config.series_dims, (s ∈ config.shown d ↔ s ∉ config.shown d') →
    .empty ∈ s.values := by
    intro s hs hone
    by_contra hnot
    exact hnone ⟨s, hs, hone, hnot⟩
  -- what only one of them shows is empty
  obtain ⟨ρ, hρ⟩ : ∃ ρ : DimensionSpec → Value, ∀ t, ρ t =
      if t ∈ config.shown d ↔ t ∉ config.shown d' then .empty else t.concrete := ⟨_, fun _ => rfl⟩
  have hchosen : ∀ e ∈ config.drivers, config.Chosen e (complete ρ) := by
    intro e he
    refine .complete (exists_heads h he) fun t ht => ?_
    rw [hρ]
    split
    · next hone => exact hempty t (free_dims_subset ht) hone
    · exact (concrete_spec ht).1
  have hhidden : ∀ t ∈ config.series_dims, (t ∈ config.shown d ↔ t ∉ config.shown d') →
    complete ρ t = .empty := by
    intro t ht hone
    rw [complete_of_empty (hempty t ht hone), hρ, if_pos hone]
  have hsame : labelParts (complete ρ) (config.shown d)
    = labelParts (complete ρ) (config.shown d') := by
    rw [← labelParts_filter (p := fun s => s ∈ config.shown d') distinct_shown fun s hs hp =>
      hhidden s
        (shown_subset hs) (iff_of_true hs (of_decide_eq_false hp)),
      ← labelParts_filter (l := config.shown d') (p := fun s => s ∈ config.shown d) distinct_shown
        fun s hs hp =>
        hhidden s (shown_subset hs) (iff_of_false (of_decide_eq_false hp) (not_not_intro hs))]
    have hperm : ((config.shown d).filter fun s => s ∈ config.shown d').Perm
        ((config.shown d').filter fun s => s ∈ config.shown d) := by
      refine (List.perm_ext_iff_of_nodup (shown_nodup.filter _) (shown_nodup.filter _)).mpr fun s =>
        ?_
      rw [List.mem_filter, List.mem_filter, decide_eq_true_iff, decide_eq_true_iff]
      exact and_comm
    rw [labelParts, labelParts, arrange_congr (distinct_shown.filter _) hperm fun _ _ => rfl]
  have hlabel : (config.seriesOf d (complete ρ)).label
    = (config.seriesOf d' (complete ρ)).label := by
    rw [label_eq (hchosen d hd), label_eq (hchosen d' hd'), hsame, hstem]
  have hdriver := (hidentify _ ((mem_series h).mpr ⟨d, hd, _, hchosen d hd, rfl⟩) _
    ((mem_series h).mpr ⟨d', hd', _, hchosen d' hd', rfl⟩) hlabel).1
  rw [seriesOf_driver_config, seriesOf_driver_config] at hdriver
  exact hne hdriver

end Identified

/-- Labels that can be read identify the series of a matrix whose values and drivers read
differently. -/
theorem labelsIdentify_of_distinguished {config : Config} {series : List Series}
    (h : generate_series_combos config = some series) (hreadable : config.Readable)
    (hdist : config.Distinguished) :
    LabelsIdentify series := by
  intro s hs t ht hlabel
  obtain ⟨d, hd, σ, hσ, rfl⟩ := (mem_series h).mp hs
  obtain ⟨d', hd', τ, hτ, rfl⟩ := (mem_series h).mp ht
  obtain ⟨hstem, hparts⟩ := same_pieces hreadable hd hd' hσ hτ hlabel
  obtain rfl := same_driver hreadable hdist hd hd' hσ hτ hstem hparts
  have hfree : pairs σ (config.free_dims d) = pairs τ (config.free_dims d) :=
    pairs_congr fun s hs => same_value hreadable hdist hd hσ hτ hparts hs
  have hfixed : pairs σ (config.binding_dims d) = pairs τ (config.binding_dims d) :=
    pairs_congr fun s hs => Option.some.inj ((hσ.fixed s hs).symm.trans (hτ.fixed s hs))
  have hseries : config.seriesOf d σ = config.seriesOf d τ := by
    rw [Config.seriesOf, Config.seriesOf, hfree, hfixed]
  rw [hseries]
  exact ⟨rfl, rfl, rfl⟩

/-- When labels can be read, they identify the series of a matrix exactly when its values and its
drivers read differently. -/
theorem labelsIdentify_iff (config : Config) (series : List Series)
    (h : generate_series_combos config = some series) (hreadable : config.Readable) :
    LabelsIdentify series ↔ config.Distinguished := by
  constructor
  · intro hidentify
    exact ⟨fun d hd s hs v hv w hw => distinguished_values h hidentify hd hs hv hw,
      fun d hd s hs v hv w hw => distinguished_references h hidentify hd hs hv hw,
      fun d hd d' hd' => distinguished_drivers h hidentify hd hd'⟩
  · exact labelsIdentify_of_distinguished h hreadable

/-- The sweep of `configs/matrices/lettuce-pool-sweep.json`. -/
def lettucePoolSweep : RawMatrix where
  x_axis := some "connections"
  workload_template :=
    some (.scalar (.str "configs/workloads/reference/basic-standalone-single-client-1M-reqs.json"))
  dimensions :=
    [("connections", .array [.scalar (.other "1"), .scalar (.other "4"), .scalar (.other "8")]),
      ("driver_config",
        .array [.scalar (.str "configs/drivers/high-throughput/spring-data-valkey-lettuce.json")]),
      ("pool_size",
        .array [.scalar (.other "8"), .scalar (.other "32"), .scalar (.str "$connections")]),
      ("use_pooling", .single (.scalar (.other "True")))]
  names_nodup := by decide

/-- The labels of the sweep identify its series. -/
theorem lettucePoolSweep_identify : ∃ series,
    generate_series_combos lettucePoolSweep.config = some series ∧ series.length = 3 ∧
    LabelsIdentify series := by
  refine ⟨_, rfl, rfl, (labelsIdentify_iff lettucePoolSweep.config _ rfl ?_).mpr ?_⟩
  · exact ⟨by decide, by unfold Plain; decide, by decide⟩
  · exact ⟨by decide, by decide, by decide⟩

/-- Two drivers of different directories with one file name. -/
def sameStem : RawMatrix where
  x_axis := none
  workload_template := some (.scalar (.str "configs/workloads/example-workload.json"))
  dimensions :=
    [("connections", .array [.scalar (.other "1"), .scalar (.other "64")]),
      ("driver_config", .array [.scalar (.str "configs/drivers/default/jedis.json"),
        .scalar (.str "configs/drivers/high-throughput/jedis.json")])]
  names_nodup := by decide

/-- The series of a driver and of its variant for high throughput have one label. -/
theorem sameStem_not_identify : ∃ config series,
    parse_matrix_config (fun _ => true) sameStem = some config ∧
    generate_series_combos config = some series ∧
      ¬ LabelsIdentify series := by
  refine ⟨sameStem.config, _, rfl, rfl, fun hidentify => ?_⟩
  have hdriver :=
    (hidentify _ List.mem_cons_self _ (List.mem_cons_of_mem _ List.mem_cons_self) (by decide)).1
  exact absurd hdriver (by decide)

end RespBench.Matrix
