import Mathlib

/-!
# Resolving references in one pass

A list of entries, some of which refer to others by their key, resolved one after the other into a
dictionary. `isSome_pass_iff` says when the pass goes through, namely when each reference finds its
target at its turn (`Ready`), and `pass_means` that it then gives each entry what it means
(`Means`), which no order is needed for.
-/

namespace RespBench.Lib.Resolve

variable {α β : Type} {target : β → Option α}

/-- What a key means: its own value or that of its entry, or else what the key means
that its entry refers to. -/
inductive Means (target : β → Option α) (own : α → β → Prop) (entries : List (α × β)) : α → β → Prop
  | own {k : α} {v : β} : own k v → Means target own entries k v
  | value {k : α} {v : β} : (k, v) ∈ entries → target v = none → Means target own entries k v
  | entry {k t : α} {r v : β} : (k, r) ∈ entries → target r = some t →
    Means target own entries t v →
    Means target own entries k v

/-- A key means one value, if it has one value of its own or one entry. -/
lemma Means.unique {own : α → β → Prop} {entries : List (α × β)}
    (hown : ∀ k v w, own k v → own k w → v = w) (hnodup : (entries.map Prod.fst).Nodup)
    (hdisjoint : ∀ k v, own k v → k ∉ entries.map Prod.fst) {k : α} {v w : β}
    (hv : Means target own entries k v) (hw : Means target own entries k w) : v = w := by
  induction hv with
  | own hv =>
    cases hw with
    | own hw => exact hown _ _ _ hv hw
    | value hentry => exact absurd (List.mem_map_of_mem hentry) (hdisjoint _ _ hv)
    | entry hentry => exact absurd (List.mem_map_of_mem hentry) (hdisjoint _ _ hv)
  | value hentry htarget =>
    cases hw with
    | own hw => exact absurd (List.mem_map_of_mem hentry) (hdisjoint _ _ hw)
    | value hentry' =>
      cases List.inj_on_of_nodup_map hnodup hentry hentry' rfl
      rfl
    | entry hentry' htarget' =>
      cases List.inj_on_of_nodup_map hnodup hentry hentry' rfl
      cases htarget.symm.trans htarget'
  | entry hentry htarget _ ih =>
    cases hw with
    | own hw => exact absurd (List.mem_map_of_mem hentry) (hdisjoint _ _ hw)
    | value hentry' htarget' =>
      cases List.inj_on_of_nodup_map hnodup hentry hentry' rfl
      cases htarget.symm.trans htarget'
    | entry hentry' htarget' hw =>
      cases List.inj_on_of_nodup_map hnodup hentry hentry' rfl
      cases htarget.symm.trans htarget'
      exact ih hw

/-- Each reference finds its target among the known keys when its turn comes. -/
def Ready (target : β → Option α) : Set α → List (α × β) → Prop
  | _, [] => True
  | known, (k, v) :: rest => (∀ t, target v = some t → t ∈ known) ∧
      Ready target (insert k known) rest

/-- Entries in two parts are ready when the first are, and the second after them. -/
lemma ready_append {known : Set α} {es fs : List (α × β)} :
    Ready target known (es ++ fs) ↔
      Ready target known es ∧ Ready target (known ∪ {k | k ∈ es.map Prod.fst}) fs := by
  induction es generalizing known with
  | nil => simp [Ready]
  | cons e es ih =>
    have hset : insert e.1 known ∪ {k | k ∈ es.map Prod.fst} = known ∪
      {k | k ∈ (e :: es).map Prod.fst} := by
      ext k
      simp only [Set.mem_union, Set.mem_insert_iff, Set.mem_ofPred_eq, List.map_cons, List.mem_cons]
      tauto
    rw [List.cons_append, Ready, Ready, ih, hset, and_assoc]

/-- Entries that refer to what is known are ready. -/
lemma ready_of_known {known : Set α} {es : List (α × β)}
    (h : ∀ e ∈ es, ∀ t, target e.2 = some t → t ∈ known) :
    Ready target known es := by
  induction es generalizing known with
  | nil => trivial
  | cons e es ih =>
    obtain ⟨he, hes⟩ := List.forall_mem_cons.mp h
    exact ⟨he, ih fun f hf t ht => Or.inr (hes f hf t ht)⟩

variable [DecidableEq α]

/-- What a reference finds in a dictionary; any other value stands for itself. -/
def follow (target : β → Option α) (dict : α → Option β) (v : β) : Option β :=
  match target v with
  | some t => dict t
  | none => some v

/-- The pass: every entry is set to what it finds in the dictionary so far. -/
def pass (target : β → Option α) : List (α × β) → (α → Option β) → Option (α → Option β)
  | [], dict => some dict
  | (k, v) :: rest, dict => (follow target dict v).bind fun w =>
    pass target rest (Function.update dict k (some w))

omit [DecidableEq α] in
/-- A reference is followed when it is known. -/
lemma isSome_follow_iff {dict : α → Option β} {v : β} :
    (follow target dict v).isSome ↔ ∀ t, target v = some t → (dict t).isSome := by
  unfold follow
  cases target v <;> simp

/-- A pass ends when the entries are ready. -/
theorem isSome_pass_iff {entries : List (α × β)} {dict : α → Option β} :
    (pass target entries dict).isSome ↔ Ready target {k | (dict k).isSome} entries := by
  induction entries generalizing dict with
  | nil => simp [pass, Ready]
  | cons e entries ih =>
    obtain ⟨k, v⟩ := e
    have hknown (w : β) : {t | (Function.update dict k (some w) t).isSome}
      = insert k {t | (dict t).isSome} := by
      ext t
      by_cases h : t = k
      · subst h
        simp
      · simp [h]
    have hfound : (follow target dict v).isSome ↔ ∀ t, target v = some t → (dict t).isSome :=
      isSome_follow_iff
    rw [pass, Ready, ← hknown v]
    cases hv : follow target dict v with
    | none =>
      have hnot := hfound.not.mp (by simp [hv])
      exact ⟨fun h => (by cases h), fun h => absurd h.1 hnot⟩
    | some w =>
      have hall := hfound.mp (by simp [hv])
      rw [Option.bind_some, ih, hknown w, hknown v]
      exact ⟨fun h => ⟨hall, h⟩, And.right⟩

/-- Keys without an entry keep their values. -/
lemma pass_of_not_mem {entries : List (α × β)} {dict dict' : α → Option β}
    (h : pass target entries dict = some dict') {k : α} (hk : k ∉ entries.map Prod.fst) :
    dict' k = dict k := by
  induction entries generalizing dict with
  | nil =>
    cases h
    rfl
  | cons e entries ih =>
    obtain ⟨w, -, h⟩ := Option.bind_eq_some_iff.mp h
    rw [List.map_cons, List.mem_cons, not_or] at hk
    rw [ih h hk.2, Function.update_of_ne hk.1]

omit [DecidableEq α] in
/-- What following a reference gives is what the entry means. -/
lemma follow_means {own : α → β → Prop} {all : List (α × β)} {dict : α → Option β}
    (hdict : ∀ k v, dict k = some v → Means target own all k v) {e : α × β} (he : e ∈ all) {w : β}
    (hw : follow target dict e.2 = some w) : Means target own all e.1 w := by
  unfold follow at hw
  split at hw
  · next t ht => exact .entry he ht (hdict t w hw)
  · next ht =>
    cases hw
    exact .value he ht

/-- The pass gives each entry what its target means. -/
theorem pass_means {own : α → β → Prop} {all entries : List (α × β)} {dict dict' : α → Option β}
    (h : pass target entries dict = some dict') (hsub : entries ⊆ all)
    (hnodup : (entries.map Prod.fst).Nodup) (hdict : ∀ k v,
      dict k = some v → Means target own all k v) {k t : α} {r : β} (hentry : (k, r) ∈ entries)
    (htarget : target r = some t) : ∃ v, dict' k = some v ∧ Means target own all t v := by
  induction entries generalizing dict with
  | nil => cases hentry
  | cons e entries ih =>
    obtain ⟨w, hw, h⟩ := Option.bind_eq_some_iff.mp h
    obtain ⟨he, hnodup⟩ := List.nodup_cons.mp hnodup
    obtain ⟨hmem, hsub⟩ := List.cons_subset.mp hsub
    rcases List.mem_cons.mp hentry with rfl | hentry
    · rw [follow, htarget] at hw
      refine ⟨w, ?_, hdict t w hw⟩
      rw [pass_of_not_mem h he, Function.update_self]
    · refine ih h hsub hnodup (fun k v hk => ?_) hentry
      by_cases hkey : k = e.1
      · subst hkey
        rw [Function.update_self] at hk
        cases hk
        exact follow_means hdict hmem hw
      · rw [Function.update_of_ne hkey] at hk
        exact hdict k v hk

end RespBench.Lib.Resolve
