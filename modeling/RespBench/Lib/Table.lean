import Mathlib

/-!
# Tables with default entries

Finite maps as lists of keys and entries in the order of insertion, as in languages whose maps keep
it. A key without an entry reads as a default, and changing it creates the entry. `get_modify` and
`mem_keys_modify` say everything about a change, `sum_modify` what it does to a sum over the
entries; `merge_modify` is about tables that are merged, and `foldl_max_le_iff` for the largest key.
-/

namespace RespBench.Lib.Table

variable {α β : Type*} [DecidableEq α]

/-- The entry of a key. -/
def get (default : β) (key : α) : List (α × β) → β
  | [] => default
  | (k, v) :: rest => if k = key then v else get default key rest

/-- Changes the entry of a key. -/
def modify (default : β) (key : α) (f : β → β) : List (α × β) → List (α × β)
  | [] => [(key, f default)]
  | (k, v) :: rest => if k = key then (k, f v) :: rest else (k, v) :: modify default key f rest

/-- The keys that have an entry. -/
def keys (table : List (α × β)) : List α := table.map Prod.fst

/-- A change is seen at its key only, whatever the default of the other keys. -/
lemma get_modify (default default' : β) (key k : α) (f : β → β) (table : List (α × β)) :
    get default k (modify default' key f table)
      = if k = key then f (get default' key table) else get default k table := by
  induction table with
  | nil =>
    simp only [modify, get]
    by_cases h : k = key
    · rw [if_pos h.symm, if_pos h]
    · rw [if_neg (Ne.symm h), if_neg h]
  | cons entry rest ih =>
    obtain ⟨k', v⟩ := entry
    by_cases h' : k' = key
    · subst h'
      simp only [modify, get, if_true]
      by_cases h : k = k'
      · rw [if_pos h.symm, if_pos h]
      · rw [if_neg (Ne.symm h), if_neg h, if_neg (Ne.symm h)]
    · simp only [modify, if_neg h', get, ih]
      by_cases h : k = key
      · subst h
        simp only [if_neg h', if_true]
      · simp only [if_neg h]

/-- A change adds its key to the keys. -/
lemma mem_keys_modify {default : β} {key k : α} {f : β → β} {table : List (α × β)} :
    k ∈ keys (modify default key f table) ↔ k = key ∨ k ∈ keys table := by
  induction table with
  | nil => simp [modify, keys]
  | cons entry rest ih =>
    obtain ⟨k', v⟩ := entry
    unfold keys at ih
    by_cases h' : k' = key
    · subst h'
      simp [modify, keys]
    · simp only [modify, if_neg h', keys, List.map_cons, List.mem_cons, ih]
      tauto

/-- A change by a function is an assignment of what the function makes of the entry. -/
lemma modify_const (default : β) (key : α) (f : β → β) (table : List (α × β)) :
    modify default key (fun _ => f (get default key table)) table = modify default key f table := by
  induction table with
  | nil => rfl
  | cons entry rest ih =>
    obtain ⟨k, v⟩ := entry
    by_cases h : k = key
    · simp only [modify, get, if_pos h]
    · simp only [modify, get, if_neg h, ih]

/-- A key without an entry reads as the default. -/
lemma get_of_notMem {default : β} {k : α} {table : List (α × β)} (h : k ∉ keys table) :
    get default k table = default := by
  induction table with
  | nil => rfl
  | cons entry rest ih =>
    obtain ⟨k', v⟩ := entry
    simp only [keys, List.map_cons, List.mem_cons, not_or] at h
    rw [get, if_neg (Ne.symm h.1), ih h.2]

/-- The changed key is the only one that can be new. -/
lemma keys_modify {default : β} {key : α} {f : β → β} {table : List (α × β)} :
    keys (modify default key f table) = if key ∈ keys table then keys table
      else keys table ++ [key] := by
  induction table with
  | nil => rfl
  | cons entry rest ih =>
    obtain ⟨k', v⟩ := entry
    unfold keys at ih
    by_cases h' : k' = key
    · subst h'
      simp [modify, keys]
    · simp only [modify, if_neg h', keys, List.map_cons, ih, List.mem_cons, Ne.symm h', false_or]
      split <;> rfl

/-- Keys stay distinct. -/
lemma nodup_modify {default : β} {key : α} {f : β → β} {table : List (α × β)}
    (h : (keys table).Nodup) :
    (keys (modify default key f table)).Nodup := by
  rw [keys_modify]
  split
  · exact h
  next hnew => exact List.nodup_append.mpr ⟨h, List.nodup_singleton _, fun a ha b hb => by
      rw [List.mem_singleton.mp hb]
      exact fun heq => hnew (heq ▸ ha)⟩

/-- When the keys are distinct an entry is what its key reads as. -/
lemma get_of_mem (default : β) {entry : α × β} {table : List (α × β)} (hkeys : (keys table).Nodup)
    (h : entry ∈ table) : get default entry.1 table = entry.2 := by
  induction table with
  | nil => cases h
  | cons first rest ih =>
    obtain ⟨k', v⟩ := first
    obtain ⟨hnot, hrest⟩ := List.nodup_cons.mp hkeys
    rcases List.mem_cons.mp h with rfl | hmem
    · rw [get, if_pos rfl]
    · have hkey : entry.1 ∈ keys rest := List.mem_map_of_mem hmem
      have hne : k' ≠ entry.1 := fun heq => hnot (heq ▸ hkey)
      rw [get, if_neg hne, ih hrest hmem]

/-- A change that adds to an entry adds as much to the sum over all entries. -/
lemma sum_modify {M : Type*} [AddCommMonoid M] {f : β → M} {d : M} {default : β}
    {key : α} {g : β → β} (hg : ∀ v, f (g v) = f v + d) (hdefault : f default = 0)
    {table : List (α × β)} :
    ((modify default key g table).map fun e => f e.2).sum = (table.map fun e => f e.2).sum + d := by
  induction table with
  | nil => simp [modify, hg, hdefault]
  | cons entry rest ih =>
    obtain ⟨k', v⟩ := entry
    rw [modify]
    split
    · rw [List.map_cons, List.map_cons, List.sum_cons, List.sum_cons, hg, add_right_comm]
    · rw [List.map_cons, List.map_cons, List.sum_cons, List.sum_cons, ih, add_assoc]

/-- What a change preserves, and what holds of the default, holds of all entries after it. -/
lemma forall_modify {P : β → Prop} {default : β} {key : α} {g : β → β} (hg : ∀ v, P v → P (g v))
    (hdefault : P default) {table : List (α × β)} (h : ∀ e ∈ table, P e.2) :
    ∀ e ∈ modify default key g table, P e.2 := by
  induction table with
  | nil =>
    intro e he
    rw [List.mem_singleton.mp he]
    exact hg _ hdefault
  | cons entry rest ih =>
    obtain ⟨k', v⟩ := entry
    obtain ⟨hv, hrest⟩ := List.forall_mem_cons.mp h
    rw [modify]
    split
    · exact List.forall_mem_cons.mpr ⟨hg _ hv, hrest⟩
    · exact List.forall_mem_cons.mpr ⟨hv, ih hrest⟩

/-- An entry after a change is one from before or the changed one. -/
lemma mem_modify {default : β} {key : α} {f : β → β} {entry : α × β} {table : List (α × β)}
    (h : entry ∈ modify default key f table) :
    entry ∈ table ∨ ∃ v, entry = (key, f v) ∧ (v = default ∨ (key, v) ∈ table) := by
  induction table with
  | nil => exact .inr ⟨default, List.mem_singleton.mp h, .inl rfl⟩
  | cons first rest ih =>
    obtain ⟨k, v⟩ := first
    rw [modify] at h
    split at h
    next hkey =>
      subst hkey
      rcases List.mem_cons.mp h with rfl | hrest
      · exact .inr ⟨v, rfl, .inr List.mem_cons_self⟩
      · exact .inl (List.mem_cons_of_mem _ hrest)
    next =>
      rcases List.mem_cons.mp h with rfl | hrest
      · exact .inl List.mem_cons_self
      · rcases ih hrest with hold | ⟨v, hentry, hold⟩
        · exact .inl (List.mem_cons_of_mem _ hold)
        · exact .inr ⟨v, hentry, hold.imp_right (List.mem_cons_of_mem _)⟩

/-! ## Merging -/

/-- Two changes of one entry are one. -/
lemma modify_modify (default : β) (key : α) (f g : β → β) (table : List (α × β)) :
    modify default key f (modify default key g table) = modify default key (f ∘ g) table := by
  induction table with
  | nil => simp [modify]
  | cons entry rest ih =>
    obtain ⟨k, v⟩ := entry
    by_cases h : k = key
    · simp [modify, h]
    · simp [modify, h, ih]

/-- Changes of different keys commute, when one of the keys has an entry already. -/
lemma modify_comm (default : β) {key key' : α} (hne : key ≠ key') (f g : β → β)
    {table : List (α × β)} (hkey : key ∈ keys table) :
    modify default key f (modify default key' g table)
      = modify default key' g (modify default key f table) := by
  induction table with
  | nil => cases hkey
  | cons entry rest ih =>
    obtain ⟨k, v⟩ := entry
    by_cases h : k = key
    · subst h
      simp [modify, hne]
    · have hrest : key ∈ keys rest := (List.mem_cons.mp hkey).resolve_left (Ne.symm h)
      by_cases h' : k = key'
      · simp [modify, h', Ne.symm hne]
      · simp [modify, h, h', ih hrest]

variable {γ : Type*}

/-- The entries of another table are merged into a table, one after the other. -/
def merge (default : β) (into : γ → β → β) (table : List (α × β)) (other : List (α × γ)) :
    List (α × β) :=
  other.foldl (fun table entry => modify default entry.1 (into entry.2) table) table

/-- A change of an entry that the other table does not have may come before or after merging. -/
lemma merge_modify_of_notMem {default : β} {into : γ → β → β} {key : α} {f : β → β}
    {other : List (α × γ)} (hother : key ∉ keys other) {table : List (α × β)}
    (hkey : key ∈ keys table) :
    merge default into (modify default key f table) other
      = modify default key f (merge default into table other) := by
  induction other generalizing table with
  | nil => rfl
  | cons entry rest ih =>
    simp only [keys, List.map_cons, List.mem_cons, not_or] at hother
    rw [merge, List.foldl_cons, ← modify_comm default hother.1 f _ hkey]
    exact ih hother.2 (mem_keys_modify.mpr (.inr hkey))

/-- Merging a changed table changes what was merged, when the change of an entry does so. -/
theorem merge_modify (default : β) {default' : γ} {into : γ → β → β} {f : γ → γ} {f' : β → β}
    (hchange : ∀ v, into (f v) = f' ∘ into v) (hdefault : into default' = id) (key : α)
    {other : List (α × γ)} (hother : (keys other).Nodup) (table : List (α × β)) :
    merge default into table (modify default' key f other)
      = modify default key f' (merge default into table other) := by
  induction other generalizing table with
  | nil =>
    rw [modify, merge, List.foldl_cons, hchange, hdefault]
    rfl
  | cons entry rest ih =>
    obtain ⟨k, v⟩ := entry
    obtain ⟨hnot, hrest⟩ := List.nodup_cons.mp hother
    by_cases h : k = key
    · subst h
      rw [modify, if_pos rfl, merge, List.foldl_cons, hchange, ← modify_modify]
      exact merge_modify_of_notMem hnot (mem_keys_modify.mpr (.inl rfl))
    · rw [modify, if_neg h]
      exact ih hrest _

/-- A bound of the largest element bounds all. -/
lemma foldl_max_le_iff {γ : Type*} [LinearOrder γ] {l : List γ} {b x : γ} :
    l.foldl max b ≤ x ↔ b ≤ x ∧ ∀ k ∈ l, k ≤ x := by
  induction l generalizing b with
  | nil => simp
  | cons a l ih => rw [List.foldl_cons, ih, max_le_iff, List.forall_mem_cons, and_assoc]

end RespBench.Lib.Table
