import Mathlib

/-!
# Arranged lists

A list whose elements have keys in a linear order, arranged in two blocks: those in front and the
others, each block in the order of the keys. As long as the keys are different, the arrangement does
not depend on the order of the list (`arrange_congr`) and selecting elements commutes with it
(`filter_arrange`). It is the order of the keys itself when no element behind comes before one in
front, up to elements that do not show (`flatMap_arrange`).
-/

namespace RespBench.Lib.Arrange
variable {α β K : Type*} [LinearOrder K] {key : α → K} {l l' : List α}

/-- The keys of a list are different. -/
def Distinct (key : α → K) (l : List α) : Prop := ∀ a ∈ l, ∀ b ∈ l, key a = key b → a = b

omit [LinearOrder K] in
/-- Fewer elements are still distinct. -/
lemma Distinct.subset (h : Distinct key l) (hsub : l' ⊆ l) : Distinct key l' :=
  fun a ha b hb => h a (hsub ha) b (hsub hb)

/-- A list in the order of its keys. -/
def sortBy (key : α → K) (l : List α) : List α := l.insertionSort fun a b => key a ≤ key b

omit [LinearOrder K] in
/-- A part of distinct elements is distinct. -/
lemma Distinct.filter (h : Distinct key l) (p : α → Bool) : Distinct key (l.filter p) :=
  h.subset fun _ => List.mem_of_mem_filter

/-- Sorting keeps the elements. -/
lemma sortBy_perm (key : α → K) (l : List α) : (sortBy key l).Perm l := List.perm_insertionSort _ l

/-- Sorting keeps the elements. -/
@[simp] lemma mem_sortBy {a : α} : a ∈ sortBy key l ↔ a ∈ l := (sortBy_perm key l).mem_iff

/-- Sorting orders the keys. -/
lemma pairwise_sortBy (key : α → K) (l : List α) : (sortBy key l).Pairwise fun a b =>
    key a ≤ key b := by
  have : Std.Total fun a b : α => key a ≤ key b := ⟨fun a b => le_total _ _⟩
  have : IsTrans α fun a b => key a ≤ key b := ⟨fun _ _ _ => le_trans⟩
  exact List.pairwise_insertionSort _ l

/-- Lists with the same different keys, both in their order, are the same. -/
lemma eq_of_perm (hkeys : Distinct key l) (hperm : l.Perm l')
    (hl : l.Pairwise fun a b => key a ≤ key b)
    (hl' : l'.Pairwise fun a b => key a ≤ key b) : l = l' :=
  hperm.eq_of_pairwise (fun a b ha hb hab hba =>
    hkeys a ha b (hperm.mem_iff.mpr hb) (le_antisymm hab hba)) hl hl'

/-- With distinct keys the order before does not matter. -/
lemma sortBy_congr (hkeys : Distinct key l) (hperm : l.Perm l') : sortBy key l = sortBy key l' := by
  refine eq_of_perm (hkeys.subset (sortBy_perm key l).subset) ?_ (pairwise_sortBy key l)
    (pairwise_sortBy key l')
  exact (sortBy_perm key l).trans (hperm.trans (sortBy_perm key l').symm)

/-- With distinct keys one may sort before or after a filter. -/
lemma filter_sortBy (hkeys : Distinct key l) (p : α → Bool) :
    (sortBy key l).filter p = sortBy key (l.filter p) := by
  refine eq_of_perm (hkeys.subset fun a ha => ?_) ?_ ((pairwise_sortBy key l).filter p)
    (pairwise_sortBy key _)
  · exact mem_sortBy.mp (List.mem_of_mem_filter ha)
  · exact ((sortBy_perm key l).filter p).trans (sortBy_perm key _).symm

/-- A list in two blocks. -/
def arrange (key : α → K) (front : α → Bool) (l : List α) : List α :=
  sortBy key (l.filter front) ++ sortBy key (l.filter fun a => !front a)

variable {front front' : α → Bool}

/-- An arrangement keeps the elements. -/
lemma arrange_perm (key : α → K) (front : α → Bool) (l : List α) : (arrange key front l).Perm l :=
  ((sortBy_perm key _).append (sortBy_perm key _)).trans (List.filter_append_perm front l)

/-- An arrangement depends on the elements only, and on which of them are in front. -/
theorem arrange_congr (hkeys : Distinct key l) (hperm : l.Perm l')
    (hfront : ∀ a ∈ l, front a = front' a) :
    arrange key front l = arrange key front' l' := by
  have hblock : ∀ p p' : α → Bool, (∀ a ∈ l, p a = p' a) →
      sortBy key (l.filter p) = sortBy key (l'.filter p') := by
    intro p p' hp
    rw [List.filter_congr hp]
    exact sortBy_congr (hkeys.filter p') (hperm.filter p')
  rw [arrange, arrange, hblock front front' hfront,
    hblock (fun a => !front a) (fun a => !front' a) fun a ha => by rw [hfront a ha]]

/-- Elements may be selected before or after the list is arranged. -/
theorem filter_arrange (hkeys : Distinct key l) (front p : α → Bool) :
    (arrange key front l).filter p = arrange key front (l.filter p) := by
  have hblock : ∀ q : α → Bool, (sortBy key (l.filter q)).filter p
    = sortBy key ((l.filter p).filter q) := by
    intro q
    rw [filter_sortBy (hkeys.filter q), List.filter_filter, List.filter_filter]
    exact congrArg _ (List.filter_congr fun a _ => Bool.and_comm _ _)
  rw [arrange, List.filter_append, hblock, hblock, arrange]

/-- One element stands alone. -/
@[simp] lemma arrange_singleton (key : α → K) (front : α → Bool) (a : α) :
    arrange key front [a] = [a] := by
  cases h : front a <;> simp [arrange, sortBy, h]

/-- Two elements stand in the order of their keys, unless only the second one is in front. -/
lemma arrange_pair {a b : α} (hab : key a < key b) (front : α → Bool) :
    arrange key front [a, b] = if front b && !front a then [b, a] else [a, b] := by
  have hsort : sortBy key [a, b] = [a, b] :=
    List.Pairwise.insertionSort_eq (List.pairwise_pair.mpr hab.le)
  have hone : ∀ x : α, sortBy key [x] = [x] := fun x => rfl
  have hnil : sortBy key ([] : List α) = [] := rfl
  rw [arrange]
  cases ha : front a <;> cases hb : front b <;>
    simp only [List.filter_cons, List.filter_nil, ha, hb, Bool.not_true, Bool.not_false,
      Bool.false_eq_true, if_true, if_false, hsort, hone, hnil, List.append_nil, List.nil_append,
      Bool.and_true, Bool.and_false, List.singleton_append]

omit [LinearOrder K] in
/-- What contributes nothing may be filtered out. -/
lemma flatMap_filter (f : α → List β) {p : α → Bool} (h : ∀ a ∈ l, p a = false → f a = []) :
    (l.filter p).flatMap f = l.flatMap f := by
  induction l with
  | nil => rfl
  | cons a l ih =>
    obtain ⟨ha, hl⟩ := List.forall_mem_cons.mp h
    rw [List.flatMap_cons, ← ih hl, List.filter_cons]
    split
    · rfl
    · next hp => rw [ha (Bool.eq_false_of_not_eq_true hp), List.nil_append]

/-- Splitting a list into two blocks does not change what shows, when no element that shows is in
front of one that comes before it and is not. -/
lemma flatMap_blocks (f : α → List β)
    (h : l.Pairwise fun a b => front a = false → front b = true → f b = []) :
    (l.filter front ++ l.filter fun a => !front a).flatMap f = l.flatMap f := by
  induction l with
  | nil => rfl
  | cons a l ih =>
    obtain ⟨hhead, htail⟩ := List.pairwise_cons.mp h
    rw [List.flatMap_cons, ← ih htail]
    cases ha : front a
    · -- what is in front of `a` does not show
      have hnone : (l.filter front).flatMap f = [] := by
        refine List.flatMap_eq_nil_iff.mpr fun b hb => ?_
        obtain ⟨hb, hfront⟩ := List.mem_filter.mp hb
        exact hhead b hb ha hfront
      simp only [List.filter_cons, ha, Bool.false_eq_true, if_false, Bool.not_false, if_true,
        List.flatMap_append, List.flatMap_cons, hnone, List.nil_append]
    · simp only [List.filter_cons, ha, if_true, Bool.not_true, Bool.false_eq_true, if_false,
        List.cons_append, List.flatMap_cons]

/-- When no element that shows is in front of one that comes before it and is not, the
blocks do not matter. -/
theorem flatMap_arrange (hkeys : Distinct key l) (f : α → List β)
    (h : ∀ a ∈ l, ∀ b ∈ l, key a < key b → front a = false → front b = true → f b = []) :
    (arrange key front l).flatMap f = (sortBy key l).flatMap f := by
  rw [arrange, ← filter_sortBy hkeys, ← filter_sortBy hkeys]
  refine flatMap_blocks f ((pairwise_sortBy key l).imp_of_mem fun {a b} ha hb hab hback hfront =>
    ?_)
  rw [mem_sortBy] at ha hb
  refine h a ha b hb (lt_of_le_of_ne hab fun heq => ?_) hback hfront
  rw [hkeys a ha b hb heq, hfront] at hback
  cases hback

end RespBench.Lib.Arrange
