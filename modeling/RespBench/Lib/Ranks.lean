import Mathlib

/-!
# Order statistics

`IsRank M r a`: in the multiset `M` the element `a` has rank `r`, counted from one, since fewer than
`r` elements are below it and at least `r` are not above it. Equal elements share their ranks. A
sorted list shows its ranks (`isRank_getElem`), and a monotone map keeps them (`IsRank.map`).

`ordered l k` is the element at the position `k` of a list once it is sorted. No element lies
between two neighbours (`le_or_ordered_le`).
-/

namespace RespBench.Lib

/-- More elements meet a weaker condition. -/
lemma countP_mono {α : Type*} {M : Multiset α} {p q : α → Prop} [DecidablePred p] [DecidablePred q]
    (h : ∀ x ∈ M, p x → q x) : M.countP p ≤ M.countP q := by
  induction M using Quotient.inductionOn with
  | h l =>
    refine List.countP_mono_left fun x hx hp => ?_
    rw [decide_eq_true_eq] at hp ⊢
    exact h x hx hp

variable {α β : Type*} [LinearOrder α] [LinearOrder β] {M : Multiset α} {r s : ℕ} {a b : α}

/-- An element of the given rank. -/
def IsRank (M : Multiset α) (r : ℕ) (a : α) : Prop := M.countP (· < a) < r ∧ r ≤ M.countP (· ≤ a)

namespace IsRank

/-- Ranks start at one. -/
lemma pos (h : IsRank M r a) : 0 < r := by
  have := h.1
  omega

/-- No rank is larger than the number of elements. -/
lemma le_card (h : IsRank M r a) : r ≤ M.card := h.2.trans (Multiset.countP_le_card _ _)

/-- Elements are ordered as their ranks. -/
theorem le_of_le (ha : IsRank M r a) (hb : IsRank M s b) (h : r ≤ s) : a ≤ b := by
  by_contra hlt
  rw [not_le] at hlt
  have hcount : M.countP (· ≤ b) ≤ M.countP (· < a) :=
    countP_mono fun x _ hx => hx.trans_lt hlt
  have := ha.1
  have := hb.2
  omega

/-- Monotone maps keep ranks. -/
theorem map {f : α → β} (hf : Monotone f) (h : IsRank M r a) : IsRank (M.map f) r (f a) := by
  unfold IsRank
  rw [Multiset.countP_map, Multiset.countP_map, ← Multiset.countP_eq_card_filter,
    ← Multiset.countP_eq_card_filter]
  constructor
  · exact (countP_mono fun x _ hx => hf.reflect_lt hx).trans_lt h.1
  · exact h.2.trans (countP_mono fun x _ hx => hf hx)

/-- The first rank is that of the smallest elements. -/
lemma le_of_mem (h : IsRank M 1 a) (hb : b ∈ M) : a ≤ b := by
  have hzero : M.countP (· < a) = 0 := by
    have := h.1
    omega
  exact not_lt.mp (Multiset.countP_eq_zero.mp hzero b hb)

/-- The last rank is that of the largest elements. -/
lemma ge_of_mem (h : IsRank M M.card a) (hb : b ∈ M) : b ≤ a :=
  Multiset.countP_eq_card.mp (le_antisymm (Multiset.countP_le_card _ _) h.2) b hb

/-- An element with a rank occurs. -/
lemma mem (h : IsRank M r a) : a ∈ M := by
  by_contra hmem
  have hcount : M.countP (· ≤ a) ≤ M.countP (· < a) :=
    countP_mono fun x hx hle => lt_of_le_of_ne hle fun he => hmem (he ▸ hx)
  have := h.1
  have := h.2
  omega

end IsRank

/-- A sorted list shows its ranks. -/
theorem isRank_getElem {l : List α} (hl : l.Pairwise (· ≤ ·)) {k : ℕ} (hk : k < l.length) :
    IsRank (l : Multiset α) (k + 1) l[k] := by
  have hdrop : l.drop k = l[k] :: l.drop (k + 1) := List.drop_eq_getElem_cons hk
  have hsplit : l = l.take k ++ l[k] :: l.drop (k + 1) := by
    rw [← hdrop, List.take_append_drop]
  have hlength : (l.take k).length = k := List.length_take_of_le hk.le
  generalize l[k] = a, l.take k = front, l.drop (k + 1) = back at hsplit hlength
  subst hsplit
  obtain ⟨-, hback, hfront⟩ := List.pairwise_append.mp hl
  unfold IsRank
  rw [Multiset.coe_countP, Multiset.coe_countP, List.countP_append, List.countP_append]
  constructor
  · have hnone : (a :: back).countP (· < a) = 0 := by
      refine List.countP_eq_zero.mpr fun x hx => ?_
      rw [decide_eq_true_eq, not_lt]
      rcases List.mem_cons.mp hx with rfl | hx
      · exact le_rfl
      · exact (List.pairwise_cons.mp hback).1 x hx
    have hle := List.countP_le_length (p := fun x => decide (x < a)) (l := front)
    omega
  · have hall : front.countP (· ≤ a) = front.length := by
      refine List.countP_eq_length.mpr fun x hx => ?_
      rw [decide_eq_true_eq]
      exact hfront x hx a List.mem_cons_self
    have hself : 0 < (a :: back).countP (· ≤ a) :=
      List.countP_pos_iff.mpr ⟨a, List.mem_cons_self, decide_eq_true le_rfl⟩
    omega

/-! ## Positions -/

section Ordered
variable (l : List α)

/-- The element at a position of the sorted list, counted from zero. -/
def ordered (k : Fin l.length) : α :=
  (l.insertionSort (· ≤ ·)).get (k.cast (List.length_insertionSort (· ≤ ·) l).symm)

/-- The sorted elements, by their positions. -/
lemma getD_insertionSort {k : ℕ} (hk : k < l.length) (d : α) :
    (l.insertionSort (· ≤ ·)).getD k d = ordered l ⟨k, hk⟩ :=
  List.getD_eq_getElem _ _ (by rwa [List.length_insertionSort])

/-- A sorted element is one of them. -/
lemma ordered_mem (k : Fin l.length) : ordered l k ∈ l :=
  (l.perm_insertionSort (· ≤ ·)).mem_iff.mp (List.get_mem _ _)

/-- The sorted elements are in order. -/
lemma ordered_mono : Monotone (ordered l) := fun _ _ h => (l.sortedLE_insertionSort).monotone_get h

variable {l}

/-- Every element has a position among the sorted ones. -/
lemma exists_ordered (ha : a ∈ l) : ∃ k, ordered l k = a := by
  obtain ⟨k, rfl⟩ := List.get_of_mem ((l.perm_insertionSort (· ≤ ·)).mem_iff.mpr ha)
  exact ⟨k.cast (List.length_insertionSort (· ≤ ·) l), rfl⟩

/-- No element lies strictly between neighbours. -/
theorem le_or_ordered_le {i j : Fin l.length} (hij : (j : ℕ) ≤ i + 1) (ha : a ∈ l) :
    a ≤ ordered l i ∨ ordered l j ≤ a := by
  obtain ⟨k, rfl⟩ := exists_ordered ha
  rcases Nat.lt_or_ge i k with hk | hk
  · exact .inr (ordered_mono l (Fin.le_def.mpr (by omega)))
  · exact .inl (ordered_mono l hk)

end Ordered

end RespBench.Lib
