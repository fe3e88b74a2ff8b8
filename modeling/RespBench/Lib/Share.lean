import Mathlib

/-!
# Even shares

Splitting `R` items over `n` workers as evenly as possible, the remainder going to the first
workers. `dealt` is the general rule: dealing the items in rounds, item `j` to worker `j % n` as its
`j / n`-th item, gives every worker its share. `sum_share` says that the shares add up, and
`share_even` that no worker gets more than one item more than another.
-/

namespace RespBench.Lib.Share

/-- The number of items of worker `i` when `R` items are split over `n` workers. -/
def share (R n i : ℕ) : ℕ := R / n + if i < R % n then 1 else 0

/-- One more item goes to worker `R % n`. -/
lemma share_succ {n i : ℕ} (hi : i < n) (R : ℕ) :
    share (R + 1) n i = share R n i + if i = R % n then 1 else 0 := by
  have hmod := Nat.mod_lt R (Nat.zero_lt_of_lt hi)
  unfold share
  rcases Nat.lt_or_ge (R % n + 1) n with h | h
  · rw [Nat.succ_div_of_not_dvd (by rw [Nat.dvd_iff_mod_eq_zero, Nat.add_mod_eq_add_mod_right _ rfl,
      Nat.add_mod, Nat.mod_eq_of_lt (show 1 < n by omega), Nat.mod_eq_of_lt h]; omega)]
    rw [Nat.add_mod, Nat.mod_eq_of_lt (show 1 < n by omega), Nat.mod_eq_of_lt h]
    split_ifs <;> omega
  · have hlast : R % n + 1 = n := by omega
    have hdvd : n ∣ R + 1 := by
      refine ⟨R / n + 1, ?_⟩
      have := Nat.div_add_mod R n
      rw [Nat.mul_add_one]
      omega
    rw [Nat.succ_div_of_dvd hdvd, Nat.mod_eq_zero_of_dvd hdvd]
    split_ifs <;> omega

/-- Dealing the items in rounds gives every worker its share. -/
theorem dealt {α : Type*} {n : ℕ} (hn : 0 < n) (g : ℕ → ℕ → α) (R : ℕ) :
    ∑ i ∈ Finset.range n, (Multiset.range (share R n i)).map (g i)
      = (Multiset.range R).map fun j => g (j % n) (j / n) := by
  induction R with
  | zero => simp [share]
  | succ R ih =>
    have hstep : ∀ i ∈ Finset.range n, (Multiset.range (share (R + 1) n i)).map (g i)
        = (Multiset.range (share R n i)).map (g i) + if i = R % n then {g i (R / n)} else 0 := by
      intro i hi
      rw [share_succ (Finset.mem_range.mp hi)]
      by_cases h : i = R % n
      · have hq : share R n i = R / n := by rw [share, if_neg (by omega), add_zero]
        rw [if_pos h, if_pos h, Multiset.range_succ, Multiset.map_cons, hq, add_comm,
          Multiset.singleton_add]
      · rw [if_neg h, if_neg h, add_zero, add_zero]
    rw [Finset.sum_congr rfl hstep, Finset.sum_add_distrib, ih, Finset.sum_ite_eq',
      if_pos (Finset.mem_range.mpr (Nat.mod_lt R hn)), Multiset.range_succ, Multiset.map_cons,
      add_comm, Multiset.singleton_add]

/-- The shares add up to the number of items. -/
theorem sum_share {n : ℕ} (hn : 0 < n) (R : ℕ) : ∑ i ∈ Finset.range n, share R n i = R := by
  have h := congrArg Multiset.card (dealt hn (fun _ _ => ()) R)
  simpa using h

/-- No share is larger than the whole. -/
lemma share_le {n i : ℕ} (hi : i < n) (R : ℕ) : share R n i ≤ R := by
  calc share R n i ≤ ∑ j ∈ Finset.range n, share R n j :=
        Finset.single_le_sum (f := share R n) (fun _ _ => Nat.zero_le _) (Finset.mem_range.mpr hi)
    _ = R := sum_share (Nat.zero_lt_of_lt hi) R

/-- A share is `R / n`, rounded down or up. -/
lemma share_bounds (R n i : ℕ) : R / n ≤ share R n i ∧ share R n i ≤ R / n + 1 := by
  unfold share
  split <;> omega

/-- Without more workers than items, nobody goes without. -/
lemma share_pos {R n : ℕ} (hn : 0 < n) (hR : n ≤ R) (i : ℕ) : 0 < share R n i :=
  (Nat.div_pos hR hn).trans_le (share_bounds R n i).1

/-- The first workers get something, one for each item. -/
lemma share_pos_iff {R n i : ℕ} (hi : i < n) : 0 < share R n i ↔ i < R := by
  rcases Nat.lt_or_ge R n with h | h
  · rw [share, Nat.div_eq_of_lt h, Nat.mod_eq_of_lt h]
    split <;> omega
  · exact iff_of_true (share_pos (Nat.zero_lt_of_lt hi) h i) (hi.trans_le h)

/-- With more workers than items, every item goes to a worker of its own; counting only the workers
that get one makes no difference. -/
lemma share_min {R n i : ℕ} (hi : i < min n R) : share R (min n R) i = share R n i := by
  rcases le_total n R with h | h
  · rw [min_eq_left h]
  · rw [min_eq_right h] at hi ⊢
    have hR : 0 < R := Nat.zero_lt_of_lt hi
    rcases h.eq_or_lt with rfl | hlt
    · rfl
    · rw [share, share, Nat.div_self hR, Nat.mod_self, Nat.div_eq_of_lt hlt,
        Nat.mod_eq_of_lt hlt, if_pos hi, if_neg (by omega)]

/-- A share is everything only for a single worker, or when there is at most one item. -/
lemma share_eq_self_iff {R n i : ℕ} (hi : i < n) : share R n i = R ↔ R = 0 ∨ n = 1 ∨
    (R = 1 ∧ i = 0) := by
  rcases (Nat.succ_le_of_lt (Nat.zero_lt_of_lt hi)).eq_or_lt with rfl | hn
  · simp [share, Nat.mod_one]
  · have hhalf : R / n ≤ R / 2 := Nat.div_le_div_left hn (by norm_num)
    have hmod := Nat.mod_lt R (Nat.zero_lt_of_lt hi)
    have hdiv := Nat.div_add_mod R n
    unfold share
    by_cases hR : R < n
    · rw [Nat.div_eq_of_lt hR, Nat.mod_eq_of_lt hR]
      split <;> omega
    · have hone : 1 ≤ R / n := Nat.div_pos (not_lt.mp hR) (by omega)
      have hmul : 2 * (R / n) ≤ n * (R / n) := Nat.mul_le_mul_right _ hn
      split <;> omega

/-- The first `n` parts add up to `total`, and no two of them differ by more than one. -/
structure Even (total : ℤ) (n : ℕ) (part : ℕ → ℤ) : Prop where
  sum_eq : ∑ i ∈ Finset.range n, part i = total
  near : ∀ i < n, ∀ j < n, |part i - part j| ≤ 1

/-- Shares are even. -/
theorem share_even {n : ℕ} (hn : 0 < n) (R : ℕ) : Even R n fun i => (share R n i : ℕ) where
  sum_eq := by
    rw [← Nat.cast_sum, sum_share hn]
  near i _ j _ := by
    have hi := share_bounds R n i
    have hj := share_bounds R n j
    rw [abs_le]
    omega

/-- Evenness only looks at the first `n` parts. -/
lemma Even.congr {total : ℤ} {n : ℕ} {part part' : ℕ → ℤ} (h : Even total n part)
    (heq : ∀ i < n, part' i = part i) : Even total n part' where
  sum_eq := by
    rw [← h.sum_eq]
    exact Finset.sum_congr rfl fun i hi => heq i (Finset.mem_range.mp hi)
  near i hi j hj := by
    rw [heq i hi, heq j hj]
    exact h.near i hi j hj

end RespBench.Lib.Share
