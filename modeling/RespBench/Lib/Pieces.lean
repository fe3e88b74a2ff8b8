import Mathlib

/-!
# Pieces of an interval

Increasing bounds `c 0 ≤ c 1 ≤ … ≤ c n` cut the interval between the first and the last into pieces,
each of them open on its left. The piece of a point is found by looking for the first upper bound
that is not below it (`first_eq_some_iff`), and the points of a piece measure what lies between its
bounds (`volume_piece`).
-/

namespace RespBench.Lib.Pieces

variable {K : Type*} [LinearOrder K]

/-- The first of the upper bounds that is not below a point. -/
def first (bounds : List K) (r : K) : Option ℕ := bounds.findIdx? fun bound => decide (r ≤ bound)

/-- What is found is an upper bound of the point, and those before it are not. -/
lemma first_eq_some {c : ℕ → K} {n i : ℕ} {r : K}
    (h : first ((List.range n).map fun i => c (i + 1)) r = some i) :
    i < n ∧ r ≤ c (i + 1) ∧ ∀ j < i, c (j + 1) < r := by
  rw [first, List.findIdx?_eq_some_iff_getElem] at h
  obtain ⟨hi, hle, hbelow⟩ := h
  exact ⟨by simpa using hi, by simpa using hle, fun j hj => by simpa using hbelow j hj⟩

section
variable {c : ℕ → K} (hc : Monotone c) {n i : ℕ} {r : K}
include hc

/-- The piece of a point behind the first bound. -/
theorem first_eq_some_iff (h0 : c 0 < r) :
    first ((List.range n).map fun i => c (i + 1)) r = some i ↔ i < n ∧ c i < r ∧ r ≤ c (i + 1) := by
  rw [first, List.findIdx?_eq_some_iff_getElem]
  simp only [List.length_map, List.length_range, List.getElem_map, List.getElem_range,
    decide_eq_true_eq, not_le]
  constructor
  · rintro ⟨hi, hle, hbelow⟩
    refine ⟨hi, ?_, hle⟩
    cases i with
    | zero => exact h0
    | succ i => exact hbelow i (Nat.lt_succ_self i)
  · rintro ⟨hi, hlt, hle⟩
    exact ⟨hi, hle, fun j hj => (hc hj).trans_lt hlt⟩

/-- A point that is not behind the last bound has a piece. -/
lemma exists_first (h0 : c 0 < r) (hn : r ≤ c n) :
    ∃ i, first ((List.range n).map fun i => c (i + 1)) r = some i := by
  induction n with
  | zero => exact absurd hn (not_le.mpr h0)
  | succ n ih =>
    rcases lt_or_ge (c n) r with hlt | hle
    · exact ⟨n, (first_eq_some_iff hc h0).mpr ⟨Nat.lt_succ_self n, hlt, hn⟩⟩
    · obtain ⟨i, hi⟩ := ih hle
      obtain ⟨hin, hpiece⟩ := (first_eq_some_iff hc h0).mp hi
      exact ⟨i, (first_eq_some_iff hc h0).mpr ⟨hin.trans (Nat.lt_succ_self n), hpiece⟩⟩

end

/-- The first bound itself is found in the first piece. -/
lemma first_zero {c : ℕ → K} (hc : Monotone c) {n : ℕ} (hn : 0 < n) :
    first ((List.range n).map fun i => c (i + 1)) (c 0) = some 0 := by
  rw [first, List.findIdx?_eq_some_iff_getElem]
  refine ⟨by simpa using hn, ?_, fun j hj => absurd hj (Nat.not_lt_zero j)⟩
  simpa using hc (Nat.zero_le 1)

/-- The points of a piece measure what lies between its bounds. -/
theorem volume_piece {c : ℕ → ℝ} (hc : Monotone c) {n i : ℕ} (hi : i < n) :
    MeasureTheory.volume
      {r | (c 0 ≤ r ∧ r < c n) ∧ first ((List.range n).map fun i => c (i + 1)) r = some i}
      = ENNReal.ofReal (c (i + 1) - c i) := by
  apply le_antisymm
  · rw [← Real.volume_Icc]
    refine MeasureTheory.measure_mono ?_
    rintro r ⟨⟨h0, -⟩, hfirst⟩
    rcases h0.eq_or_lt with rfl | h0
    · rw [first_zero hc (Nat.zero_lt_of_lt hi)] at hfirst
      cases hfirst
      exact ⟨le_rfl, hc (Nat.zero_le 1)⟩
    · obtain ⟨-, hlt, hle⟩ := (first_eq_some_iff hc h0).mp hfirst
      exact ⟨hlt.le, hle⟩
  · rw [← Real.volume_Ioo]
    refine MeasureTheory.measure_mono ?_
    rintro r ⟨hlt, hgt⟩
    have h0 := (hc (Nat.zero_le i)).trans_lt hlt
    exact ⟨⟨h0.le, hgt.trans_le (hc hi)⟩, (first_eq_some_iff hc h0).mpr ⟨hi, hlt, hgt.le⟩⟩

end RespBench.Lib.Pieces
