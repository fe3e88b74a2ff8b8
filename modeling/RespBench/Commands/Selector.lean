import RespBench.Lib.Pieces

/-!
# Weighted command selection

The command selectors of the Go and the PHP engine (`commandselector.go`, `CommandSelector.php`),
which are the same line by line. Cumulative weights cut the draws into pieces (`cumulative_eq`), and
the loop finds the piece of a draw. Since it compares with `<=`, the pieces are open on the left,
and the draw zero belongs to the first command: `selects` says which command every draw selects, and
how many draws there are for each command.

Weights and draws are elements of any ordered field, which stands for the doubles. Go draws numbers
below one, PHP also one itself.
-/

namespace RespBench.Commands
open RespBench.Lib

structure Command (K : Type) where
  name : String
  weight : K
deriving DecidableEq

structure CommandSelector (K : Type) where
  commands : List (Command K)
  cumulative : List K

section Code
variable {K : Type} [Field K]

/-- The loop over the commands. -/
def cumulativeFrom (total : K) : K → List (Command K) → List K
  | _, [] => []
  | sum, c :: cmds => (sum + c.weight / total) :: cumulativeFrom total (sum + c.weight / total) cmds

def totalWeight (cmds : List (Command K)) : K := (cmds.map Command.weight).sum

/-- The normalised weight of the first commands. -/
def cumulativeWeight (cmds : List (Command K)) (n : ℕ) : K :=
  totalWeight (cmds.take n) / totalWeight cmds

variable [LinearOrder K]

/-- `NewCommandSelector`, `new CommandSelector`. -/
def NewCommandSelector (cmds : List (Command K)) : CommandSelector K :=
  let total := cmds.foldl (fun total c => total + c.weight) 0
  let total := if total = 0 then 1 else total
  ⟨cmds, cumulativeFrom total 0 cmds⟩

namespace CommandSelector

/-- The position of the command that is selected with the draw `r`. -/
def index (s : CommandSelector K) (r : K) : ℕ :=
  (Pieces.first s.cumulative r).getD (s.commands.length - 1)

/-- `Select`, `select`; nothing when there is no command. -/
def Select (s : CommandSelector K) (r : K) : Option (Command K) := s.commands[s.index r]?

end CommandSelector

/-- Commands with weights that can be normalised. -/
structure Weighted (cmds : List (Command K)) : Prop where
  nonneg : ∀ c ∈ cmds, 0 ≤ c.weight
  pos : 0 < totalWeight cmds

/-- The draw selects the first command whose cumulative weight is not below it, so that it lies on
the interval of this command, the draw zero on that of the first command. The command has a weight,
unless the draw is zero and the first command has none. -/
structure Selects (cmds : List (Command K)) (r : K) : Prop where
  reached : r ≤ cumulativeWeight cmds ((NewCommandSelector cmds).index r + 1)
  first : ∀ j < (NewCommandSelector cmds).index r, cumulativeWeight cmds (j + 1) < r
  interval : 0 < r → cumulativeWeight cmds ((NewCommandSelector cmds).index r) < r
  zero : r = 0 → (NewCommandSelector cmds).index r = 0
  positive : 0 < r ∨ (∃ c, cmds.head? = some c ∧ 0 < c.weight) →
    ∃ c, (NewCommandSelector cmds).Select r = some c ∧ 0 < c.weight

end Code

/-- There are as many thresholds as commands. -/
lemma length_cumulativeFrom {K : Type} [Field K] (total sum : K) (cmds : List (Command K)) :
    (cumulativeFrom total sum cmds).length = cmds.length := by
  induction cmds generalizing sum with
  | nil => rfl
  | cons c cmds ih => rw [cumulativeFrom, List.length_cons, ih, List.length_cons]

/-- A command is selected with every draw, whatever the weights are, if there is one. -/
lemma isSome_Select {K : Type} [Field K] [LinearOrder K] {cmds : List (Command K)}
    (h : cmds ≠ []) (r : K) :
    ((NewCommandSelector cmds).Select r).isSome := by
  have hlength := List.length_pos_iff.mpr h
  suffices hlt : (NewCommandSelector cmds).index r < cmds.length by
    rw [CommandSelector.Select, show (NewCommandSelector cmds).commands = cmds from rfl,
      List.getElem?_eq_getElem hlt]
    rfl
  rw [CommandSelector.index, show (NewCommandSelector cmds).commands = cmds from rfl]
  cases hfirst : Pieces.first (NewCommandSelector cmds).cumulative r with
  | none =>
    rw [Option.getD_none]
    omega
  | some i =>
    rw [Pieces.first, List.findIdx?_eq_some_iff_getElem] at hfirst
    obtain ⟨hi, -⟩ := hfirst
    rw [NewCommandSelector, length_cumulativeFrom] at hi
    exact hi

/-! ## Cumulative weights -/

section Sums
variable {K : Type} [Field K]

/-- The loop over the weights adds them up. -/
lemma foldl_weight (cmds : List (Command K)) (sum : K) :
    cmds.foldl (fun total c => total + c.weight) sum = sum + totalWeight cmds := by
  induction cmds generalizing sum with
  | nil => simp [totalWeight]
  | cons c cmds ih =>
    rw [List.foldl_cons, ih, totalWeight, totalWeight, List.map_cons, List.sum_cons, add_assoc]

/-- The cumulative weights are the sums of the first weights, divided by the total. -/
lemma cumulativeFrom_eq (total sum : K) (cmds : List (Command K)) : cumulativeFrom total sum cmds =
    (List.range cmds.length).map fun i => sum + totalWeight (cmds.take (i + 1)) / total := by
  induction cmds generalizing sum with
  | nil => rfl
  | cons c cmds ih =>
    rw [cumulativeFrom, ih, List.length_cons, List.range_succ_eq_map, List.map_cons, List.map_map]
    simp [totalWeight, add_div, add_assoc, Function.comp_def]

variable {cmds : List (Command K)}

/-- Nothing comes before the first command. -/
lemma cumulativeWeight_zero : cumulativeWeight cmds 0 = 0 := by simp [cumulativeWeight, totalWeight]

/-- Each command adds its share of the total. -/
lemma cumulativeWeight_succ {i : ℕ} (hi : i < cmds.length) :
    cumulativeWeight cmds (i + 1) = cumulativeWeight cmds i + cmds[i].weight
      / totalWeight cmds := by
  rw [cumulativeWeight, cumulativeWeight, List.take_succ_eq_append_getElem hi, totalWeight,
    List.map_append, List.sum_append, add_div]
  simp [totalWeight]

end Sums

section Weights
variable {K : Type} [Field K] [LinearOrder K] {cmds : List (Command K)} (h : Weighted cmds)
include h

/-- A selector has a command. -/
lemma length_pos : 0 < cmds.length := by
  refine List.length_pos_iff.mpr ?_
  rintro rfl
  exact absurd h.pos (lt_irrefl 0)

/-- All commands together have the weight 1. -/
lemma cumulativeWeight_length : cumulativeWeight cmds cmds.length = 1 := by
  rw [cumulativeWeight, List.take_length, div_self h.pos.ne']

/-- The thresholds of the selector are the cumulative weights. -/
lemma cumulative_eq : (NewCommandSelector cmds).cumulative =
    (List.range cmds.length).map fun i => cumulativeWeight cmds (i + 1) := by
  rw [NewCommandSelector]
  dsimp only
  rw [foldl_weight, zero_add, if_neg h.pos.ne', cumulativeFrom_eq]
  simp only [zero_add, cumulativeWeight]

variable [IsStrictOrderedRing K]

/-- The cumulative weights do not decrease. -/
lemma cumulativeWeight_mono : Monotone (cumulativeWeight cmds) := by
  refine monotone_nat_of_le_succ fun i => ?_
  rcases lt_or_ge i cmds.length with hi | hi
  · rw [cumulativeWeight_succ hi]
    exact le_add_of_nonneg_right (div_nonneg (h.nonneg _ (List.getElem_mem hi)) h.pos.le)
  · rw [cumulativeWeight, cumulativeWeight, List.take_of_length_le hi,
      List.take_of_length_le (hi.trans (Nat.le_succ i))]

/-! ## Draws -/

/-- The position that is selected is that of the first threshold that is not below the draw. -/
lemma exists_index {r : K} (h0 : 0 ≤ r) (h1 : r ≤ 1) : ∃ i, (NewCommandSelector cmds).index r = i ∧
    Pieces.first ((List.range cmds.length).map fun i => cumulativeWeight cmds (i + 1)) r
      = some i := by
  have hmono := cumulativeWeight_mono h
  suffices hfirst : ∃ i,
    Pieces.first ((List.range cmds.length).map fun i => cumulativeWeight cmds (i + 1)) r = some i by
    obtain ⟨i, hi⟩ := hfirst
    refine ⟨i, ?_, hi⟩
    rw [CommandSelector.index, cumulative_eq h, hi, Option.getD_some]
  rcases h0.eq_or_lt with rfl | h0
  · have hzero := Pieces.first_zero hmono (length_pos h)
    rw [cumulativeWeight_zero] at hzero
    exact ⟨0, hzero⟩
  · exact Pieces.exists_first hmono (cumulativeWeight_zero.trans_lt h0)
      (h1.trans (cumulativeWeight_length h).ge)

/-- Every draw selects the first command whose cumulative weight is not below it. -/
lemma selects_of_mem {r : K} (h0 : 0 ≤ r) (h1 : r ≤ 1) : Selects cmds r := by
  obtain ⟨i, hindex, hfirst⟩ := exists_index h h0 h1
  obtain ⟨hi, hle, hbelow⟩ := Pieces.first_eq_some hfirst
  have hselect : (NewCommandSelector cmds).Select r = some cmds[i] := by
    rw [CommandSelector.Select, hindex]
    exact List.getElem?_eq_getElem hi
  have hinterval : 0 < r → cumulativeWeight cmds i < r := by
    intro hpos
    cases i with
    | zero => exact cumulativeWeight_zero.trans_lt hpos
    | succ i => exact hbelow i (Nat.lt_succ_self i)
  have hzero : r = 0 → i = 0 := by
    rintro rfl
    by_contra hne
    have hlt := hbelow 0 (Nat.pos_of_ne_zero hne)
    exact absurd (cumulativeWeight_mono h (Nat.zero_le 1))
      (not_le.mpr (hlt.trans_eq cumulativeWeight_zero.symm))
  rw [← hindex] at hle hbelow hinterval hzero
  refine ⟨hle, hbelow, hinterval, hzero, fun hcase => ⟨cmds[i], hselect, ?_⟩⟩
  rcases h0.lt_or_eq with hpos | hr
  · have hstep := (hinterval hpos).trans_le hle
    rw [hindex, cumulativeWeight_succ hi, lt_add_iff_pos_right] at hstep
    exact (div_pos_iff_of_pos_right h.pos).mp hstep
  · obtain ⟨c, hc, hweight⟩ := hcase.resolve_left hr.not_lt
    have hfirst : i = 0 := hindex ▸ hzero hr.symm
    subst hfirst
    rw [List.head?_eq_getElem?, List.getElem?_eq_getElem hi, Option.some_inj] at hc
    rwa [hc]

end Weights

/-- Every draw selects the first command whose cumulative weight is not below it, and every command
is selected on a set of draws that measures its share of the total weight. -/
theorem selects :
    (∀ (K : Type) [Field K] [LinearOrder K] [IsStrictOrderedRing K] (cmds : List (Command K)),
      Weighted cmds → ∀ r, 0 ≤ r → r ≤ 1 → Selects cmds r) ∧
    ∀ cmds : List (Command ℝ), Weighted cmds → ∀ (i : ℕ) (hi : i < cmds.length),
      MeasureTheory.volume {r | (0 ≤ r ∧ r < 1) ∧ (NewCommandSelector cmds).index r = i}
        = ENNReal.ofReal (cmds[i].weight / totalWeight cmds) := by
  refine ⟨fun K _ _ _ cmds h r h0 h1 => selects_of_mem h h0 h1, fun cmds h i hi => ?_⟩
  have hpiece := Pieces.volume_piece (cumulativeWeight_mono h) hi
  rw [cumulativeWeight_zero, cumulativeWeight_length h, cumulativeWeight_succ hi,
    add_sub_cancel_left] at hpiece
  rw [← hpiece]
  congr 1
  ext r
  refine and_congr_right fun hr => ?_
  obtain ⟨j, hindex, hfirst⟩ := exists_index h hr.1 hr.2.le
  rw [hindex, hfirst, Option.some_inj]

def ping (weight : ℚ) : Command ℚ := ⟨"PING", weight⟩
def get (weight : ℚ) : Command ℚ := ⟨"GET", weight⟩

/-- A draw above the weight of the first command selects the second, and the draw zero the first. -/
theorem half_selects : (Selects [ping 1, get 3] (1 / 2) ∧ Selects [ping 1, get 3] 0) ∧
    MeasureTheory.volume
      {r | (0 ≤ r ∧ r < 1) ∧ (NewCommandSelector [⟨"PING", (1 : ℝ)⟩, ⟨"GET", 3⟩]).index r = 1}
      = ENNReal.ofReal (3 / (1 + (3 + 0))) := by
  have hweighted : Weighted [ping 1, get 3] := ⟨by decide +kernel, by decide +kernel⟩
  refine ⟨⟨selects.1 ℚ _ hweighted _ (by norm_num) (by norm_num),
    selects.1 ℚ _ hweighted _ le_rfl zero_le_one⟩, ?_⟩
  refine selects.2 [⟨"PING", 1⟩, ⟨"GET", 3⟩] ⟨?_, ?_⟩ 1 (by simp)
  · simp
  · norm_num [totalWeight]

/-- A draw on the bound of two commands selects the first of them, and the draw zero the first
command, which may have weight zero. -/
theorem bound_selects_first : (NewCommandSelector [ping 1, get 1]).index (1 / 2) = 0 ∧
    ¬ (1 / 2) < cumulativeWeight [ping 1, get 1] 1 ∧
    (NewCommandSelector [ping 0, get 1]).Select 0 = some (ping 0) := by decide +kernel

end RespBench.Commands
