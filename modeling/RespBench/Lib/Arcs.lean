import Mathlib

/-!
# Intervals around a circle

The residues modulo `K` of the numbers of an interval `[a, a + l)` form an arc of the circle. A
union of arcs, counted with multiplicity, is determined by its number of elements and by where its
arcs begin and end: `boundary_iff` is the principle on any cyclic group, `arcs_eq_iff` its form for
residues, `wraps_eq_iff` the case of arcs that all begin at zero, and `rounds_eq_iff` the case of
arcs at regular distances.
-/

namespace RespBench.Lib.Arcs

/-- The numbers of an interval. -/
def arc (a l : ℕ) : Multiset ℕ := (Multiset.range l).map (a + ·)

/-- The residues of a multiset of numbers. -/
def residues (K : ℕ) (m : Multiset ℕ) : Multiset ℕ := m.map (· % K)

/-- The residues of both are those of each. -/
@[simp] lemma residues_add (K : ℕ) (a b : Multiset ℕ) :
    residues K (a + b) = residues K a + residues K b := Multiset.map_add _ _ _

/-- An arc of so many numbers. -/
@[simp] lemma card_arc (a l : ℕ) : (arc a l).card = l := by simp [arc]

/-- Sliding an arc by one drops its start and adds its end. -/
lemma slide_arc (a l : ℕ) : (arc a l).map (· + 1) + {a} = arc a l + {a + l} := by
  induction l with
  | zero => simp [arc]
  | succ l ih =>
    have hsucc : arc a (l + 1) = arc a l + {a + l} := by
      rw [arc, Multiset.range_succ, Multiset.map_cons, add_comm (arc a l), Multiset.singleton_add]
      rfl
    rw [hsucc, Multiset.map_add, Multiset.map_singleton, add_right_comm, ih]
    rfl

/-- Residues are equal when the casts to the cyclic group are. -/
lemma residues_eq_iff {K : ℕ} [NeZero K] {a b : Multiset ℕ} :
    residues K a = residues K b ↔ a.map (Nat.cast : ℕ → ZMod K) = b.map Nat.cast := by
  constructor
  · intro h
    have h' := congrArg (Multiset.map (Nat.cast : ℕ → ZMod K)) h
    simpa [residues, Function.comp_def] using h'
  · intro h
    have h' := congrArg (Multiset.map ZMod.val) h
    simpa [residues, Function.comp_def, ZMod.val_natCast] using h'

section Boundary
variable {K : ℕ} [NeZero K]

/-- A function on the cyclic group that one step does not change is constant. -/
lemma eq_of_slide {f : ZMod K → ℤ} (h : ∀ y, f (y + 1) = f y) (y : ZMod K) : f y = f 0 := by
  have hnat : ∀ n : ℕ, f n = f 0 := by
    intro n
    induction n with
    | zero => simp
    | succ n ih => rw [Nat.cast_succ, h, ih]
  rw [← ZMod.natCast_zmod_val y, hnat]

/-- Two multisets of one size whose slides agree are equal. -/
lemma eq_of_slides {A B : Multiset (ZMod K)} (hcard : A.card = B.card)
    (h : A.map (· + 1) + B = A + B.map (· + 1)) : A = B := by
  set f : ZMod K → ℤ := fun y => (A.count y : ℤ) - B.count y with hf
  have hslide : ∀ y, f (y + 1) = f y := by
    intro y
    have hc := congrArg (Multiset.count (y + 1)) h
    rw [Multiset.count_add, Multiset.count_add,
      Multiset.count_map_eq_count' _ _ (add_left_injective 1),
      Multiset.count_map_eq_count' _ _ (add_left_injective 1)] at hc
    simp only [hf]
    omega
  have hsum : ∑ y, f y = 0 := by
    have hA := Multiset.sum_count_eq_card (s := Finset.univ) (m := A) (fun a _ => Finset.mem_univ a)
    have hB := Multiset.sum_count_eq_card (s := Finset.univ) (m := B) (fun a _ => Finset.mem_univ a)
    simp only [hf, Finset.sum_sub_distrib]
    rw [← Nat.cast_sum, ← Nat.cast_sum, hA, hB, hcard, sub_self]
  have h0 : f 0 = 0 := by
    rw [Finset.sum_congr rfl (fun y _ => eq_of_slide hslide y), Finset.sum_const,
      Finset.card_univ, ZMod.card, nsmul_eq_mul] at hsum
    exact (mul_eq_zero.mp hsum).resolve_left (Nat.cast_ne_zero.mpr (NeZero.ne K))
  ext y
  have hy := eq_of_slide hslide y
  rw [h0] at hy
  simp only [hf] at hy
  omega

/-- Two multisets of one size are equal exactly when their boundaries are. -/
theorem boundary_iff {A B S E S' E' : Multiset (ZMod K)} (hcard : A.card = B.card)
    (hA : A.map (· + 1) + S = A + E) (hB : B.map (· + 1) + S' = B + E') :
    A = B ↔ S + E' = S' + E := by
  constructor
  · rintro rfl
    have h : A.map (· + 1) + (S + E') = A.map (· + 1) + (S' + E) := by
      rw [← add_assoc, hA, ← add_assoc, hB, add_right_comm]
    exact add_left_cancel h
  · intro h
    apply eq_of_slides hcard
    have h' : A.map (· + 1) + B + (S + E') = A + B.map (· + 1) + (S + E') := by
      calc A.map (· + 1) + B + (S + E') = (A.map (· + 1) + S) + (B + E') := by abel
        _ = (A + E) + (B.map (· + 1) + S') := by rw [hA, hB]
        _ = A + B.map (· + 1) + (S' + E) := by abel
        _ = A + B.map (· + 1) + (S + E') := by rw [h]
    exact add_right_cancel h'

end Boundary

/-- Sliding a family of arcs exchanges its starts with its ends. -/
lemma slide_arcs {ι : Type*} (s : Finset ι) (a l : ι → ℕ) :
    (∑ i ∈ s, arc (a i) (l i)).map (· + 1) + ∑ i ∈ s, {a i}
      = ∑ i ∈ s, arc (a i) (l i) + ∑ i ∈ s, {a i + l i} := by
  rw [← Multiset.coe_mapAddMonoidHom, map_sum, ← Finset.sum_add_distrib, ← Finset.sum_add_distrib]
  exact Finset.sum_congr rfl fun i _ => slide_arc (a i) (l i)

/-- Two families of arcs with as many elements cover the same residues exactly when the starts of
the one with the ends of the other do. -/
theorem arcs_eq_iff {ι κ : Type*} {K : ℕ} (hK : 0 < K) (s : Finset ι) (t : Finset κ) (a l : ι → ℕ)
    (b m : κ → ℕ) (hlen : ∑ i ∈ s, l i = ∑ j ∈ t, m j) :
    residues K (∑ i ∈ s, arc (a i) (l i)) = residues K (∑ j ∈ t, arc (b j) (m j)) ↔
      residues K (∑ i ∈ s, {a i} + ∑ j ∈ t, {b j + m j})
        = residues K (∑ j ∈ t, {b j} + ∑ i ∈ s, {a i + l i}) := by
  have : NeZero K := ⟨hK.ne'⟩
  have hcast : ∀ m : Multiset ℕ,
      (m.map (· + 1)).map (Nat.cast : ℕ → ZMod K) = (m.map Nat.cast).map (· + 1) := by
    intro m
    simp
  have hs := congrArg (Multiset.map (Nat.cast : ℕ → ZMod K)) (slide_arcs s a l)
  have ht := congrArg (Multiset.map (Nat.cast : ℕ → ZMod K)) (slide_arcs t b m)
  rw [Multiset.map_add, Multiset.map_add, hcast] at hs ht
  rw [residues_eq_iff, residues_eq_iff, Multiset.map_add, Multiset.map_add]
  refine boundary_iff ?_ hs ht
  simp only [Multiset.card_map, Multiset.card_sum, card_arc, hlen]

/-- Residues of a union. -/
lemma residues_sum {ι : Type*} (K : ℕ) (s : Finset ι) (f : ι → Multiset ℕ) :
    residues K (∑ i ∈ s, f i) = ∑ i ∈ s, residues K (f i) :=
  map_sum (Multiset.mapAddMonoidHom (· % K)) f s

/-- An initial segment is an arc that begins at zero. -/
lemma arc_zero (l : ℕ) : arc 0 l = Multiset.range l := by simp [arc]

/-- The residues of the ends of arcs that begin at zero. -/
private def endsOf {ι : Type*} (K : ℕ) (s : Finset ι) (n : ι → ℕ) : Multiset ℕ := ∑ i ∈ s, {n i % K}

/-- Ends on multiples of `K` are zero. -/
private lemma endsOf_dvd {ι : Type*} {K : ℕ} {s : Finset ι} {n : ι → ℕ} (h : ∀ i ∈ s, K ∣ n i) :
    endsOf K s n = ∑ _i ∈ s, {0} :=
  Finset.sum_congr rfl fun i hi => by rw [Nat.mod_eq_zero_of_dvd (h i hi)]

/-- The ends that are zero are those on multiples of `K`. -/
private lemma count_endsOf {ι : Type*} (K : ℕ) (s : Finset ι) (n : ι → ℕ) :
    (endsOf K s n).count 0 = (s.filter fun i => K ∣ n i).card := by
  rw [endsOf, Multiset.count_sum', Finset.card_filter]
  refine Finset.sum_congr rfl fun i _ => ?_
  rw [Multiset.count_singleton]
  simp only [eq_comm (a := 0), Nat.dvd_iff_mod_eq_zero]

/-- Initial segments wrapped around the circle add up to one initial segment exactly when at most
one of their lengths is not a multiple of `K`. -/
theorem wraps_eq_iff {ι : Type*} [DecidableEq ι] {K : ℕ} (hK : 0 < K) (s : Finset ι) (n : ι → ℕ) :
    ∑ i ∈ s, residues K (Multiset.range (n i)) = residues K (Multiset.range (∑ i ∈ s, n i)) ↔
      (s.filter fun i => ¬ K ∣ n i).card ≤ 1 := by
  have hends : ∑ i ∈ s, residues K {n i} = endsOf K s n := rfl
  have hzeros : ∑ _i ∈ s, residues K {0} = ∑ _i ∈ s, {0} :=
    Finset.sum_congr rfl fun _ _ => by rw [residues, Multiset.map_singleton, Nat.zero_mod]
  have harcs := arcs_eq_iff hK s (Finset.univ : Finset Unit) (fun _ => 0) n (fun _ => 0)
    (fun _ => ∑ i ∈ s, n i) (by simp)
  simp only [arc_zero, Finset.univ_unique, Finset.sum_singleton, zero_add,
    residues_add, residues_sum, hzeros, hends] at harcs
  rw [harcs, residues, residues, Multiset.map_singleton, Multiset.map_singleton, Nat.zero_mod]
  have hsplit := Finset.card_filter_add_card_filter_not (s := s) (fun i => K ∣ n i)
  constructor
  · intro h
    have hc := congrArg (Multiset.count 0) h
    rw [Multiset.count_add, Multiset.count_add, count_endsOf, Multiset.count_sum'] at hc
    simp only [Multiset.count_singleton_self, Finset.sum_const, smul_eq_mul, mul_one] at hc
    omega
  · intro h
    rcases Nat.le_one_iff_eq_zero_or_eq_one.mp h with h0 | h1
    · have hall : ∀ i ∈ s, K ∣ n i := by
        simpa using Finset.filter_eq_empty_iff.mp (Finset.card_eq_zero.mp h0)
      rw [Nat.mod_eq_zero_of_dvd (Finset.dvd_sum hall), endsOf_dvd hall, add_comm]
    · obtain ⟨k, hk⟩ := Finset.card_eq_one.mp h1
      have hmem : k ∈ s := (Finset.mem_filter.mp (hk ▸ Finset.mem_singleton_self k)).1
      have hrest : ∀ i ∈ s.erase k, K ∣ n i := by
        intro i hi
        by_contra hn
        have : i ∈ s.filter fun i => ¬ K ∣ n i :=
          Finset.mem_filter.mpr ⟨Finset.mem_of_mem_erase hi, hn⟩
        rw [hk, Finset.mem_singleton] at this
        exact Finset.ne_of_mem_erase hi this
      have hmod : (∑ i ∈ s, n i) % K = n k % K := by
        rw [← Finset.add_sum_erase s n hmem, Nat.add_mod,
          Nat.mod_eq_zero_of_dvd (Finset.dvd_sum hrest), add_zero, Nat.mod_mod]
      have hsum : endsOf K s n = {n k % K} + ∑ _i ∈ s.erase k, {0} := by
        rw [← endsOf_dvd hrest]
        exact (Finset.add_sum_erase s _ hmem).symm
      rw [hmod, hsum, ← Finset.add_sum_erase s (fun _ => ({0} : Multiset ℕ)) hmem]
      abel

/-- Counting in rounds of `A` consecutive numbers, each round `N` after the one before. -/
def rounds (A N R : ℕ) : Multiset ℕ := (Multiset.range R).map fun j => j % A + j / A * N

/-- One more round is one more arc. -/
private lemma rounds_add {A : ℕ} (hA : 0 < A) (N q : ℕ) {r : ℕ} (hr : r ≤ A) :
    rounds A N (A * q + r) = rounds A N (A * q) + arc (q * N) r := by
  rw [rounds, Multiset.range_add, Multiset.map_add, Multiset.map_map]
  congr 1
  refine Multiset.map_congr rfl fun j hj => ?_
  have hj' : j < A := (Multiset.mem_range.mp hj).trans_le hr
  rw [Function.comp_apply, Nat.mul_add_mod, Nat.mod_eq_of_lt hj', Nat.mul_add_div hA,
    Nat.div_eq_of_lt hj', add_zero, add_comm]

/-- Counting in rounds runs through arcs at regular distances, the last one possibly shorter. -/
lemma rounds_eq {A : ℕ} (hA : 0 < A) (N R : ℕ) :
    rounds A N R = ∑ t ∈ Finset.range (R / A), arc (t * N) A + arc (R / A * N) (R % A) := by
  have hfull : ∀ q, rounds A N (A * q) = ∑ t ∈ Finset.range q, arc (t * N) A := by
    intro q
    induction q with
    | zero => rfl
    | succ q ih => rw [Finset.sum_range_succ, ← ih, Nat.mul_add_one, rounds_add hA N q le_rfl]
  nth_rewrite 1 [← Nat.div_add_mod R A]
  rw [rounds_add hA N _ (Nat.mod_lt R hA).le, hfull]

/-- Counting in rounds gives the residues of counting straight on exactly when, modulo `K`,
the numbers where a gap ends together with `R` are those where a gap begins together with the
end of the last round. -/
theorem rounds_eq_iff {K A : ℕ} (hK : 0 < K) (hA : 0 < A) (N R : ℕ) :
    residues K (rounds A N R) = residues K (Multiset.range R) ↔
      residues K ((Multiset.range (R / A)).map (fun t => (t + 1) * N) + {R})
        = residues K ((Multiset.range (R / A)).map (fun t => t * N + A) + {R / A * N + R % A}) := by
  set l : ℕ → ℕ := fun t => if t < R / A then A else R % A with hl
  have hfull : ∀ t ∈ Finset.range (R / A), l t = A := fun t ht => if_pos (Finset.mem_range.mp ht)
  have hlast : l (R / A) = R % A := if_neg (lt_irrefl _)
  have hrounds : ∑ t ∈ Finset.range (R / A + 1), arc (t * N) (l t) = rounds A N R := by
    rw [Finset.sum_range_succ, hlast, rounds_eq hA]
    exact congrArg (· + _) (Finset.sum_congr rfl fun t ht => by rw [hfull t ht])
  have hends : ∑ t ∈ Finset.range (R / A + 1), {t * N + l t}
      = (Multiset.range (R / A)).map (fun t => t * N + A) + {R / A * N + R % A} := by
    rw [Finset.sum_range_succ, hlast, Finset.sum_congr rfl fun t ht => by rw [hfull t ht],
      ← Multiset.sum_map_singleton ((Multiset.range (R / A)).map fun t => t * N + A),
      Multiset.map_map]
    rfl
  have hstarts : ∑ t ∈ Finset.range (R / A + 1), {t * N}
      = (Multiset.range (R / A)).map (fun t => (t + 1) * N) + {0} := by
    rw [Finset.sum_range_succ', zero_mul,
      ← Multiset.sum_map_singleton ((Multiset.range (R / A)).map fun t => (t + 1) * N),
      Multiset.map_map]
    rfl
  have hlen : ∑ t ∈ Finset.range (R / A + 1), l t = ∑ _u : Unit, R := by
    rw [Finset.sum_range_succ, hlast, Finset.sum_congr rfl hfull, Finset.sum_const,
      Finset.card_range, smul_eq_mul, Nat.div_add_mod', Fintype.sum_unique]
  have harcs := arcs_eq_iff hK (Finset.range (R / A + 1)) (Finset.univ : Finset Unit) (· * N) l
    (fun _ => 0) (fun _ => R) hlen
  rw [hrounds, hends, hstarts, Fintype.sum_unique, Fintype.sum_unique, Fintype.sum_unique, arc_zero,
    zero_add, add_right_comm, add_comm {0}] at harcs
  rw [harcs, residues_add K _ {0}, residues_add K _ {0}, add_left_inj]

end RespBench.Lib.Arcs
