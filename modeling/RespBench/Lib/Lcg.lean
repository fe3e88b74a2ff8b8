import Mathlib

/-!
# Linear congruential generators

The affine map `x ↦ a * x + c` over the naturals and its reduction modulo a power of two. Under the
Hull–Dobell conditions for such a modulus (`a % 4 = 1` and `c` odd) the map moves every residue to
every other one. For the state `0` this is `exists_iterate_eq_zero`, with an index below the
modulus, and the other targets are moved there by a translation (`exists_iterate_eq`). The proof
goes through the closed form of `2 ^ k` steps (`iterate_two_pow`): an affine map whose slope is `1`
modulo `2 ^ (k + 2)` and whose offset is an odd multiple of `2 ^ k`, so that `2 ^ k` steps clear bit
`k` of a state whose lower bits are clear.
-/

namespace RespBench.Lib.Lcg

/-- The affine map over the naturals. -/
def affine (a c x : ℕ) : ℕ := a * x + c

/-- One step of the generator modulo `m`. -/
def step (a c m x : ℕ) : ℕ := (a * x + c) % m

/-- Reducing at each step or at the end is the same. -/
lemma step_iterate (a c m x n : ℕ) : (step a c m)^[n] x % m = (affine a c)^[n] x % m := by
  induction n with
  | zero => rfl
  | succ n ih =>
    rw [Function.iterate_succ_apply', Function.iterate_succ_apply']
    simp only [step, affine, Nat.mod_mod]
    exact (Nat.ModEq.mul_left a ih).add_right c

/-- A step stays below the modulus. -/
lemma step_lt {m : ℕ} (hm : 0 < m) (a c x : ℕ) : step a c m x < m :=
  Nat.mod_lt _ hm

/-- So do all steps. -/
lemma step_iterate_lt {a c m x : ℕ} (hx : x < m) (n : ℕ) : (step a c m)^[n] x < m := by
  induction n with
  | zero => exact hx
  | succ n _ =>
    rw [Function.iterate_succ_apply']
    exact step_lt (by omega) a c _

/-- `2 ^ k` steps form an affine map of slope `1` modulo `2 ^ (k + 2)` and offset an odd multiple
of `2 ^ k`. -/
lemma iterate_two_pow {a c : ℕ} (ha : a % 4 = 1) (hc : c % 2 = 1) (k : ℕ) :
    ∃ t s, ∀ x, (affine a c)^[2 ^ k] x = (1 + 2 ^ (k + 2) * t) * x + 2 ^ k * (2 * s + 1) := by
  induction k with
  | zero =>
    refine ⟨a / 4, c / 2, fun x => ?_⟩
    have h4 := Nat.mod_add_div a 4
    have h2 := Nat.mod_add_div c 2
    rw [ha] at h4
    rw [hc] at h2
    simp only [pow_zero, Function.iterate_one, affine, zero_add, one_mul]
    rw [show (2 : ℕ) ^ 2 = 4 from rfl, h4, add_comm (2 * (c / 2)) 1, h2]
  | succ k ih =>
    obtain ⟨t, s, h⟩ := ih
    refine ⟨t + 2 ^ (k + 1) * t * t, s + 2 ^ k * t * (2 * s + 1), fun x => ?_⟩
    rw [pow_succ, mul_two, Function.iterate_add_apply, h, h]
    ring

/-- Two odd multiples of a power of two add up to a multiple of the next power. -/
lemma dvd_add_of_odd {k x d : ℕ} (hx : x % 2 ^ (k + 1) = 2 ^ k) (hd : d % 2 ^ (k + 1) = 2 ^ k) :
    2 ^ (k + 1) ∣ x + d := by
  apply Nat.dvd_of_mod_eq_zero
  rw [Nat.add_mod, hx, hd, ← two_mul, ← pow_succ', Nat.mod_self]

/-- A multiple of `2 ^ k` is a multiple of `2 ^ (k + 1)` or leaves exactly `2 ^ k`. -/
lemma mod_of_dvd {k x : ℕ} (h : 2 ^ k ∣ x) : 2 ^ (k + 1) ∣ x ∨ x % 2 ^ (k + 1) = 2 ^ k := by
  obtain ⟨y, rfl⟩ := h
  rcases Nat.mod_two_eq_zero_or_one y with hy | hy
  · left
    exact pow_succ 2 k ▸ Nat.mul_dvd_mul_left _ (Nat.dvd_of_mod_eq_zero hy)
  · right
    rw [pow_succ, Nat.mul_mod_mul_left, hy, mul_one]

/-- From a multiple of `2 ^ k` that is not one of `2 ^ (k + 1)`, `2 ^ k` steps reach one. -/
lemma dvd_iterate_two_pow {a c : ℕ} (ha : a % 4 = 1) (hc : c % 2 = 1) {k x : ℕ}
    (hx : x % 2 ^ (k + 1) = 2 ^ k) : 2 ^ (k + 1) ∣ (affine a c)^[2 ^ k] x := by
  obtain ⟨t, s, h⟩ := iterate_two_pow ha hc k
  rw [h]
  apply dvd_add_of_odd
  · rw [show (1 + 2 ^ (k + 2) * t) * x = x + 2 ^ (k + 1) * (2 * t * x) from by ring,
      Nat.add_mul_mod_self_left, hx]
  · rw [show 2 ^ k * (2 * s + 1) = 2 ^ k + 2 ^ (k + 1) * s from by ring, Nat.add_mul_mod_self_left]
    exact Nat.mod_eq_of_lt (Nat.pow_lt_pow_right (by norm_num) (by omega))

/-- Within `2 ^ k` steps the generator visits a multiple of `2 ^ k`. -/
theorem exists_dvd_iterate {a c : ℕ} (ha : a % 4 = 1) (hc : c % 2 = 1) (k x : ℕ) :
    ∃ n < 2 ^ k, 2 ^ k ∣ (affine a c)^[n] x := by
  induction k with
  | zero => exact ⟨0, by norm_num, by simp⟩
  | succ k ih =>
    obtain ⟨n, hn, hd⟩ := ih
    have hk : 2 ^ (k + 1) = 2 ^ k + 2 ^ k := by ring
    rcases mod_of_dvd hd with hd' | hodd
    · exact ⟨n, by omega, hd'⟩
    · refine ⟨2 ^ k + n, by omega, ?_⟩
      rw [Function.iterate_add_apply]
      exact dvd_iterate_two_pow ha hc hodd

/-- Within `2 ^ k` steps the generator modulo `2 ^ k` visits the state `0`. -/
theorem exists_iterate_eq_zero {a c k x : ℕ} (ha : a % 4 = 1) (hc : c % 2 = 1) (hx : x < 2 ^ k) :
    ∃ n < 2 ^ k, (step a c (2 ^ k))^[n] x = 0 := by
  obtain ⟨n, hn, hd⟩ := exists_dvd_iterate ha hc k x
  refine ⟨n, hn, ?_⟩
  have hmod := step_iterate a c (2 ^ k) x n
  rw [Nat.mod_eq_of_lt (step_iterate_lt hx n)] at hmod
  rw [hmod]
  exact Nat.mod_eq_zero_of_dvd hd

/-- Translating the states by `y` changes the offset of the map. -/
lemma affine_iterate_add {b : ℕ} (c y z n : ℕ) :
    (affine (b + 1) c)^[n] (z + y) = (affine (b + 1) (c + b * y))^[n] z + y := by
  induction n generalizing z with
  | zero => rfl
  | succ n ih =>
    rw [Function.iterate_succ_apply, Function.iterate_succ_apply, ← ih]
    congr 1
    simp only [affine]
    ring

/-- Congruent numbers stay congruent. -/
lemma affine_iterate_modEq {m x y : ℕ} (a c n : ℕ) (h : x ≡ y [MOD m]) :
    (affine a c)^[n] x ≡ (affine a c)^[n] y [MOD m] := by
  induction n generalizing x y with
  | zero => exact h
  | succ n ih => exact ih ((h.mul_left a).add_right c)

/-- From every state the generator modulo `2 ^ k` visits every other one. -/
theorem exists_iterate_eq {a c k x y : ℕ} (ha : a % 4 = 1) (hc : c % 2 = 1) (hx : x < 2 ^ k)
    (hy : y < 2 ^ k) :
    ∃ n, (step a c (2 ^ k))^[n] x = y := by
  obtain ⟨b, rfl⟩ : ∃ b, a = b + 1 := ⟨a - 1, by omega⟩
  have hb : b * y % 2 = 0 := by
    rw [Nat.mul_mod, show b % 2 = 0 by omega, zero_mul, Nat.zero_mod]
  -- the translated generator visits 0
  obtain ⟨n, -, hd⟩ := exists_dvd_iterate ha (show (c + b * y) % 2 = 1 by omega) k (x + 2 ^ k - y)
  refine ⟨n, ?_⟩
  have hshift := affine_iterate_add (b := b) c y (x + 2 ^ k - y) n
  rw [Nat.sub_add_cancel (by omega)] at hshift
  have hmod : (affine (b + 1) c)^[n] x ≡ y [MOD 2 ^ k] :=
    calc (affine (b + 1) c)^[n] x ≡ (affine (b + 1) c)^[n] (x + 2 ^ k) [MOD 2 ^ k] :=
          affine_iterate_modEq _ _ _ (by simp [Nat.ModEq])
      _ = (affine (b + 1) (c + b * y))^[n] (x + 2 ^ k - y) + y := hshift
      _ ≡ 0 + y [MOD 2 ^ k] := Nat.ModEq.add_right y ((Nat.modEq_zero_iff_dvd).mpr hd)
      _ = y := zero_add y
  have hstep := step_iterate (b + 1) c (2 ^ k) x n
  rwa [Nat.mod_eq_of_lt (step_iterate_lt hx n), hmod, Nat.mod_eq_of_lt hy] at hstep

end RespBench.Lib.Lcg
