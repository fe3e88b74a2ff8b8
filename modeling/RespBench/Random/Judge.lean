import RespBench.Lib.Rejection
import RespBench.Random.Basic

/-!
# Judged rounds of the 48-bit generator

A bounded draw from the 48-bit state, when all that is known of it is what becomes of the 31 bits of
a round. The generator has its full period, so every 31 bits come up in a first round
(`exists_top31`), and from every state on in some round: the draws return as soon as no bits fault
and some are accepted (`exists_lcgRound_draw`).
-/

namespace RespBench.Random
open RespBench.Lib

/-- The rounds of the generator, judged by their 31 bits. -/
def lcgRound (judge : ℕ → Option (Option ℤ)) : Round ℕ ℤ :=
  Round.judged (fun s => (top31 (lcg s), lcg s)) judge

variable {judge : ℕ → Option (Option ℤ)}

/-- A round judges the high bits of the next state. -/
lemma lcgRound_eq (judge : ℕ → Option (Option ℤ)) (s : ℕ) :
    lcgRound judge s = (judge (top31 (lcg s))).map fun value => (value, lcg s) := rfl

/-- A round that judges the next state. -/
lemma lcgRound_of_some {s : ℕ} {value : Option ℤ} (h : judge (top31 (lcg s)) = some value) :
    lcgRound judge s = some (value, lcg s) := by
  rw [lcgRound_eq, h, Option.map_some]

/-- A round of a generator that represents the 48-bit state, when the accepted values are taken
further. -/
lemma map_eq_lcgRound {R A : Type} {round : Round R A} {rep : ℕ → R}
    {j : ℕ → Option (Option A)} {s : ℕ} (f : A → ℤ)
    (h : round (rep s) = (j (top31 (lcg s))).map fun value => (value, rep (lcg s))) :
    round.map f (rep s)
      = (lcgRound (fun bits => (j bits).map fun value => value.map f) s).map fun r =>
        (r.1, rep r.2) := by
  rw [Round.map, h, lcgRound_eq, Option.map_map, Option.map_map, Option.map_map]
  rfl

/-- A round leaves a state. -/
lemma lcgRound_lt (s : ℕ) (value : Option ℤ) (t : ℕ) (h : lcgRound judge s = some (value, t)) :
    t < 2 ^ 48 := by
  rw [lcgRound_eq] at h
  obtain ⟨_, -, hr⟩ := Option.map_eq_some_iff.mp h
  cases hr
  exact lcg_lt s

/-- Every state leads to every other. -/
lemma exists_lcg_iterate {s t : ℕ} (hs : s < 2 ^ 48) (ht : t < 2 ^ 48) : ∃ n, lcg^[n] s = t :=
  Lcg.exists_iterate_eq (by norm_num) (by norm_num) hs ht

/-- Every state has one before it. -/
lemma exists_lcg_eq {t : ℕ} (ht : t < 2 ^ 48) : ∃ s < 2 ^ 48, lcg s = t := by
  obtain ⟨n, hn⟩ := exists_lcg_iterate (lcg_lt t) ht
  cases n with
  | zero => exact ⟨t, ht, hn⟩
  | succ n =>
    rw [Function.iterate_succ_apply'] at hn
    exact ⟨lcg^[n] (lcg t), Lcg.step_iterate_lt (lcg_lt t) n, hn⟩

/-- High bits of any value. -/
lemma top31_mul {bits : ℕ} : top31 (bits * 2 ^ 17) = bits := Nat.mul_div_cancel _ (by norm_num)

/-- Every 31 bits are those of a first round. -/
lemma exists_top31 {bits : ℕ} (h : bits < 2 ^ 31) : ∃ s < 2 ^ 48, top31 (lcg s) = bits := by
  obtain ⟨s, hs, hlcg⟩ := exists_lcg_eq (t := bits * 2 ^ 17) (by omega)
  exact ⟨s, hs, by rw [hlcg, top31_mul]⟩

/-- Every state is the first one of a seed. -/
lemma exists_scramble {s : ℕ} (hs : s < 2 ^ 48) : ∃ seed, scramble seed = s := by
  have hx : s ^^^ 0x5DEECE66D < 2 ^ 48 := Nat.xor_lt_two_pow hs (by norm_num)
  refine ⟨BitVec.ofNat 64 (s ^^^ 0x5DEECE66D), ?_⟩
  rw [scramble, BitVec.toNat_ofNat, Nat.mod_eq_of_lt (hx.trans (by norm_num)),
    Nat.xor_assoc, Nat.xor_self, Nat.xor_zero, Nat.mod_eq_of_lt hs]

/-- A draw returns when a state on its way is accepted and none faults. -/
lemma exists_draw_of_iterate (hfault : ∀ bits < 2 ^ 31, judge bits ≠ none) {n s : ℕ} {v : ℤ}
    (h : judge (top31 (lcg^[n + 1] s)) = some (some v)) :
    ∃ fuel r, (lcgRound judge).draw fuel s = some r := by
  induction n generalizing s with
  | zero => exact ⟨1, (v, lcg s), Round.draw_of_accept (lcgRound_of_some h) 0⟩
  | succ n ih =>
    obtain ⟨value, hvalue⟩ := Option.ne_none_iff_exists'.mp (hfault _ (top31_lcg_lt s))
    cases value with
    | none =>
      obtain ⟨fuel, r, hr⟩ := ih (s := lcg s) h
      exact ⟨fuel + 1, r, (Round.draw_of_reject (lcgRound_of_some hvalue) fuel).trans hr⟩
    | some w => exact ⟨1, (w, lcg s), Round.draw_of_accept (lcgRound_of_some hvalue) 0⟩

/-- Every draw returns when some bits are accepted and none fault. -/
theorem exists_lcgRound_draw (hfault : ∀ bits < 2 ^ 31, judge bits ≠ none) {bits : ℕ}
    (hbits : bits < 2 ^ 31) {v : ℤ} (h : judge bits = some (some v)) (s : ℕ) :
    ∃ fuel r, (lcgRound judge).draw fuel s = some r := by
  obtain ⟨n, hn⟩ := exists_lcg_iterate (lcg_lt s) (show bits * 2 ^ 17 < 2 ^ 48 by omega)
  apply exists_draw_of_iterate hfault (n := n) (v := v)
  rw [Function.iterate_succ_apply, hn, top31_mul, h]

end RespBench.Random
