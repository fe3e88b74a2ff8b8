import RespBench.Random.Judge
import RespBench.Random.Stream

/-!
# The generator of the Ruby engine

The Ruby class writes the rejection test of `java.util.Random` as it stands there, but its integers
do not overflow, so that the first round of a draw is always accepted. `parity_iff` says for which
bounds the two draw the same values with every seed.
-/

namespace RespBench.Random
open RespBench.Lib RespBench.Lib.Runs

/-- The Ruby engine's port. -/
def rubyPort : Port where
  State := Ruby.JavaRandom
  new seed := .new seed.toInt
  nextInt fuel b r := r.next_int fuel b.1

/-- With enough rounds the Ruby class and `java.util.Random` return the same values. -/
def SameValues (seed : BitVec 64) (bounds : List Bound) : Prop :=
  ∃ vs, ∀ extra, javaPort.draws (2 ^ 48 + extra) seed bounds = .ok vs ∧
    rubyPort.draws (2 ^ 48 + extra) seed bounds = .ok vs

/-- In draws that all take one round from the state `s`, no bits are rejected. -/
def Unrejected : List Bound → ℕ → Prop
  | [], _ => True
  | b :: bs, s => (b.1.isPowerOfTwo ∨ Accepts b.1 (top31 (lcg s))) ∧ Unrejected bs (lcg s)

instance (bounds : List Bound) (s : ℕ) : Decidable (Unrejected bounds s) := by
  induction bounds generalizing s with
  | nil => exact instDecidableTrue
  | cons b bs ih => exact @instDecidableAnd _ _ _ (ih (lcg s))

/-! ## One round for each draw -/

/-- The value of the first round. -/
def once (b s : ℕ) : ℕ := if IsPow2 b then b * top31 (lcg s) / 2 ^ 31 else top31 (lcg s) % b

def onceFrom : List Bound → ℕ → List ℤ
  | [], _ => []
  | b :: bs, s => (once b.1 s : ℤ) :: onceFrom bs (lcg s)

/-- The representation of a state in the Ruby class. -/
def rubyRep (s : ℕ) : Ruby.JavaRandom := ⟨(s : ℤ)⟩

/-- The next bits in Ruby. -/
lemma ruby_next_bits (s : ℕ) : (rubyRep s).next_bits 31
    = ((top31 (lcg s) : ℤ), rubyRep (lcg s)) := by
  simp only [Ruby.JavaRandom.next_bits, rubyRep, Ruby.MULTIPLIER, Ruby.ADDEND, Ruby.MASK]
  rw [int_step, int_high_bits]

/-- The sum that is tested is never negative. -/
lemma ruby_next_int (fuel : ℕ) (b : Bound) (s : ℕ) :
    rubyPort.nextInt (fuel + 1) b (rubyRep s) = .ok ((once b.1 s : ℤ), rubyRep (lcg s)) := by
  have hb := b.2
  have hrem : ((top31 (lcg s) : ℕ) : ℤ) % (b.1 : ℤ) = (top31 (lcg s) % b.1 : ℕ) :=
    (Int.natCast_mod _ _).symm
  simp only [rubyPort, Ruby.JavaRandom.next_int, Ruby.JavaRandom.rejectionLoop, int_pow2 hb,
    ruby_next_bits, int_product, hrem, int_sum hb.1, once]
  rw [if_neg (by omega), if_pos (Int.natCast_nonneg _)]
  split <;> rfl

/-- Bounded draws in a row take one round each in Ruby. -/
lemma ruby_nextInts (fuel : ℕ) (bounds : List Bound) (s : ℕ) :
    rubyPort.nextInts (fuel + 1) bounds (rubyRep s) = .ok (onceFrom bounds s) := by
  induction bounds generalizing s with
  | nil => rfl
  | cons b bs ih =>
    simp only [Port.nextInts, ruby_next_int, ok_bind, ih]
    rfl

/-- The draws from a seed take one round each in Ruby. -/
lemma ruby_draws (fuel : ℕ) (seed : BitVec 64) (bounds : List Bound) :
    rubyPort.draws (fuel + 1) seed bounds = .ok (onceFrom bounds (scramble seed)) := by
  have hnew : rubyPort.new seed = rubyRep (scramble seed) :=
    congrArg Ruby.JavaRandom.mk (int_scramble seed)
  rw [Port.draws, hnew, ruby_nextInts]

/-! ## As many rounds as a draw needs -/

def nextFrom : List Bound → ℕ → List ℤ
  | [], _ => []
  | b :: bs, s => ((next b s).1 : ℤ) :: nextFrom bs (next b s).2

/-- The draws in a row are the next values. -/
lemma drawsFrom_eq (extra : ℕ) (bounds : List Bound) (s : ℕ) :
    drawsFrom (2 ^ 48 + extra) bounds s = .ok (nextFrom bounds s) := by
  induction bounds generalizing s with
  | nil => rfl
  | cons b bs ih =>
    rw [drawsFrom, draw_eq_next, ok_bind]
    dsimp only
    rw [ih, ok_bind]
    rfl

/-- The values agree when the rounds of Ruby are those of Java. -/
lemma sameValues_iff {seed : BitVec 64} {bounds : List Bound} :
    SameValues seed bounds ↔ nextFrom bounds (scramble seed) = onceFrom bounds (scramble seed) := by
  have hjava (extra : ℕ) : javaPort.draws (2 ^ 48 + extra) seed bounds
    = .ok (nextFrom bounds (scramble seed)) := by
    rw [javaPort_refines.draws_eq, drawsFrom_eq]
  have hruby (extra : ℕ) : rubyPort.draws (2 ^ 48 + extra) seed bounds
    = .ok (onceFrom bounds (scramble seed)) := by
    rw [show 2 ^ 48 + extra = 2 ^ 48 - 1 + extra + 1 by omega, ruby_draws]
  constructor
  · rintro ⟨vs, hvs⟩
    obtain ⟨hvs, hvs'⟩ := hvs 0
    rw [hjava] at hvs
    rw [hruby] at hvs'
    exact Except.ok.inj (hvs.trans hvs'.symm)
  · intro h
    exact ⟨_, fun extra => ⟨hjava extra, h ▸ hruby extra⟩⟩

/-- A bound is a power of two when its only bit is set. -/
lemma isPow2_iff (b : Bound) : IsPow2 b.1 ↔ b.1.isPowerOfTwo := IntBits.and_two_pow_sub b.2.1 b.2.2

/-- A draw that accepts its first bits takes one round. -/
lemma next_eq_once {b : Bound} {s : ℕ} (h : b.1.isPowerOfTwo ∨ Accepts b.1 (top31 (lcg s))) :
    next b s = (once b.1 s, lcg s) := by
  unfold once
  by_cases hpow : IsPow2 b.1
  · rw [next_of_isPow2 hpow, if_pos hpow]
  · rw [next_of_accepts hpow (h.resolve_left ((isPow2_iff b).not.mp hpow)), if_neg hpow]

/-- Draws that accept their first bits take one round each. -/
lemma nextFrom_eq_onceFrom {bounds : List Bound} {s : ℕ} (h : Unrejected bounds s) :
    nextFrom bounds s = onceFrom bounds s := by
  induction bounds generalizing s with
  | nil => rfl
  | cons b bs ih =>
    obtain ⟨hb, hbs⟩ := h
    rw [nextFrom, onceFrom, next_eq_once hb, ih hbs]

/-! ## Bounds that reject -/

/-- A bound that is no power of two rejects the largest bits. -/
lemma not_accepts_max {b : Bound} (hb : ¬ IsPow2 b.1) : ¬ Accepts b.1 (2 ^ 31 - 1) := by
  intro haccepts
  have hpos := b.2.1
  have hmod := Nat.mod_lt (2 ^ 31 - 1) hpos
  unfold Accepts at haccepts
  have hlast : (2 ^ 31 - 1) % b.1 = b.1 - 1 := by omega
  have hdvd : b.1 ∣ 2 ^ 31 := by
    have hsum := Nat.mod_add_div (2 ^ 31 - 1) b.1
    refine ⟨(2 ^ 31 - 1) / b.1 + 1, ?_⟩
    rw [hlast] at hsum
    rw [Nat.mul_add_one]
    omega
  obtain ⟨k, -, hk⟩ := (Nat.dvd_prime_pow Nat.prime_two).mp hdvd
  exact hb ((isPow2_iff b).mpr ⟨k, hk⟩)

/-- When the largest bits come first and bits of the lower half next, the first draw returns the
latter. -/
lemma next_of_max {b : Bound} (hb : ¬ IsPow2 b.1) {s : ℕ} (hmax : top31 (lcg s) = 2 ^ 31 - 1)
    (hlow : top31 (lcg (lcg s)) < 2 ^ 30) : (next b s).1 = top31 (lcg (lcg s)) % b.1 := by
  have hreject : ¬ Accepts b.1 (top31 (lcg s)) := hmax ▸ not_accepts_max hb
  rw [next_of_not_accepts hb hreject, next_of_accepts hb (accepts_of_lt_half b.2.2 hlow)]

/-- A bound for which the first round of every draw has the right value is a power of two. -/
lemma isPow2_of_next_eq {b : Bound} (h : ∀ s < 2 ^ 48, (next b s).1 = once b.1 s) : IsPow2 b.1 := by
  by_contra hb
  have hdvd : ∀ t < 2 ^ 48, top31 t = 2 ^ 31 - 1 → ∀ u < 2 ^ 30, top31 (lcg t) = u →
      (b.1 : ℤ) ∣ u - (2 ^ 31 - 1 : ℕ) := by
    intro t ht hmax u hu hlow
    obtain ⟨s, hs, rfl⟩ := exists_lcg_eq ht
    have hs := h s hs
    rw [next_of_max hb hmax (hlow ▸ hu), once, if_neg hb, hmax, hlow] at hs
    exact Nat.modEq_iff_dvd.mp hs.symm
  -- two states with the largest bits, and what follows them
  have hone := eq_one_of_dvd (hdvd ((2 ^ 31 - 1) * 2 ^ 17) (by norm_num) (by decide) 554899859
    (by norm_num) (by decide))
    (hdvd ((2 ^ 31 - 1) * 2 ^ 17 + 3) (by norm_num) (by decide) 555476982 (by norm_num) (by decide))
      (by decide)
  exact hb ((isPow2_iff b).mpr ⟨0, hone⟩)

/-- Bounds for which one round always does are powers of two. -/
lemma isPow2_of_nextFrom_eq {bounds : List Bound}
    (h : ∀ s < 2 ^ 48, nextFrom bounds s = onceFrom bounds s) :
    ∀ b ∈ bounds, b.1.isPowerOfTwo := by
  induction bounds with
  | nil => exact fun _ hb => (by cases hb)
  | cons b bs ih =>
    have hpow : IsPow2 b.1 := isPow2_of_next_eq fun s hs =>
      by exact_mod_cast (List.cons.inj (h s hs)).1
    refine List.forall_mem_cons.mpr ⟨(isPow2_iff b).mp hpow, ih fun t ht => ?_⟩
    obtain ⟨s, hs, rfl⟩ := exists_lcg_eq ht
    have htail := (List.cons.inj (h s hs)).2
    rwa [next_of_isPow2 hpow] at htail

/-- Powers of two reject nothing. -/
lemma unrejected_of_pow2 {bounds : List Bound} (h : ∀ b ∈ bounds, b.1.isPowerOfTwo) (s : ℕ) :
    Unrejected bounds s := by
  induction bounds generalizing s with
  | nil => trivial
  | cons b bs ih =>
    obtain ⟨hb, hbs⟩ := List.forall_mem_cons.mp h
    exact ⟨.inl hb, ih hbs (lcg s)⟩

/-- The values are the same from a seed from which no bits are rejected; and they are the same from
every seed exactly when all bounds are powers of two. -/
theorem parity_iff (bounds : List Bound) :
    (∀ seed, Unrejected bounds (scramble seed) → SameValues seed bounds) ∧
      ((∀ seed, SameValues seed bounds) ↔ ∀ b ∈ bounds, b.1.isPowerOfTwo) := by
  have hunrejected : ∀ seed, Unrejected bounds (scramble seed) → SameValues seed bounds :=
    fun seed h => sameValues_iff.mpr (nextFrom_eq_onceFrom h)
  refine ⟨hunrejected, ?_, ?_⟩
  · intro h
    refine isPow2_of_nextFrom_eq fun s hs => ?_
    obtain ⟨seed, rfl⟩ := exists_scramble hs
    exact sameValues_iff.mp (h seed)
  · intro h seed
    exact hunrejected seed (unrejected_of_pow2 h _)

/-- The seed 42 and the bounds 100, 16 and 1000, for which no bits are rejected. -/
theorem fortyTwo_sameValues :
    SameValues 42#64 [⟨100, by norm_num⟩, ⟨16, by norm_num⟩, ⟨1000, by norm_num⟩] :=
  (parity_iff _).1 42#64 ⟨.inr (by decide), .inl ⟨4, rfl⟩, .inr (by decide), trivial⟩

/-- The first two bits of the seed 0 are rejected for the bound `2 ^ 30 + 1`, and Ruby uses them. -/
theorem zero_not_sameValues : rubyPort.draws 1 0#64 [⟨2 ^ 30 + 1, by norm_num⟩] = .ok [495999535] ∧
    javaPort.draws 3 0#64 [⟨2 ^ 30 + 1, by norm_num⟩] = .ok [516548029] ∧
      ¬ SameValues 0#64 [⟨2 ^ 30 + 1, by norm_num⟩] := by
  have hruby : rubyPort.draws 1 0#64 [⟨2 ^ 30 + 1, by norm_num⟩] = .ok [495999535] :=
    ruby_draws 0 0#64 _
  have hjava : javaPort.draws 3 0#64 [⟨2 ^ 30 + 1, by norm_num⟩] = .ok [516548029] := rfl
  refine ⟨hruby, hjava, fun h => ?_⟩
  have hb : ¬ IsPow2 (2 ^ 30 + 1) := by decide
  have hvalue : (next ⟨2 ^ 30 + 1, by norm_num⟩ (scramble 0#64)).1 = 516548029 := by
    rw [next_of_not_accepts hb (by decide), next_of_not_accepts hb (by decide),
      next_of_accepts hb (by decide)]
    rfl
  have hsame := (List.cons.inj (sameValues_iff.mp h)).1
  rw [hvalue] at hsame
  exact absurd hsame (by decide)

end RespBench.Random
