import RespBench.Lib.Lcg
import RespBench.Lib.Runs

/-!
# The 48-bit generator

What the `JavaRandom` classes of the engines have in common, over natural numbers: the 48-bit linear
congruential state, its top 31 bits, and the bounded draw with its power-of-two path and its
rejection loop. The ports are compared with this description in `RespBench.Random.Parity`; none of
them is defined through it.

A port is packaged as a `Port`: its constructor, its `nextInt`, and the run `draws` that threads the
state through a list of bounds. The rejection loop of the sources has no counter of its own, so it
is given a number of rounds here and reports `Fault.timeout` when they are used up; `drawLoop_ok`
shows that `2 ^ 48` rounds always suffice.
-/

namespace RespBench.Random
open RespBench.Lib

/-- Why a draw does not return a value. -/
inductive Fault where
  | illegalArgument (message : String)
  | overflow
  | timeout
deriving DecidableEq, Repr

/-- A bound that Java's `nextInt(int)` accepts: positive and representable as an `int`. -/
abbrev Bound := { b : ℕ // 0 < b ∧ b < 2 ^ 31 }

/-- One step of the 48-bit state. -/
def lcg (s : ℕ) : ℕ := Lcg.step 0x5DEECE66D 0xB (2 ^ 48) s

/-- The 31 most significant bits of a 48-bit state. -/
def top31 (s : ℕ) : ℕ := s / 2 ^ 17

/-- The rejection test passes: `bits - val + (bound - 1)` does not overflow 31 bits. -/
def Accepts (bound bits : ℕ) : Prop := bits - bits % bound + (bound - 1) < 2 ^ 31

instance (bound bits : ℕ) : Decidable (Accepts bound bits) := by unfold Accepts; infer_instance

/-- The bound is a power of two, as the sources test it. -/
def IsPow2 (bound : ℕ) : Prop := bound &&& (2 ^ 31 - bound) = bound

instance (bound : ℕ) : Decidable (IsPow2 bound) := by unfold IsPow2; infer_instance

/-- The rejection loop from a state, with the number of rounds it may take. -/
def drawLoop (bound : ℕ) : ℕ → ℕ → Except Fault (ℕ × ℕ)
  | 0, _ => .error .timeout
  | fuel + 1, s =>
    if Accepts bound (top31 (lcg s)) then .ok (top31 (lcg s) % bound, lcg s)
    else drawLoop bound fuel (lcg s)

/-- A bounded draw from a state. -/
def draw (fuel bound s : ℕ) : Except Fault (ℕ × ℕ) :=
  if IsPow2 bound then .ok (bound * top31 (lcg s) / 2 ^ 31, lcg s) else drawLoop bound fuel s

/-- A state has 48 bits. -/
lemma lcg_lt (s : ℕ) : lcg s < 2 ^ 48 := Lcg.step_lt (by norm_num) _ _ s

/-- The high bits are 31. -/
lemma top31_lcg_lt (s : ℕ) : top31 (lcg s) < 2 ^ 31 := by
  have h := lcg_lt s
  unfold top31
  omega

/-- A generator of one engine: its constructor and its bounded draw. -/
structure Port where
  State : Type
  new : BitVec 64 → State
  nextInt : ℕ → Bound → State → Except Fault (ℤ × State)

/-- Successive `nextInt` calls, one for each bound. -/
def Port.nextInts (P : Port) (fuel : ℕ) : List Bound → P.State → Except Fault (List ℤ)
  | [], _ => .ok []
  | b :: bs, r => do
    let (v, r') ← P.nextInt fuel b r
    let vs ← P.nextInts fuel bs r'
    return v :: vs

/-- The values drawn for a list of bounds by a freshly seeded generator. -/
def Port.draws (P : Port) (fuel : ℕ) (seed : BitVec 64) (bounds : List Bound) :
    Except Fault (List ℤ) :=
  P.nextInts fuel bounds (P.new seed)

/-- The scrambled seed that every constructor stores. -/
def scramble (seed : BitVec 64) : ℕ := (seed.toNat ^^^ 0x5DEECE66D) % 2 ^ 48

/-- A port computes the 48-bit generator through a representation `rep` of its states. -/
structure Port.Refines (P : Port) (rep : ℕ → P.State) : Prop where
  new_eq : ∀ seed, P.new seed = rep (scramble seed)
  nextInt_eq : ∀ fuel (b : Bound) s, s < 2 ^ 48 →
    P.nextInt fuel b (rep s) = (draw fuel b.1 s).map fun r => ((r.1 : ℤ), rep r.2)

/-- The values drawn by the 48-bit generator. -/
def drawsFrom (fuel : ℕ) : List Bound → ℕ → Except Fault (List ℤ)
  | [], _ => .ok []
  | b :: bs, s => do
    let (v, s') ← draw fuel b.1 s
    let vs ← drawsFrom fuel bs s'
    return (v : ℤ) :: vs

/-- The loop leaves a state. -/
lemma drawLoop_lt {bound fuel s v s' : ℕ} (h : drawLoop bound fuel s = .ok (v, s')) :
    s' < 2 ^ 48 := by
  induction fuel generalizing s with
  | zero => cases h
  | succ fuel ih =>
    simp only [drawLoop] at h
    split at h
    · cases h
      exact lcg_lt s
    · exact ih h

/-- A draw leaves a state. -/
lemma draw_lt {fuel bound s v s' : ℕ} (h : draw fuel bound s = .ok (v, s')) : s' < 2 ^ 48 := by
  unfold draw at h
  split at h
  · cases h
    exact lcg_lt s
  · exact drawLoop_lt h

/-- A refined port draws the values of the 48-bit generator. -/
lemma Port.Refines.nextInts_eq {P : Port} {rep : ℕ → P.State} (ref : P.Refines rep) (fuel : ℕ)
    (bounds : List Bound) {s : ℕ} (hs : s < 2 ^ 48) :
    P.nextInts fuel bounds (rep s) = drawsFrom fuel bounds s := by
  induction bounds generalizing s with
  | nil => rfl
  | cons b bs ih =>
    simp only [nextInts, drawsFrom, ref.nextInt_eq fuel b s hs]
    cases e : draw fuel b.1 s with
    | error err => rfl
    | ok r =>
      have h := ih (draw_lt e)
      simp only [Except.map, bind, Except.bind, h]

/-- A scrambled seed is a state. -/
lemma scramble_lt (seed : BitVec 64) : scramble seed < 2 ^ 48 := Nat.mod_lt _ (by norm_num)

/-- A refined port's run from a seed is the 48-bit generator's. -/
lemma Port.Refines.draws_eq {P : Port} {rep : ℕ → P.State} (ref : P.Refines rep) (fuel : ℕ)
    (seed : BitVec 64) (bounds : List Bound) :
    P.draws fuel seed bounds = drawsFrom fuel bounds (scramble seed) := by
  unfold draws
  rw [ref.new_eq, ref.nextInts_eq fuel bounds (scramble_lt seed)]

/-- A state below the bound's size in its top bits is accepted. -/
lemma accepts_of_lt {bound bits : ℕ} (hb : bound < 2 ^ 31) (h : bits < bound) :
    Accepts bound bits := by
  unfold Accepts
  rw [Nat.mod_eq_of_lt h]
  omega

/-- The lower half of the bits is accepted with every bound. -/
lemma accepts_of_lt_half {bound bits : ℕ} (hb : bound < 2 ^ 31) (h : bits < 2 ^ 30) :
    Accepts bound bits := by
  unfold Accepts
  rcases lt_or_ge bits bound with hlt | hge
  · rw [Nat.mod_eq_of_lt hlt]
    omega
  · omega

/-- Only one divides two numbers without a common divisor. -/
lemma eq_one_of_dvd {b : ℕ} {x y : ℤ} (hx : (b : ℤ) ∣ x) (hy : (b : ℤ) ∣ y)
    (h : Int.gcd x y = 1) : b = 1 := by
  have hgcd := Int.dvd_gcd hx hy
  rw [h] at hgcd
  exact Nat.dvd_one.mp hgcd

/-- The rejection loop returns as soon as some iterate is accepted. -/
lemma drawLoop_of_accepts {bound n : ℕ} (fuel s : ℕ) (hn : n < fuel)
    (h : Accepts bound (top31 (lcg^[n + 1] s))) :
    ∃ r, ∀ extra, drawLoop bound (fuel + extra) s = .ok r := by
  induction n generalizing fuel s with
  | zero =>
    obtain ⟨fuel, rfl⟩ : ∃ f, fuel = f + 1 := ⟨fuel - 1, by omega⟩
    refine ⟨(top31 (lcg s) % bound, lcg s), fun extra => ?_⟩
    rw [Nat.add_right_comm, drawLoop]
    exact if_pos h
  | succ n ih =>
    obtain ⟨fuel, rfl⟩ : ∃ f, fuel = f + 1 := ⟨fuel - 1, by omega⟩
    by_cases hnow : Accepts bound (top31 (lcg s))
    · refine ⟨(top31 (lcg s) % bound, lcg s), fun extra => ?_⟩
      rw [Nat.add_right_comm, drawLoop, if_pos hnow]
    · obtain ⟨r, hr⟩ := ih fuel (lcg s) (by omega) h
      refine ⟨r, fun extra => ?_⟩
      rw [Nat.add_right_comm, drawLoop, if_neg hnow, hr]

/-- From every state the generator comes to a state that is accepted, since its orbit has full
period. -/
theorem exists_accepts {bound : ℕ} (hpos : 0 < bound) (hb : bound < 2 ^ 31) (s : ℕ) :
    ∃ n < 2 ^ 48, Accepts bound (top31 (lcg^[n + 1] s)) := by
  obtain ⟨n, hn, h0⟩ :=
    Lcg.exists_iterate_eq_zero (a := 0x5DEECE66D) (c := 0xB) (k := 48) (x := lcg s) (by norm_num)
      (by norm_num) (lcg_lt s)
  refine ⟨n, hn, accepts_of_lt hb ?_⟩
  rw [Function.iterate_succ_apply, show lcg^[n] (lcg s) = 0 from h0]
  exact hpos

/-- `2 ^ 48` rounds are enough for the rejection loop, and more do not change its result. -/
theorem drawLoop_ok {bound : ℕ} (hpos : 0 < bound) (hb : bound < 2 ^ 31) (s : ℕ) :
    ∃ r, ∀ extra, drawLoop bound (2 ^ 48 + extra) s = .ok r := by
  obtain ⟨n, hn, h⟩ := exists_accepts hpos hb s
  exact drawLoop_of_accepts _ _ hn h

/-- A draw returns after as many rounds as there are states. -/
lemma draw_ok (b : Bound) (s : ℕ) : ∃ r, ∀ extra, draw (2 ^ 48 + extra) b.1 s = .ok r := by
  by_cases hp : IsPow2 b.1
  · refine ⟨(b.1 * top31 (lcg s) / 2 ^ 31, lcg s), fun extra => ?_⟩
    rw [draw, if_pos hp]
  · obtain ⟨r, hr⟩ := drawLoop_ok b.2.1 b.2.2 s
    refine ⟨r, fun extra => ?_⟩
    rw [draw, if_neg hp, hr]

/-- A whole run of draws returns within `2 ^ 48` rounds for each of them. -/
theorem drawsFrom_ok (bounds : List Bound) (s : ℕ) :
    ∃ vs, ∀ extra, drawsFrom (2 ^ 48 + extra) bounds s = .ok vs := by
  induction bounds generalizing s with
  | nil => exact ⟨[], fun _ => rfl⟩
  | cons b bs ih =>
    obtain ⟨⟨v, s'⟩, hr⟩ := draw_ok b s
    obtain ⟨vs, hvs⟩ := ih s'
    refine ⟨(v : ℤ) :: vs, fun extra => ?_⟩
    simp only [drawsFrom, hr, hvs, bind, Except.bind, pure, Except.pure]

end RespBench.Random
