import RespBench.Budget.Indices
import RespBench.Random.Judge

/-!
# Random keys out of any number of keys

The index of the next key under `uniform_rand` in the Rust, Python, PHP and Go engines, for every
number of keys that the engine loads. `Safe` is what is asked of it: the draws return, and the
indices that come up are those that a bound of exactly this number yields from the 31 bits of a
round. `Judged` says the same of the judge alone, and `safe_iff_judged` connects the two, since any
31 bits can come up in a first round.
-/

namespace RespBench.Keys.Uniform
open RespBench.Lib
open RespBench.Random (lcgRound scramble top31 lcg)

inductive Engine where
  | rust
  | python
  | php
  | go
deriving DecidableEq

/-- The numbers of keys, from 1 on, that loading and validation let through: a `u64` in Rust, any
integer in Python, a 64-bit integer in PHP and in Go. -/
def Engine.accepts : Engine → ℕ → Prop
  | .rust, keysCount => 1 ≤ keysCount ∧ keysCount < 2 ^ 64
  | .python, keysCount => 1 ≤ keysCount
  | .php, keysCount => keysCount < 2 ^ 63
  | .go, keysCount => keysCount < 2 ^ 63

/-- The seed of a generator. -/
def Engine.Seed : Engine → Type
  | .python => ℤ
  | _ => BitVec 64

def Engine.Rng : Engine → Type
  | .rust => Random.Rust.JavaRandom
  | .python => Random.Python.JavaRandom
  | .php => Random.Php.JavaRandom
  | .go => Random.Go.JavaRandom

def Engine.newRng : (engine : Engine) → engine.Seed → engine.Rng
  | .rust, seed => Random.Rust.JavaRandom.new seed
  | .python, seed => Random.Python.JavaRandom.new seed
  | .php, seed => Random.Php.JavaRandom.new (BitVec.toInt seed)
  | .go, seed => Random.Go.NewJavaRandom seed

/-- The index of `next_key`, `nextKey`, `NextKey`, when the draw returns. -/
def Engine.nextIndex (fuel : ℕ) : (engine : Engine) → (keysCount : ℕ) → engine.Rng →
    Option (ℤ × engine.Rng)
  | .rust, keysCount, rng =>
    (Budget.Engine.randomIndex fuel .rust (BitVec.ofNat 64 keysCount) rng).map fun r =>
      ((r.1.toNat : ℤ), r.2)
  | .python, keysCount, rng =>
    (Random.Python.JavaRandom.next_int fuel keysCount rng).toOption.map fun r =>
      (r.1 % keysCount, r.2)
  | .php, keysCount, rng =>
    (Random.Php.JavaRandom.nextInt fuel keysCount rng).toOption.map fun r =>
      (r.1.tmod keysCount, r.2)
  | .go, keysCount, rng =>
    (Budget.Engine.randomIndex fuel .go (BitVec.ofNat 64 keysCount) rng).map fun r =>
      (r.1.toInt, r.2)

/-- So many indices in a row. -/
def Engine.indices (fuel : ℕ) (engine : Engine) (keysCount : ℕ) : ℕ → engine.Rng → Option (List ℤ)
  | 0, _ => some []
  | n + 1, rng =>
    (engine.nextIndex fuel keysCount rng).bind fun r =>
      (engine.indices fuel keysCount n r.2).map (r.1 :: ·)

/-- So many draws of a seed return these indices. -/
def Engine.Returns (engine : Engine) (keysCount : ℕ) (seed : engine.Seed) (n : ℕ)
    (indices : List ℤ) : Prop :=
  ∃ fuel, ∀ extra, engine.indices (fuel + extra) keysCount n (engine.newRng seed) = some indices

/-! ## Safe keys -/

/-- What a bound makes of 31 bits. -/
def boundedIndex (bound bits : ℕ) : ℕ := if bound.isPowerOfTwo then bound * bits / 2 ^ 31
    else bits % bound

/-- The indices that a bound can produce. -/
def Producible (bound : ℕ) (index : ℤ) : Prop := ∃ bits < 2 ^ 31, index = boundedIndex bound bits

/-- The keys of an engine are safe for a number of keys: whatever the seed, any number of
draws returns, their indices are among those that the number can produce as a bound, and
each of these comes up. -/
structure Safe (engine : Engine) (keysCount : ℕ) : Prop where
  returns : ∀ seed n, ∃ indices, engine.Returns keysCount seed n indices
  inside : ∀ seed n indices, engine.Returns keysCount seed n indices →
    ∀ index ∈ indices, Producible keysCount index
  all : ∀ index, Producible keysCount index →
    ∃ seed n indices, engine.Returns keysCount seed n indices ∧ index ∈ indices

/-! ## Rounds -/

/-- The rounds of an index. -/
def Engine.round : (engine : Engine) → (keysCount : ℕ) → Round engine.Rng ℤ
  | .rust, keysCount => (Budget.rustRound (BitVec.ofNat 64 keysCount)).map fun index =>
    (index.toNat : ℤ)
  | .python, keysCount => (Random.Python.JavaRandom.round keysCount).map (· % (keysCount : ℤ))
  | .php, keysCount => (Random.Php.JavaRandom.round keysCount).map (Int.tmod · keysCount)
  | .go, keysCount =>
    (Random.Go.JavaRandom.round (Budget.keysCountOrOne (BitVec.ofNat 64 keysCount))).map
      BitVec.toInt

/-- The next index is a draw. -/
lemma nextIndex_eq (engine : Engine) (fuel keysCount : ℕ) (rng : engine.Rng) :
    engine.nextIndex (fuel + 1) keysCount rng = (engine.round keysCount).draw (fuel + 1) rng := by
  cases engine with
  | rust => exact Round.map_eq_draw (fun index =>
      (index.toNat : ℤ)) (Budget.rust_randomIndex_eq fuel _ rng)
  | python =>
    exact Round.map_eq_draw (· % (keysCount : ℤ))
      (Random.Python.JavaRandom.next_int_eq fuel keysCount rng)
  | php =>
    exact Round.map_eq_draw (Int.tmod · keysCount)
      (Random.Php.JavaRandom.nextInt_eq fuel keysCount rng)
  | go => exact Round.map_eq_draw BitVec.toInt (Random.Go.JavaRandom.NextInt_eq fuel _ rng)

/-- Indices in a row are draws in a row. -/
lemma indices_eq (engine : Engine) (fuel keysCount n : ℕ) (rng : engine.Rng) :
    engine.indices (fuel + 1) keysCount n rng
      = ((engine.round keysCount).draws (fuel + 1) n rng).map Prod.fst := by
  induction n generalizing rng with
  | zero => rfl
  | succ n ih =>
    rw [Engine.indices, Round.draws, nextIndex_eq]
    cases (engine.round keysCount).draw (fuel + 1) rng with
    | none => rfl
    | some r =>
      rw [Option.bind_some, Option.bind_some, ih, Option.map_map, Option.map_map]
      rfl

/-- What becomes of 31 bits under `next_key` in Rust. -/
def rustJudge (keysCount : BitVec 64) (bits : BitVec 32) : Option (Option (BitVec 64)) :=
  (Random.Rust.judge (keysCount.setWidth 32) bits).map fun value =>
    value.map fun raw => (raw.signExtend 64).umod keysCount

/-- What becomes of 31 bits. -/
def Engine.judge : Engine → (keysCount bits : ℕ) → Option (Option ℤ)
  | .rust, keysCount, bits =>
    (rustJudge (BitVec.ofNat 64 keysCount) (BitVec.ofNat 32 bits)).map fun value =>
      value.map fun index => (index.toNat : ℤ)
  | .python, keysCount, bits =>
    (Random.Python.judge keysCount bits).map fun value => value.map (· % (keysCount : ℤ))
  | .php, keysCount, bits => (Random.Php.judge keysCount bits).map fun value =>
    value.map (Int.tmod · keysCount)
  | .go, keysCount, bits =>
    (Random.Go.judge (Budget.keysCountOrOne (BitVec.ofNat 64 keysCount)) (BitVec.ofNat 32 bits)).map
      fun value =>
      value.map BitVec.toInt

/-- The generator in a 48-bit state. -/
def Engine.rep : (engine : Engine) → ℕ → engine.Rng
  | .rust, s => Random.rustRep s
  | .python, s => Random.pythonRep s
  | .php, s => Random.phpRep s
  | .go, s => Random.goRep s

/-- A round of the Rust engine judges the high bits of the next state. -/
lemma rustRound_rep (keysCount : BitVec 64) (s : ℕ) :
    Budget.rustRound keysCount (Random.rustRep s)
      = (rustJudge keysCount (BitVec.ofNat 32 (top31 (lcg s)))).map fun value =>
        (value, Random.rustRep (lcg s)) := by
  have hround : Random.Rust.JavaRandom.round (keysCount.setWidth 32) (Random.rustRep s)
      = (Random.Rust.judge (keysCount.setWidth 32) (BitVec.ofNat 32 (top31 (lcg s)))).map
        fun value => (value, Random.rustRep (lcg s)) := Round.judged_eq (Random.rust_nextBits s)
  rw [Budget.rustRound, Round.map, hround, rustJudge, Option.map_map, Option.map_map]
  rfl

/-- A round of the PHP engine judges the high bits of the next state. -/
lemma phpRound_rep (bound : ℤ) {s : ℕ} (hs : s < 2 ^ 48) :
    Random.Php.JavaRandom.round bound (Random.phpRep s)
      = (Random.Php.judge bound (top31 (lcg s))).map fun value =>
        (value, Random.phpRep (lcg s)) := by
  rw [Random.Php.JavaRandom.round, Random.php_nextBits hs]
  rfl

/-- The round of every engine judges the high bits of the next state. -/
lemma round_rep (engine : Engine) (keysCount s : ℕ) (hs : s < 2 ^ 48) :
    engine.round keysCount (engine.rep s)
      = (lcgRound (engine.judge keysCount) s).map fun r => (r.1, engine.rep r.2) := by
  cases engine with
  | rust =>
    exact Random.map_eq_lcgRound (j := fun bits => rustJudge _ (BitVec.ofNat 32 bits)) _
      (rustRound_rep (BitVec.ofNat 64 keysCount) s)
  | python =>
    exact Random.map_eq_lcgRound (j := fun bits => Random.Python.judge keysCount bits) _
      (Round.judged_eq (Random.python_next_bits s))
  | php =>
    exact Random.map_eq_lcgRound (j := fun bits => Random.Php.judge keysCount bits)
      _ (phpRound_rep keysCount hs)
  | go =>
    exact Random.map_eq_lcgRound (j := fun bits => Random.Go.judge _ (BitVec.ofNat 32 bits)) _
      (Round.judged_eq (Random.go_next s))

/-- The indices are draws from the state that the generator stands for. -/
lemma indices_rep (engine : Engine) (fuel keysCount n : ℕ) {s : ℕ} (hs : s < 2 ^ 48) :
    engine.indices (fuel + 1) keysCount n (engine.rep s)
      = ((lcgRound (engine.judge keysCount)).draws (fuel + 1) n s).map Prod.fst := by
  rw [indices_eq, Round.draws_rep (round_rep engine keysCount) Random.lcgRound_lt _ _ hs,
    Option.map_map]
  rfl

/-- Every seed is a state of the generator. -/
lemma newRng_eq (engine : Engine) (seed : engine.Seed) :
    ∃ s < 2 ^ 48, engine.newRng seed = engine.rep s := by
  cases engine with
  | rust => exact ⟨_, Random.scramble_lt _, Random.rustPort_refines.new_eq seed⟩
  | python =>
    exact ⟨_, Random.scramble_lt _,
      congrArg Random.Python.JavaRandom.mk (Random.int_scramble_ofInt seed)⟩
  | php => exact ⟨_, Random.scramble_lt _, Random.phpPort_refines.new_eq seed⟩
  | go => exact ⟨_, Random.scramble_lt _, Random.goPort_refines.new_eq seed⟩

/-- Every state of the generator is that of some seed. -/
lemma exists_newRng (engine : Engine) {s : ℕ} (hs : s < 2 ^ 48) :
    ∃ seed, engine.newRng seed = engine.rep s := by
  obtain ⟨seed, rfl⟩ := Random.exists_scramble hs
  cases engine with
  | rust => exact ⟨seed, Random.rustPort_refines.new_eq seed⟩
  | python => exact ⟨seed.toInt, Random.pythonPort_refines.new_eq seed⟩
  | php => exact ⟨seed, Random.phpPort_refines.new_eq seed⟩
  | go => exact ⟨seed, Random.goPort_refines.new_eq seed⟩

/-- What becomes of 31 bits is what `Safe` asks of the draws: none fault, and those accepted give
the indices that the number can produce as a bound. -/
structure Judged (engine : Engine) (keysCount : ℕ) : Prop where
  noFault : ∀ bits < 2 ^ 31, engine.judge keysCount bits ≠ none
  inside : ∀ bits < 2 ^ 31, ∀ index, engine.judge keysCount bits = some (some index) →
    Producible keysCount index
  all : ∀ index, Producible keysCount index → ∃ bits < 2 ^ 31,
    engine.judge keysCount bits = some (some index)

section Judged
variable {engine : Engine} {keysCount : ℕ}

/-- An engine returns indices when enough rounds draw them. -/
lemma returns_iff {seed : engine.Seed} {s n : ℕ} {indices : List ℤ} (hs : s < 2 ^ 48)
    (hseed : engine.newRng seed = engine.rep s) :
    engine.Returns keysCount seed n indices
      ↔ ∃ fuel t, (lcgRound (engine.judge keysCount)).draws fuel n s = some (indices, t) := by
  refine ⟨fun h => ?_, fun h => ?_⟩
  · obtain ⟨fuel, h⟩ := h
    have hone := h 1
    rw [hseed, indices_rep engine fuel keysCount n hs] at hone
    obtain ⟨⟨as, t⟩, hdraws, hr⟩ := Option.map_eq_some_iff.mp hone
    cases hr
    exact ⟨fuel + 1, t, hdraws⟩
  · obtain ⟨fuel, t, hdraws⟩ := h
    refine ⟨fuel + 1, fun extra => ?_⟩
    have hmore := Round.draws_add hdraws (extra + 1)
    rw [← Nat.add_assoc] at hmore
    rw [hseed, Nat.add_right_comm, indices_rep engine _ keysCount n hs, hmore, Option.map_some]

/-- Bits that are accepted come up in the first draw of some seed. -/
lemma exists_returns_of_judge {bits : ℕ} (hbits : bits < 2 ^ 31) {index : ℤ}
    (h : engine.judge keysCount bits = some (some index)) :
    ∃ seed, engine.Returns keysCount seed 1 [index] := by
  obtain ⟨s, hs, rfl⟩ := Random.exists_top31 hbits
  obtain ⟨seed, hseed⟩ := exists_newRng engine hs
  refine ⟨seed, (returns_iff hs hseed).mpr ⟨1, lcg s, ?_⟩⟩
  exact Round.draws_cons (Round.draw_of_accept (Random.lcgRound_of_some h) 0) rfl

/-- An index that a draw returns comes from bits that are accepted. -/
lemma exists_judge_of_returns {seed : engine.Seed} {n : ℕ} {indices : List ℤ}
    (h : engine.Returns keysCount seed n indices) {index : ℤ} (hmem : index ∈ indices) :
    ∃ bits < 2 ^ 31, engine.judge keysCount bits = some (some index) := by
  obtain ⟨s, hs, hseed⟩ := newRng_eq engine seed
  obtain ⟨fuel, t, hdraws⟩ := (returns_iff hs hseed).mp h
  obtain ⟨u, v, hround⟩ := Round.exists_round_of_mem_draws hdraws hmem
  rw [Random.lcgRound_eq] at hround
  obtain ⟨value, hvalue, hr⟩ := Option.map_eq_some_iff.mp hround
  cases hr
  exact ⟨_, Random.top31_lcg_lt u, hvalue⟩

/-- Bits that fault keep the first draw of some seed from returning. -/
lemma exists_not_returns_of_judge {bits : ℕ} (hbits : bits < 2 ^ 31)
    (h : engine.judge keysCount bits = none) :
    ∃ seed, ∀ indices, ¬ engine.Returns keysCount seed 1 indices := by
  obtain ⟨s, hs, rfl⟩ := Random.exists_top31 hbits
  obtain ⟨seed, hseed⟩ := exists_newRng engine hs
  refine ⟨seed, fun indices hreturns => ?_⟩
  obtain ⟨fuel, t, hdraws⟩ := (returns_iff hs hseed).mp hreturns
  obtain ⟨b, bs, v, -, hdraw, -⟩ := Round.draws_succ hdraws
  rw [Round.draw_of_fault (by rw [Random.lcgRound_eq, h, Option.map_none])] at hdraw
  cases hdraw

/-- An engine is safe when it judges all bits as Java does. -/
theorem safe_iff_judged : Safe engine keysCount ↔ Judged engine keysCount := by
  refine ⟨fun h => ⟨?_, ?_, ?_⟩, fun h => ⟨?_, ?_, ?_⟩⟩
  · intro bits hbits hfault
    obtain ⟨seed, hseed⟩ := exists_not_returns_of_judge hbits hfault
    obtain ⟨indices, hindices⟩ := h.returns seed 1
    exact hseed indices hindices
  · intro bits hbits index hindex
    obtain ⟨seed, hseed⟩ := exists_returns_of_judge hbits hindex
    exact h.inside seed 1 [index] hseed index List.mem_cons_self
  · intro index hindex
    obtain ⟨seed, n, indices, hreturns, hmem⟩ := h.all index hindex
    exact exists_judge_of_returns hreturns hmem
  · intro seed n
    obtain ⟨s, hs, hseed⟩ := newRng_eq engine seed
    obtain ⟨bits, hbits, hjudge⟩ := h.all _ ⟨0, by norm_num, rfl⟩
    obtain ⟨fuel, ⟨indices, t⟩, hdraws⟩ :=
      Round.exists_draws (Random.exists_lcgRound_draw h.noFault hbits hjudge) n s
    exact ⟨indices, (returns_iff hs hseed).mpr ⟨fuel, t, hdraws⟩⟩
  · intro seed n indices hreturns index hmem
    obtain ⟨bits, hbits, hjudge⟩ := exists_judge_of_returns hreturns hmem
    exact h.inside bits hbits index hjudge
  · intro index hindex
    obtain ⟨bits, hbits, hjudge⟩ := h.all index hindex
    obtain ⟨seed, hseed⟩ := exists_returns_of_judge hbits hjudge
    exact ⟨seed, 1, [index], hseed, List.mem_cons_self⟩

end Judged

end RespBench.Keys.Uniform
