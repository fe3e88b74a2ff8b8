import RespBench.Budget.Workers
import RespBench.Random.Rounds
import RespBench.Random.Stream

/-!
# The indices of random keys

How the Go and the Rust engine draw the index of a random key, one round of the generator at a time,
and what the rounds add up to: the indices accepted so far are those that the generator draws when
nobody else uses it (`isPrefix_of_run`). For a number of keys that Java takes as a bound they are
the values of `java.util.Random`.
-/

namespace RespBench.Budget
open RespBench.Lib RespBench.Lib.Runs
open RespBench.Random (Bound javaPort draw drawsFrom scramble)

/-! ## The rounds of an index -/

/-- A round of `next_int` under `next_key`. -/
def rustRound (keysCount : BitVec 64) : Round Random.Rust.JavaRandom (BitVec 64) :=
  (Random.Rust.JavaRandom.round (keysCount.setWidth 32)).map fun raw =>
    (raw.signExtend 64).umod keysCount

/-- A round of `NextInt` under `NextKey`, and its counterpart in Rust. -/
def Engine.round : (engine : Engine) → (keysCount : BitVec 64) → Round engine.Rng (BitVec 64)
  | .go, keysCount => Random.Go.JavaRandom.round (keysCountOrOne keysCount)
  | .rust, keysCount => rustRound keysCount

/-- An index of the Rust engine is a draw of its rounds. -/
lemma rust_randomIndex_eq (fuel : ℕ) (keysCount : BitVec 64) (rng : Random.Rust.JavaRandom) :
    Engine.rust.randomIndex (fuel + 1) keysCount rng
      = (rustRound keysCount).draw (fuel + 1) rng := by
  rw [rustRound, Round.draw_map, ← Random.Rust.JavaRandom.nextInt_eq]
  unfold Engine.randomIndex
  dsimp only
  by_cases hzero : keysCount = 0#64
  · rw [hzero]
    rfl
  · cases Random.Rust.JavaRandom.nextInt (fuel + 1) (keysCount.setWidth 32) rng with
    | error fault => rfl
    | ok r => exact if_neg hzero

/-- An index is a draw of the rounds of its engine. -/
lemma randomIndex_eq (engine : Engine) (fuel : ℕ) (keysCount : BitVec 64) (rng : engine.Rng) :
    engine.randomIndex (fuel + 1) keysCount rng = (engine.round keysCount).draw (fuel + 1) rng := by
  cases engine with
  | go => exact Random.Go.JavaRandom.NextInt_eq fuel _ rng
  | rust => exact rust_randomIndex_eq fuel keysCount rng

/-- So many indices in a row, drawn by nobody else. -/
def Engine.randomIndices (fuel : ℕ) (engine : Engine) (keysCount : BitVec 64) :
    ℕ → engine.Rng → Option (List (BitVec 64))
  | 0, _ => some []
  | n + 1, rng =>
    (engine.randomIndex fuel keysCount rng).bind fun r =>
      (engine.randomIndices fuel keysCount n r.2).map (r.1 :: ·)

/-- Indices in a row are draws in a row. -/
lemma randomIndices_eq (engine : Engine) (fuel : ℕ) (keysCount : BitVec 64) (n : ℕ)
    (rng : engine.Rng) :
    engine.randomIndices (fuel + 1) keysCount n rng
      = ((engine.round keysCount).draws (fuel + 1) n rng).map Prod.fst := by
  induction n generalizing rng with
  | zero => rfl
  | succ n ih =>
    rw [Engine.randomIndices, Round.draws, randomIndex_eq]
    cases (engine.round keysCount).draw (fuel + 1) rng with
    | none => rfl
    | some r =>
      rw [Option.bind_some, Option.bind_some, ih, Option.map_map, Option.map_map]
      rfl

/-- The indices are the first ones that the generator of a seed draws for a number of keys: the
engine's own class, and `java.util.Random` where the number of keys is a bound that it accepts. -/
def IsPrefix (engine : Engine) (keysCount seed : BitVec 64) (indices : List (BitVec 64)) : Prop :=
  (∃ fuel, ∀ extra,
    engine.randomIndices (fuel + extra) keysCount indices.length (engine.newRng seed)
    = some indices) ∧
  ∀ b : Bound, engine.number keysCount = b.1 → ∀ extra,
    javaPort.draws (2 ^ 48 + extra) seed (List.replicate indices.length b)
      = .ok (indices.map engine.number)

section Java
variable {engine : Engine} {keysCount : BitVec 64} {b : Bound}

/-- The generator in a 48-bit state. -/
def Engine.rep : (engine : Engine) → ℕ → engine.Rng
  | .go, s => Random.goRep s
  | .rust, s => Random.rustRep s

/-- A new generator stands for the scrambled seed. -/
lemma newRng_eq (engine : Engine) (seed : BitVec 64) :
    engine.newRng seed = engine.rep (scramble seed) := by
  cases engine with
  | go => exact Random.goPort_refines.new_eq seed
  | rust => exact Random.rustPort_refines.new_eq seed

/-- In Go, an index below the bounds of Java is drawn like one of Java. -/
lemma go_randomIndex_rep (hb : Engine.go.number keysCount = b.1) (fuel : ℕ) {s : ℕ}
    (hs : s < 2 ^ 48) :
    (Engine.go.randomIndex fuel keysCount (Random.goRep s)).map (fun r => (r.1.toInt, r.2))
      = (draw fuel b.1 s).toOption.map fun r => ((r.1 : ℤ), Random.goRep r.2) := by
  have hpos := b.2.1
  have hword : keysCount = BitVec.ofNat 64 b.1 := by
    apply BitVec.eq_of_toInt_eq
    rw [Words.toInt_small (b.2.2.trans (by norm_num))]
    exact hb
  have hone : keysCountOrOne keysCount = BitVec.ofNat 64 b.1 := by
    rw [keysCountOrOne, hword, if_neg]
    rw [Words.not_sle_zero (w := 64) hpos (b.2.2.trans (by norm_num))]
    exact Bool.false_ne_true
  have hdraw := Random.goPort_refines.nextInt_eq fuel b s hs
  unfold Engine.randomIndex
  dsimp only [Random.goPort] at hdraw ⊢
  rw [hone]
  exact (toOption_map _ _).symm.trans ((congrArg Except.toOption hdraw).trans (toOption_map _ _))

/-- In Rust, an index is neither changed by the widening nor by the remainder. -/
lemma rust_index {raw k : ℕ} (hraw : raw < 2 ^ 31) (hlt : raw < k) (hk : k < 2 ^ 64) :
    (((BitVec.ofNat 32 raw).signExtend 64).umod (BitVec.ofNat 64 k)).toNat = raw := by
  rw [Words.signExtend_small hraw, BitVec.umod_eq, BitVec.toNat_umod,
    Words.toNat_small (hraw.trans (by norm_num)), Words.toNat_small hk, Nat.mod_eq_of_lt hlt]

/-- So it is drawn like one of Java as well. -/
lemma rust_randomIndex_rep (hb : Engine.rust.number keysCount = b.1) (fuel : ℕ) {s : ℕ}
    (hs : s < 2 ^ 48) :
    (Engine.rust.randomIndex fuel keysCount (Random.rustRep s)).map
      (fun r => ((r.1.toNat : ℤ), r.2))
      = (draw fuel b.1 s).toOption.map fun r => ((r.1 : ℤ), Random.rustRep r.2) := by
  have hpos := b.2.1
  have hlt := b.2.2
  have hnat : keysCount.toNat = b.1 := Int.natCast_inj.mp hb
  have hword : keysCount = BitVec.ofNat 64 b.1 :=
    by rw [← hnat, BitVec.ofNat_toNat, BitVec.setWidth_eq]
  have hnarrow : keysCount.setWidth 32 = BitVec.ofNat 32 b.1 := by
    rw [hword, BitVec.setWidth_ofNat_of_le (by norm_num)]
  have hne : keysCount ≠ 0#64 := by
    rintro rfl
    exact hpos.ne hnat
  have hdraw := Random.rustPort_refines.nextInt_eq fuel b s hs
  unfold Engine.randomIndex
  dsimp only [Random.rustPort] at hdraw ⊢
  rw [hnarrow]
  cases hnext : Random.Rust.JavaRandom.nextInt fuel (BitVec.ofNat 32 b.1) (Random.rustRep s) with
  | error fault =>
    rw [hnext] at hdraw
    rw [← toOption_map, ← hdraw]
    rfl
  | ok p =>
    rw [hnext] at hdraw
    cases hd : draw fuel b.1 s with
    | error fault =>
      rw [hd] at hdraw
      cases hdraw
    | ok r =>
      rw [hd] at hdraw
      obtain ⟨hraw, hrng⟩ := Prod.mk.inj (Except.ok.inj hdraw)
      have hval : r.1 < b.1 := Random.draw_val_lt hd
      have hraw' : p.1 = BitVec.ofNat 32 r.1 := by
        apply BitVec.eq_of_toInt_eq
        rw [hraw, Words.toInt_small (hval.trans hlt)]
      have hindex : ((p.1.signExtend 64).umod keysCount).toNat = r.1 := by
        rw [hraw', hword]
        exact rust_index (hval.trans hlt) hval (hlt.trans (by norm_num))
      simp only [if_neg hne, Option.map_some, Except.toOption, hindex, hrng]
      rfl

/-- An index below the bounds of Java is drawn like one of Java. -/
lemma randomIndex_rep (hb : engine.number keysCount = b.1) (fuel : ℕ) {s : ℕ} (hs : s < 2 ^ 48) :
    (engine.randomIndex fuel keysCount (engine.rep s)).map (fun r => (engine.number r.1, r.2))
      = (draw fuel b.1 s).toOption.map fun r => ((r.1 : ℤ), engine.rep r.2) := by
  cases engine with
  | go => exact go_randomIndex_rep hb fuel hs
  | rust => exact rust_randomIndex_rep hb fuel hs

/-- So many indices in a row are so many draws of Java. -/
lemma randomIndices_rep (hb : engine.number keysCount = b.1) (fuel : ℕ)
    (indices : List (BitVec 64)) {s : ℕ} (hs : s < 2 ^ 48)
    (h : engine.randomIndices fuel keysCount indices.length (engine.rep s) = some indices) :
    drawsFrom fuel (List.replicate indices.length b) s = .ok (indices.map engine.number) := by
  induction indices generalizing s with
  | nil => rfl
  | cons index indices ih =>
    obtain ⟨⟨key, rng⟩, hdraw, hrest⟩ := Option.bind_eq_some_iff.mp h
    obtain ⟨keys, hkeys, hcons⟩ := Option.map_eq_some_iff.mp hrest
    cases hcons
    have hrep := randomIndex_rep hb fuel hs
    rw [hdraw, Option.map_some] at hrep
    cases hd : draw fuel b.1 s with
    | error fault =>
      rw [hd] at hrep
      cases hrep
    | ok r =>
      rw [hd] at hrep
      obtain ⟨hnumber, hrng⟩ := Prod.mk.inj (Option.some.inj hrep)
      dsimp only at hkeys hnumber hrng
      rw [hrng] at hkeys
      rw [List.length_cons, List.replicate_succ, drawsFrom, hd, ok_bind, List.map_cons, hnumber]
      dsimp only
      rw [ih (Random.draw_lt (v := r.1) hd) hkeys]
      rfl

end Java

/-- The indices that rounds accept, from the seed on, are the first ones of its generator. -/
theorem isPrefix_of_run {engine : Engine} {keysCount seed : BitVec 64} {indices : List (BitVec 64)}
    {rng : engine.Rng} (h : (engine.round keysCount).Run (engine.newRng seed) indices rng) :
    IsPrefix engine keysCount seed indices := by
  obtain ⟨fuel, u, hdraws, -⟩ := h.draws
  have hindices : ∀ extra, engine.randomIndices (fuel + 1 + extra) keysCount indices.length
    (engine.newRng seed)
      = some indices := by
    intro extra
    have hmore := Round.draws_add hdraws (extra + 1)
    rw [← Nat.add_assoc] at hmore
    rw [Nat.add_right_comm, randomIndices_eq, hmore]
    rfl
  refine ⟨⟨fuel + 1, hindices⟩, fun b hb extra => ?_⟩
  have hmany := hindices (2 ^ 48)
  rw [newRng_eq] at hmany
  have hjava := randomIndices_rep hb _ _ (Random.scramble_lt seed) hmany
  obtain ⟨values, hvalues⟩ := Random.drawsFrom_ok (List.replicate indices.length b) (scramble seed)
  rw [Nat.add_comm, hvalues (fuel + 1)] at hjava
  rw [Random.javaPort_refines.draws_eq, hvalues extra, hjava]

end RespBench.Budget
