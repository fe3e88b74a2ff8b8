import RespBench.Lib.Rejection
import RespBench.Random.Ports

/-!
# The rounds of a draw

A bounded draw of the Go, Rust, PHP and Python classes, one `next(31)` at a time and for bounds of
any size. `judge` says what becomes of the 31 bits, by the arithmetic of the language: the value
they give, no value when they are rejected, or a fault. `NextInt_eq`, `nextInt_eq` and `next_int_eq`
show that a call runs such rounds.
-/

namespace RespBench.Random
open RespBench.Lib RespBench.Lib.Runs

/-! ## Go -/

namespace Go

/-- The bits of a round. A remainder by zero panics. -/
def judge (bound : BitVec 64) (bits : BitVec 32) : Option (Option (BitVec 64)) :=
  if bound.sle 0#64 then none
  else if bound &&& -bound = bound then some (some ((bound * bits.signExtend 64).sshiftRight 31))
  else if bound.setWidth 32 = 0#32 then none
  else if (0#32).sle (bits - bits.srem (bound.setWidth 32) + (bound - 1#64).setWidth 32) then
    some (some ((bits.srem (bound.setWidth 32)).signExtend 64))
  else some none

def JavaRandom.round (bound : BitVec 64) : Round JavaRandom (BitVec 64) :=
  Round.judged (fun r => r.next 31) (judge bound)

/-- A call of `NextInt` runs rounds. -/
theorem JavaRandom.NextInt_eq (fuel : ℕ) (bound : BitVec 64) (r : JavaRandom) :
    (r.NextInt (fuel + 1) bound).toOption = (round bound).draw (fuel + 1) r := by
  refine Round.Calls.eq_draw ?_
  obtain ⟨bits, r', hnext⟩ : ∃ bits r', r.next 31 = (bits, r') := ⟨_, _, rfl⟩
  rw [NextInt, hnext]
  split
  next hpos => exact .fails (if_pos hpos)
  next hpos =>
    split
    next hpow => exact .once hnext ((if_neg hpos).trans (if_pos hpow))
    next hpow =>
      refine .loops (fun fuel r => (rejectionLoop bound fuel r).toOption) (fun _ => rfl) fun fuel r
        bits r' hnext => ?_
      simp only [rejectionLoop, hnext, judge, if_neg hpos, if_neg hpow]
      split_ifs <;> rfl

end Go

/-! ## Rust -/

namespace Rust

def judge (bound bits : BitVec 32) : Option (Option (BitVec 32)) :=
  if bound.sle 0#32 then none
  else if bound &&& -bound = bound then
    some (some (((bound.signExtend 64 * bits.signExtend 64).sshiftRight 31).setWidth 32))
  else if (0#32).sle (bits - bits.srem bound + (bound - 1#32)) then some (some (bits.srem bound))
  else some none

def JavaRandom.round (bound : BitVec 32) : Round JavaRandom (BitVec 32) :=
  Round.judged (fun r => r.nextBits 31) (judge bound)

/-- A call of `next_int` runs rounds. -/
theorem JavaRandom.nextInt_eq (fuel : ℕ) (bound : BitVec 32) (r : JavaRandom) :
    (r.nextInt (fuel + 1) bound).toOption = (round bound).draw (fuel + 1) r := by
  refine Round.Calls.eq_draw ?_
  obtain ⟨bits, r', hnext⟩ : ∃ bits r', r.nextBits 31 = (bits, r') := ⟨_, _, rfl⟩
  rw [nextInt, hnext]
  split
  next hpos => exact .fails (if_pos hpos)
  next hpos =>
    split
    next hpow => exact .once hnext ((if_neg hpos).trans (if_pos hpow))
    next hpow =>
      refine .loops (fun fuel r => (rejectionLoop bound fuel r).toOption) (fun _ => rfl) fun fuel r
        bits r' hnext => ?_
      simp only [rejectionLoop, hnext, judge, if_neg hpos, if_neg hpow]
      split_ifs <;> rfl

end Rust

/-! ## Python -/

namespace Python

def judge (bound bits : ℤ) : Option (Option ℤ) :=
  if bound ≤ 0 then none
  else if Int.land bound (-bound) = bound then some (some ((bound * bits) >>> (31 : ℕ)))
  else if to_int32 (bits - bits % bound + (bound - 1)) ≥ 0 then some (some (bits % bound))
  else some none

def JavaRandom.round (bound : ℤ) : Round JavaRandom ℤ :=
  Round.judged (fun r => r.next_bits 31) (judge bound)

/-- A call of `next_int` runs rounds. -/
theorem JavaRandom.next_int_eq (fuel : ℕ) (bound : ℤ) (r : JavaRandom) :
    (r.next_int (fuel + 1) bound).toOption = (round bound).draw (fuel + 1) r := by
  refine Round.Calls.eq_draw ?_
  obtain ⟨bits, r', hnext⟩ : ∃ bits r', r.next_bits 31 = (bits, r') := ⟨_, _, rfl⟩
  rw [next_int, hnext]
  split
  next hpos => exact .fails (if_pos hpos)
  next hpos =>
    split
    next hpow => exact .once hnext ((if_neg hpos).trans (if_pos hpow))
    next hpow =>
      refine .loops (fun fuel r => (rejectionLoop bound fuel r).toOption) (fun _ => rfl) fun fuel r
        bits r' hnext => ?_
      simp only [rejectionLoop, hnext, judge, if_neg hpos, if_neg hpow]
      split_ifs <;> rfl

end Python

/-! ## PHP -/

namespace Php

/-- The bits of a round. A partial result that leaves the integers is a fault. -/
def judge (bound bits : ℤ) : Option (Option ℤ) :=
  if bound ≤ 0 then none
  else
    (CheckedInt.sub 0 bound).bind fun neg =>
      if Int.land bound neg = bound then
        (CheckedInt.mul bound bits).bind fun prod => some (some (prod >>> (31 : ℕ)))
      else
        (CheckedInt.sub bits (bits.tmod bound)).bind fun diff =>
          (CheckedInt.sub bound 1).bind fun last =>
            (CheckedInt.add diff last).bind fun sum =>
              some (if sum ≤ 2147483647 then some (bits.tmod bound) else none)

def JavaRandom.round (bound : ℤ) : Round JavaRandom ℤ := fun r =>
  (r.nextBits 31).toOption.bind fun next => (judge bound next.1).map fun value => (value, next.2)

/-- A checked operation goes on with its result. -/
lemma int_bind {α : Type} (a : Option ℤ) (f : ℤ → Except Fault α) :
    (int a >>= f).toOption = a.bind fun n => (f n).toOption := by
  cases a <;> rfl

/-- The bits go on to the rest of a call. -/
lemma bits_bind {α β : Type} (a : Except Fault α) (f : α → Except Fault β) :
    (a >>= f).toOption = a.toOption.bind fun n => (f n).toOption := by
  cases a <;> rfl

/-- The loop runs rounds. -/
lemma JavaRandom.rejectionLoop_eq {bound neg : ℤ} (hpos : ¬ bound ≤ 0)
    (hneg : CheckedInt.sub 0 bound = some neg) (hpow : ¬ Int.land bound neg = bound) (fuel : ℕ)
    (r : JavaRandom) :
    (rejectionLoop bound fuel r).toOption = (round bound).draw fuel r := by
  refine Round.eq_draw (fun fuel r => (rejectionLoop bound fuel r).toOption) (fun _ => rfl)
    (fun fuel r => ?_) fuel r
  rw [rejectionLoop, bits_bind, round]
  cases (r.nextBits 31).toOption with
  | none => rfl
  | some next =>
    rw [Option.bind_some, Option.bind_some, judge, if_neg hpos, hneg, Option.bind_some,
      if_neg hpow, int_bind]
    cases CheckedInt.sub next.1 (next.1.tmod bound) with
    | none => rfl
    | some diff =>
      rw [Option.bind_some, Option.bind_some, int_bind]
      cases CheckedInt.sub bound 1 with
      | none => rfl
      | some last =>
        rw [Option.bind_some, Option.bind_some, int_bind]
        cases CheckedInt.add diff last with
        | none => rfl
        | some sum =>
          rw [Option.bind_some, Option.bind_some]
          split_ifs with haccept
          · rfl
          · rfl

/-- A call of `nextInt` runs rounds. -/
theorem JavaRandom.nextInt_eq (fuel : ℕ) (bound : ℤ) (r : JavaRandom) :
    (r.nextInt (fuel + 1) bound).toOption = (round bound).draw (fuel + 1) r := by
  have hfault : (∀ bits, judge bound bits = none) → round bound r = none := by
    intro hjudge
    rw [round]
    cases (r.nextBits 31).toOption with
    | none => rfl
    | some next => rw [Option.bind_some, hjudge, Option.map_none]
  by_cases hpos : bound ≤ 0
  · rw [Round.draw_of_fault (hfault fun bits => if_pos hpos), nextInt, if_pos hpos]
    rfl
  · rw [nextInt, if_neg hpos]
    dsimp only
    rw [int_bind]
    cases hneg : CheckedInt.sub 0 bound with
    | none =>
      have hround := hfault fun bits => by rw [judge, if_neg hpos, hneg, Option.bind_none]
      rw [Round.draw_of_fault hround]
      rfl
    | some neg =>
      rw [Option.bind_some]
      split
      · next hpow =>
        rw [bits_bind, Round.draw_succ, round]
        cases (r.nextBits 31).toOption with
        | none => rfl
        | some next =>
          rw [Option.bind_some, Option.bind_some, judge, if_neg hpos, hneg, Option.bind_some,
            if_pos hpow, int_bind]
          cases CheckedInt.mul bound next.1 with
          | none => rfl
          | some prod => rfl
      · next hpow => exact rejectionLoop_eq hpos hneg hpow (fuel + 1) r

end Php

end RespBench.Random
