import RespBench.Lib.CheckedInt
import RespBench.Random.Basic

/-!
# The `JavaRandom` classes

`java.util.Random` as documented, and the classes of the Go, PHP, Python, Ruby, Rust and Node
engines, each with the arithmetic of its own language:

* Java, Go, Rust: two's complement words, `BitVec 64` for `long`/`int64`/`i64` and `BitVec 32` for
  `int`/`int32`/`i32`, all of whose operations wrap;
* PHP: 64-bit integers whose sums and products must not overflow (`Lib.CheckedInt`), and the
  24-bit split of the multiplication;
* Python, Ruby and Node (`BigInt` state): unbounded integers. Node's `number`s stay below `2 ^ 53`
here and are integers as well, with `toInt32` for the operators that convert to 32 bits.

The seeds are 64-bit words; the languages with other integers receive their signed value.
-/

namespace RespBench.Random
open RespBench.Lib

/-! ## Java -/

namespace Java

structure JavaRandom where
  seed : BitVec 64

def multiplier : BitVec 64 := 0x5DEECE66D#64
def addend : BitVec 64 := 0xB#64
def mask : BitVec 64 := (1#64 <<< 48) - 1#64

/-- `new Random(long seed)`. -/
def JavaRandom.new (seed : BitVec 64) : JavaRandom := ⟨(seed ^^^ multiplier) &&& mask⟩

/-- `next(int bits)`: advance the state and return its `bits` high bits as an `int`. -/
def JavaRandom.next (r : JavaRandom) (bits : ℕ) : BitVec 32 × JavaRandom :=
  let seed := (r.seed * multiplier + addend) &&& mask
  ((seed >>> (48 - bits)).setWidth 32, ⟨seed⟩)

/-- `do { bits = next(31); val = bits % bound; } while (bits - val + (bound - 1) < 0)`. -/
def JavaRandom.rejectionLoop (bound : BitVec 32) :
    ℕ → JavaRandom → Except Fault (BitVec 32 × JavaRandom)
  | 0, _ => .error .timeout
  | fuel + 1, r =>
    let (bits, r') := r.next 31
    let val := bits.srem bound
    if (bits - val + (bound - 1#32)).slt 0#32 then rejectionLoop bound fuel r' else .ok (val, r')

/-- `nextInt(int bound)`. -/
def JavaRandom.nextInt (fuel : ℕ) (bound : BitVec 32) (r : JavaRandom) :
    Except Fault (BitVec 32 × JavaRandom) :=
  if bound.sle 0#32 then .error (.illegalArgument "bound must be positive")
  else if bound &&& -bound = bound then
    let (bits, r') := r.next 31
    .ok (((bound.signExtend 64 * bits.signExtend 64).sshiftRight 31).setWidth 32, r')
  else rejectionLoop bound fuel r

end Java

/-! ## Go -/

namespace Go

structure JavaRandom where
  seed : BitVec 64

def jrMultiplier : BitVec 64 := 0x5DEECE66D#64
def jrAddend : BitVec 64 := 0xB#64
def jrMask : BitVec 64 := (1#64 <<< 48) - 1#64

def NewJavaRandom (seed : BitVec 64) : JavaRandom := ⟨(seed ^^^ jrMultiplier) &&& jrMask⟩

def JavaRandom.next (r : JavaRandom) (bits : ℕ) : BitVec 32 × JavaRandom :=
  let seed := (r.seed * jrMultiplier + jrAddend) &&& jrMask
  ((seed.sshiftRight (48 - bits)).setWidth 32, ⟨seed⟩)

/-- The loop of the general case: the test is made in `int32`, the value returned is an `int`. A
remainder by zero panics. -/
def JavaRandom.rejectionLoop (bound : BitVec 64) :
    ℕ → JavaRandom → Except Fault (BitVec 64 × JavaRandom)
  | 0, _ => .error .timeout
  | fuel + 1, r =>
    if bound.setWidth 32 = 0#32 then .error (.illegalArgument "integer divide by zero")
    else
      let (bits, r') := r.next 31
      let val := bits.srem (bound.setWidth 32)
      if (0#32).sle (bits - val + (bound - 1#64).setWidth 32) then .ok (val.signExtend 64, r')
      else rejectionLoop bound fuel r'

def JavaRandom.NextInt (fuel : ℕ) (bound : BitVec 64) (r : JavaRandom) :
    Except Fault (BitVec 64 × JavaRandom) :=
  if bound.sle 0#64 then .error (.illegalArgument "bound must be positive")
  else if bound &&& -bound = bound then
    let (bits, r') := r.next 31
    .ok ((bound * bits.signExtend 64).sshiftRight 31, r')
  else rejectionLoop bound fuel r

end Go

/-! ## Rust -/

namespace Rust

structure JavaRandom where
  seed : BitVec 64

def MULTIPLIER : BitVec 64 := 0x5DEECE66D#64
def ADDEND : BitVec 64 := 0xB#64
def MASK : BitVec 64 := (1#64 <<< 48) - 1#64

def initialScramble (seed : BitVec 64) : BitVec 64 := (seed ^^^ MULTIPLIER) &&& MASK

def JavaRandom.new (seed : BitVec 64) : JavaRandom := ⟨initialScramble seed⟩

def JavaRandom.nextBits (r : JavaRandom) (bits : ℕ) : BitVec 32 × JavaRandom :=
  let seed := (r.seed * MULTIPLIER + ADDEND) &&& MASK
  ((seed.sshiftRight (48 - bits)).setWidth 32, ⟨seed⟩)

def JavaRandom.rejectionLoop (bound : BitVec 32) :
    ℕ → JavaRandom → Except Fault (BitVec 32 × JavaRandom)
  | 0, _ => .error .timeout
  | fuel + 1, r =>
    let (bits, r') := r.nextBits 31
    let val := bits.srem bound
    if (0#32).sle (bits - val + (bound - 1#32)) then .ok (val, r') else rejectionLoop bound fuel r'

def JavaRandom.nextInt (fuel : ℕ) (bound : BitVec 32) (r : JavaRandom) :
    Except Fault (BitVec 32 × JavaRandom) :=
  if bound.sle 0#32 then .error (.illegalArgument "bound must be positive")
  else if bound &&& -bound = bound then
    let (bits, r') := r.nextBits 31
    .ok (((bound.signExtend 64 * bits.signExtend 64).sshiftRight 31).setWidth 32, r')
  else rejectionLoop bound fuel r

end Rust

/-! ## PHP -/

namespace Php

structure JavaRandom where
  seed : ℤ

def MULTIPLIER : ℤ := 0x5DEECE66D
def ADDEND : ℤ := 0xB
def MASK : ℤ := 2 ^ 48 - 1

/-- A checked operation inside a draw. -/
def int : Option ℤ → Except Fault ℤ
  | some a => .ok a
  | none => .error .overflow

def initialScramble (seed : ℤ) : ℤ := Int.land (Int.xor seed MULTIPLIER) MASK

def JavaRandom.new (seed : ℤ) : JavaRandom := ⟨initialScramble seed⟩

/-- The split multiplication: `seed = hi * 2 ^ 24 + lo`, every partial product far below `2 ^
63`. -/
def JavaRandom.nextBits (r : JavaRandom) (bits : ℕ) : Except Fault (ℤ × JavaRandom) := do
  let lo := Int.land r.seed 0xFFFFFF
  let hi := Int.land (r.seed >>> (24 : ℕ)) 0xFFFFFF
  let loM ← int (CheckedInt.mul lo MULTIPLIER)
  let hiM ← int (CheckedInt.mul hi MULTIPLIER)
  let sum ← int (CheckedInt.add loM (CheckedInt.shl (Int.land hiM 0xFFFFFF) 24))
  let product := Int.land sum MASK
  let sum' ← int (CheckedInt.add product ADDEND)
  let seed := Int.land sum' MASK
  return (seed >>> (48 - bits), ⟨seed⟩)

/-- The loop of the general case: the sum is compared with `2147483647` instead of overflowing. -/
def JavaRandom.rejectionLoop (bound : ℤ) : ℕ → JavaRandom → Except Fault (ℤ × JavaRandom)
  | 0, _ => .error .timeout
  | fuel + 1, r => do
    let (bits, r') ← r.nextBits 31
    let val := bits.tmod bound
    let diff ← int (CheckedInt.sub bits val)
    let last ← int (CheckedInt.sub bound 1)
    let sum ← int (CheckedInt.add diff last)
    if sum ≤ 2147483647 then return (val, r') else rejectionLoop bound fuel r'

def JavaRandom.nextInt (fuel : ℕ) (bound : ℤ) (r : JavaRandom) : Except Fault (ℤ × JavaRandom) := do
  if bound ≤ 0 then throw (.illegalArgument "bound must be positive")
  let neg ← int (CheckedInt.sub 0 bound)
  if Int.land bound neg = bound then
    let (bits, r') ← r.nextBits 31
    let prod ← int (CheckedInt.mul bound bits)
    return (prod >>> (31 : ℕ), r')
  rejectionLoop bound fuel r

end Php

/-! ## Python -/

namespace Python

structure JavaRandom where
  seed : ℤ

def MULTIPLIER : ℤ := 0x5DEECE66D
def ADDEND : ℤ := 0xB
def MASK : ℤ := 2 ^ 48 - 1

/-- The low 32 bits as a signed 32-bit integer. -/
def to_int32 (value : ℤ) : ℤ :=
  let value := Int.land value 0xFFFFFFFF
  if value ≥ 0x80000000 then value - 0x100000000 else value

def initial_scramble (seed : ℤ) : ℤ := Int.land (Int.xor seed MULTIPLIER) MASK

def JavaRandom.new (seed : ℤ) : JavaRandom := ⟨initial_scramble seed⟩

def JavaRandom.next_bits (r : JavaRandom) (bits : ℕ) : ℤ × JavaRandom :=
  let seed := Int.land (r.seed * MULTIPLIER + ADDEND) MASK
  (seed >>> (48 - bits), ⟨seed⟩)

def JavaRandom.rejectionLoop (bound : ℤ) : ℕ → JavaRandom → Except Fault (ℤ × JavaRandom)
  | 0, _ => .error .timeout
  | fuel + 1, r =>
    let (bits, r') := r.next_bits 31
    let val := bits % bound
    if to_int32 (bits - val + (bound - 1)) ≥ 0 then .ok (val, r') else rejectionLoop bound fuel r'

def JavaRandom.next_int (fuel : ℕ) (bound : ℤ) (r : JavaRandom) : Except Fault (ℤ × JavaRandom) :=
  if bound ≤ 0 then .error (.illegalArgument "bound must be positive")
  else if Int.land bound (-bound) = bound then
    let (bits, r') := r.next_bits 31
    .ok ((bound * bits) >>> (31 : ℕ), r')
  else rejectionLoop bound fuel r

end Python

/-! ## Ruby -/

namespace Ruby

structure JavaRandom where
  seed : ℤ

def MULTIPLIER : ℤ := 0x5DEECE66D
def ADDEND : ℤ := 0xB
def MASK : ℤ := 2 ^ 48 - 1

def initial_scramble (seed : ℤ) : ℤ := Int.land (Int.xor seed MULTIPLIER) MASK

def JavaRandom.new (seed : ℤ) : JavaRandom := ⟨initial_scramble seed⟩

def JavaRandom.next_bits (r : JavaRandom) (bits : ℕ) : ℤ × JavaRandom :=
  let seed := Int.land (r.seed * MULTIPLIER + ADDEND) MASK
  (seed >>> (48 - bits), ⟨seed⟩)

/-- The loop of the general case: the sum does not overflow, so it is never negative. -/
def JavaRandom.rejectionLoop (bound : ℤ) : ℕ → JavaRandom → Except Fault (ℤ × JavaRandom)
  | 0, _ => .error .timeout
  | fuel + 1, r =>
    let (bits, r') := r.next_bits 31
    let val := bits % bound
    if bits - val + (bound - 1) ≥ 0 then .ok (val, r') else rejectionLoop bound fuel r'

def JavaRandom.next_int (fuel : ℕ) (bound : ℤ) (r : JavaRandom) : Except Fault (ℤ × JavaRandom) :=
  if bound ≤ 0 then .error (.illegalArgument "bound must be positive")
  else if Int.land bound (-bound) = bound then
    let (bits, r') := r.next_bits 31
    .ok ((bound * bits) >>> (31 : ℕ), r')
  else rejectionLoop bound fuel r

end Ruby

/-! ## Node -/

namespace Node

structure JavaRandom where
  seed : ℤ

def MULTIPLIER : ℤ := 0x5DEECE66D
def ADDEND : ℤ := 0xB
def MASK : ℤ := 2 ^ 48 - 1

/-- `value | 0`. -/
def toInt32 (value : ℤ) : ℤ := value.bmod (2 ^ 32)

def initialScramble (seed : ℤ) : ℤ := Int.land (Int.xor seed MULTIPLIER) MASK

def JavaRandom.new (seed : ℤ) : JavaRandom := ⟨initialScramble seed⟩

def JavaRandom.next (r : JavaRandom) (bits : ℕ) : ℤ × JavaRandom :=
  let seed := Int.land (r.seed * MULTIPLIER + ADDEND) MASK
  (seed >>> (48 - bits), ⟨seed⟩)

/-- The loop of the general case. The remainder of JavaScript truncates. -/
def JavaRandom.rejectionLoop (bound : ℤ) : ℕ → JavaRandom → Except Fault (ℤ × JavaRandom)
  | 0, _ => .error .timeout
  | fuel + 1, r =>
    let (bits, r') := r.next 31
    let val := bits.tmod bound
    if toInt32 (bits - val + (bound - 1)) ≥ 0 then .ok (val, r') else rejectionLoop bound fuel r'

/-- Both operands of the bitwise test are `number`s, hence converted to 32 bits. -/
def JavaRandom.nextInt (fuel : ℕ) (bound : ℤ) (r : JavaRandom) : Except Fault (ℤ × JavaRandom) :=
  if bound ≤ 0 then
    .error (.illegalArgument ("bound must be a positive integer (got " ++ toString bound ++ ")"))
  else if Int.land (toInt32 bound) (toInt32 (-bound)) = bound then
    let (bits, r') := r.next 31
    .ok ((bound * bits) >>> (31 : ℕ), r')
  else rejectionLoop bound fuel r

end Node

/-! ## The ports -/

/-- `java.util.Random`. -/
def javaPort : Port where
  State := Java.JavaRandom
  new := .new
  nextInt fuel b r := (r.nextInt fuel (BitVec.ofNat 32 b)).map fun p => (p.1.toInt, p.2)

/-- The Go engine's port. -/
def goPort : Port where
  State := Go.JavaRandom
  new := Go.NewJavaRandom
  nextInt fuel b r := (r.NextInt fuel (BitVec.ofNat 64 b)).map fun p => (p.1.toInt, p.2)

/-- The Rust engine's port. -/
def rustPort : Port where
  State := Rust.JavaRandom
  new := .new
  nextInt fuel b r := (r.nextInt fuel (BitVec.ofNat 32 b)).map fun p => (p.1.toInt, p.2)

/-- The PHP engine's port. -/
def phpPort : Port where
  State := Php.JavaRandom
  new seed := .new seed.toInt
  nextInt fuel b r := r.nextInt fuel b.1

/-- The Python engine's port. -/
def pythonPort : Port where
  State := Python.JavaRandom
  new seed := .new seed.toInt
  nextInt fuel b r := r.next_int fuel b.1

/-- The Node engine's port. -/
def nodePort : Port where
  State := Node.JavaRandom
  new seed := .new seed.toInt
  nextInt fuel b r := r.nextInt fuel b.1

end RespBench.Random
