import RespBench.Lib.Text
import RespBench.Php.Workers
import RespBench.Random.Stream

/-!
# The key generators

How the Java, Go, PHP and Python engines turn a keyspace into keys: the defaults of
`KeyspaceConfig`, the generator of a connection, and the format of a key. Each language counts the
length of the prefix in its own way. Text is a list of code points in Java and Python, which encode
the whole key in the end, and a list of bytes in Go and PHP.
-/

namespace RespBench.Keys
open RespBench.Lib RespBench.Lib.Text
open RespBench.Random (Fault Bound Port)

inductive GenerationAlg where
  | sequential_int
  | uniform_rand
deriving DecidableEq

/-- A keyspace that all four engines load, with the optional fields that it may omit. Java's fields
are a `Long` and `int`s, Java and Python want `keys_count` and `key_size_bytes` to be positive, and
Python compares the names of the algorithms as they are. Go and PHP reject nothing of this. -/
structure KeyspaceConfig where
  seed : Option (BitVec 64)
  keysCount : Bound
  keySizeBytes : Option Bound
  keyPrefix : Option (List Char)
  generationAlg : GenerationAlg

abbrev Key := List UInt8

/-- A key generator: the connections that it can be for, the random numbers of a connection, what
`nextKey` makes of one of them, and the format. -/
structure Engine where
  hasConnection : ℕ → Bool
  port : Port
  newRandom : KeyspaceConfig → ℕ → Except Fault port.State
  keyIndex : KeyspaceConfig → ℤ → ℤ
  formatKey : KeyspaceConfig → ℕ → Key

/-! ## Java -/

namespace Java

def getEffectiveKeyPrefix (c : KeyspaceConfig) : List Char := c.keyPrefix.getD []
def getKeySizeBytes (c : KeyspaceConfig) : ℕ := c.keySizeBytes.elim 16 Subtype.val
def getSeedValue (c : KeyspaceConfig) : BitVec 64 := c.seed.getD 0#64

/-- `new Random(config.getSeedValue() + threadIndex)`. -/
def newRandom (c : KeyspaceConfig) (threadIndex : ℕ) : Random.Java.JavaRandom :=
  .new (getSeedValue c + BitVec.ofNat 64 threadIndex)

/-- `keyPrefix + String.format(formatPattern, keyIndex)`, in UTF-8. -/
def formatKey (c : KeyspaceConfig) (keyIndex : ℕ) : Key :=
  let keyPrefix := getEffectiveKeyPrefix c
  let width := max 1 (getKeySizeBytes c - utf16Length keyPrefix)
  utf8 (keyPrefix ++ pad width keyIndex)

end Java

/-- The Java engine. -/
def java : Engine where
  hasConnection _ := true
  port := Random.javaPort
  newRandom c i := .ok (Java.newRandom c i)
  keyIndex _ v := v
  formatKey := Java.formatKey

/-! ## Go -/

namespace Go

def EffectiveKeyPrefix (c : KeyspaceConfig) : List UInt8 :=
  let keyPrefix := utf8 (c.keyPrefix.getD [])
  if keyPrefix = [] then utf8 "key:".toList else keyPrefix

/-- An absent size is 0. -/
def KeySizeBytes (c : KeyspaceConfig) : ℕ := c.keySizeBytes.elim 0 Subtype.val
def SeedValue (c : KeyspaceConfig) : BitVec 64 := c.seed.getD 12345#64

def newRandom (c : KeyspaceConfig) (workerIndex : ℕ) : Random.Go.JavaRandom :=
  Random.Go.NewJavaRandom (SeedValue c + BitVec.ofNat 64 workerIndex)

/-- `fmt.Sprintf("%0*d", width, n)`: a width above a million is refused. -/
def sprintf (width n : ℕ) : List Char :=
  if width > 1000000 then "%!(BADWIDTH)".toList ++ Nat.toDigits 10 n else pad width n

def formatKey (c : KeyspaceConfig) (idx : ℕ) : Key :=
  let keyPrefix := EffectiveKeyPrefix c
  let width := KeySizeBytes c - keyPrefix.length
  let width := if width < 1 then 1 else width
  keyPrefix ++ utf8 (sprintf width idx)

end Go

/-- The Go engine. -/
def go : Engine where
  hasConnection _ := true
  port := Random.goPort
  newRandom c i := .ok (Go.newRandom c i)
  keyIndex _ v := v
  formatKey := Go.formatKey

/-! ## PHP -/

namespace Php

def effectiveKeyPrefix (c : KeyspaceConfig) : List UInt8 :=
  let keyPrefix := utf8 (c.keyPrefix.getD "bench:".toList)
  if keyPrefix = [] then utf8 "bench:".toList else keyPrefix

def keySizeBytes (c : KeyspaceConfig) : ℕ := c.keySizeBytes.elim 16 Subtype.val
def seedValue (c : KeyspaceConfig) : BitVec 64 := c.seed.getD 0#64

/-- `forWorker`: a sum that overflows is a float, and the constructor wants an integer. -/
def newRandom (c : KeyspaceConfig) (workerIndex : ℕ) : Except Fault Random.Php.JavaRandom := do
  let seed ← Random.Php.int (CheckedInt.add (seedValue c).toInt workerIndex)
  return .new seed

def formatKey (c : KeyspaceConfig) (keyIndex : ℕ) : Key :=
  let keyPrefix := effectiveKeyPrefix c
  let paddingWidth := max (keySizeBytes c - keyPrefix.length) 1
  keyPrefix ++ utf8 (pad paddingWidth keyIndex)

end Php

/-- The PHP engine, which caps the number of its workers. -/
def php : Engine where
  hasConnection i := i < RespBench.Php.MAX_WORKERS
  port := Random.phpPort
  newRandom := Php.newRandom
  keyIndex c v := v.tmod c.keysCount.1
  formatKey := Php.formatKey

/-! ## Python -/

namespace Python

def effective_key_prefix (c : KeyspaceConfig) : List Char := c.keyPrefix.getD "bench:".toList
def key_size_bytes (c : KeyspaceConfig) : ℕ := c.keySizeBytes.elim 16 Subtype.val
def seed_value (c : KeyspaceConfig) : BitVec 64 := c.seed.getD 0#64

/-- `KeyGenerator.create_with_seed(keyspace, seed_base + idx)`. -/
def newRandom (c : KeyspaceConfig) (idx : ℕ) : Random.Python.JavaRandom :=
  .new ((seed_value c).toInt + idx)

def format_key (c : KeyspaceConfig) (key_index : ℕ) : Key :=
  let key_prefix := effective_key_prefix c
  let padding_width := max (key_size_bytes c - key_prefix.length) 1
  utf8 <| key_prefix ++ pad padding_width key_index

end Python

/-- The Python engine. -/
def python : Engine where
  hasConnection _ := true
  port := Random.pythonPort
  newRandom c i := .ok (Python.newRandom c i)
  keyIndex c v := v % c.keysCount.1
  formatKey := Python.format_key

def engines : List Engine := [java, go, php, python]

/-! ## The keys of a connection -/

/-- `nextKey` under `uniform_rand`. -/
def Engine.nextKey (e : Engine) (fuel : ℕ) (c : KeyspaceConfig) (random : e.port.State) :
    Except Fault (Key × e.port.State) := do
  let (v, random') ← e.port.nextInt fuel c.keysCount random
  return (e.formatKey c (e.keyIndex c v).toNat, random')

/-- So many keys in a row. -/
def Engine.nextKeys (e : Engine) (fuel : ℕ) (c : KeyspaceConfig) :
    ℕ → e.port.State → Except Fault (List Key)
  | 0, _ => .ok []
  | n + 1, random => do
    let (key, random') ← e.nextKey fuel c random
    let keys ← e.nextKeys fuel c n random'
    return key :: keys

/-- The first keys of a connection under `uniform_rand`. -/
def Engine.firstKeys (e : Engine) (fuel : ℕ) (c : KeyspaceConfig) (connection n : ℕ) :
    Except Fault (List Key) := do
  let random ← e.newRandom c connection
  e.nextKeys fuel c n random

/-- The key of an index of the counter under `sequential_int`. -/
def Engine.sequentialKey (e : Engine) (c : KeyspaceConfig) (index : ℕ) : Key :=
  e.formatKey c (index % c.keysCount.1)

/-- The engines agree on the keys of a keyspace: on the first keys of every connection
when they are random, as far as they have that connection, and on the key of every index
when they are sequential. -/
def SameKeys (c : KeyspaceConfig) : Prop :=
  match c.generationAlg with
  | .uniform_rand =>
    ∀ connection n, ∃ keys, ∀ e ∈ engines, e.hasConnection connection →
      ∀ extra, e.firstKeys (2 ^ 48 + extra) c connection n = .ok keys
  | .sequential_int => ∀ index, ∃ key, ∀ e ∈ engines, e.sequentialKey c index = key

end RespBench.Keys
