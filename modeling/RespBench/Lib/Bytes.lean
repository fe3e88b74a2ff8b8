import RespBench.Lib.IntBits
import RespBench.Lib.Words

/-!
# Integers as bytes

Big-endian fields (`bigEndian`) and LEB128 numbers (`leb128`) with the zigzag map, which makes
signed integers small natural numbers (`zigzag`). `zigzag_word` and `zigzag_int` compute the map on
64-bit words and on unbounded integers; the lemmas before them are the steps of an LEB128 loop on
either. `ofBigEndian_bigEndian` reads a field back, `zigzag_inverse` computes the inverse of the
map, and `leb128_byte` and `or_shifted` are the steps of a decoding loop.
-/

namespace RespBench.Lib.Bytes

/-- The low `8 * k` bits of an integer, the highest byte first. -/
def bigEndian (k : ℕ) (x : ℤ) : List UInt8 :=
  (List.range k).map fun i => UInt8.ofNat (x / 256 ^ (k - 1 - i) % 256).toNat

/-- The number that bytes spell, the highest byte first. -/
def ofBigEndian (bytes : List UInt8) : ℕ := bytes.foldl (fun n byte => n * 256 + byte.toNat) 0

/-- Seven bits for each byte, the lowest first; all bytes but the last have their high bit set. -/
def leb128 (n : ℕ) : List UInt8 :=
  if n < 128 then [UInt8.ofNat n] else UInt8.ofNat (n % 128 + 128) :: leb128 (n / 128)
termination_by n
decreasing_by omega

/-- Signed integers as natural numbers: 0, -1, 1, -2, 2, … -/
def zigzag : ℤ → ℕ
  | .ofNat n => 2 * n
  | .negSucc n => 2 * n + 1

/-- So many bytes. -/
@[simp] lemma length_bigEndian (k : ℕ) (x : ℤ) : (bigEndian k x).length = k := by simp [bigEndian]

/-- The last byte is the number modulo 256. -/
lemma bigEndian_mod {k : ℕ} (hk : 0 < k) {x y : ℤ} (h : bigEndian k x = bigEndian k y) :
    x % 256 = y % 256 := by
  obtain ⟨k, rfl⟩ : ∃ j, k = j + 1 := ⟨k - 1, by omega⟩
  have hlast : ∀ x, (bigEndian (k + 1) x).getLast? = some (UInt8.ofNat (x % 256).toNat) := by
    intro x
    simp [bigEndian, List.range_succ]
  have hbyte := congrArg List.getLast? h
  rw [hlast, hlast, Option.some_inj] at hbyte
  have hnat := congrArg UInt8.toNat hbyte
  rw [UInt8.toNat_ofNat', UInt8.toNat_ofNat'] at hnat
  omega

/-- A field before the bytes that are read. -/
lemma drop_bigEndian {k n : ℕ} (h : k ≤ n) (x : ℤ) (rest : List UInt8) :
    (bigEndian k x ++ rest).drop n = rest.drop (n - k) := by
  rw [List.drop_append, length_bigEndian,
    List.drop_of_length_le (by rw [length_bigEndian]; exact h), List.nil_append]

/-- The field that is read. -/
lemma take_bigEndian (k : ℕ) (x : ℤ) (rest : List UInt8) :
    (bigEndian k x ++ rest).take k = bigEndian k x :=
  List.take_left' (length_bigEndian k x)

/-- The bytes of a number are those of its quotient and its last byte. -/
lemma bigEndian_succ (k : ℕ) (x : ℤ) :
    bigEndian (k + 1) x = bigEndian k (x / 256) ++ [UInt8.ofNat (x % 256).toNat] := by
  rw [bigEndian, bigEndian, List.range_succ, List.map_append, List.map_singleton]
  congr 1
  · refine List.map_congr_left fun i hi => ?_
    have hi := List.mem_range.mp hi
    rw [show k + 1 - 1 - i = (k - 1 - i) + 1 from by omega, pow_succ',
      Int.ediv_ediv_of_nonneg (by norm_num)]
  · rw [Nat.add_sub_cancel, Nat.sub_self, pow_zero, Int.ediv_one]

/-- Bytes spell the number that was written, up to the bits that did not fit. -/
theorem ofBigEndian_bigEndian (k : ℕ) (x : ℤ) :
    (ofBigEndian (bigEndian k x) : ℤ) = x % 256 ^ k := by
  induction k generalizing x with
  | zero => rw [pow_zero, Int.emod_one]; rfl
  | succ k ih =>
    have hlow : ((UInt8.ofNat (x % 256).toNat).toNat : ℤ) = x % 256 := by
      rw [UInt8.toNat_ofNat']
      omega
    have hsnoc : ofBigEndian (bigEndian (k + 1) x)
        = ofBigEndian (bigEndian k (x / 256)) * 256 + (UInt8.ofNat (x % 256).toNat).toNat := by
      rw [bigEndian_succ, ofBigEndian, List.foldl_append]
      rfl
    rw [hsnoc]
    push_cast
    rw [ih, hlow, pow_succ']
    have hsplit : x = 256 * (x / 256) + x % 256 := (Int.mul_ediv_add_emod x 256).symm
    have hhigh : x / 256 = 256 ^ k * (x / 256 / 256 ^ k) + x / 256 % 256 ^ k :=
      (Int.mul_ediv_add_emod (x / 256) (256 ^ k)).symm
    have hpos : (0 : ℤ) < 256 ^ k := by positivity
    have hlt := Int.emod_lt_of_pos (x / 256) hpos
    have hnonneg := Int.emod_nonneg (x / 256) hpos.ne'
    have hvalue : x = (x / 256 % 256 ^ k * 256 + x % 256) + 256 * 256 ^ k
      * (x / 256 / 256 ^ k) := by
      linear_combination hsplit + 256 * hhigh
    conv_rhs => rw [hvalue]
    rw [Int.add_mul_emod_self_left]
    exact (Int.emod_eq_of_lt (by omega) (by omega)).symm

/-- An unsigned field reads back. -/
lemma ofBigEndian_natCast {k n : ℕ} (hn : n < 256 ^ k) : ofBigEndian (bigEndian k n) = n := by
  have h := ofBigEndian_bigEndian k n
  rw [Int.emod_eq_of_lt (by positivity) (by exact_mod_cast hn)] at h
  exact_mod_cast h

/-- A signed field of 64 bits reads back. -/
lemma ofBigEndian_toInt {x : ℤ} (hlow : -2 ^ 63 ≤ x) (hhigh : x < 2 ^ 63) :
    (BitVec.ofNat 64 (ofBigEndian (bigEndian 8 x))).toInt = x := by
  have h := ofBigEndian_bigEndian 8 x
  norm_num at h
  rw [BitVec.toInt_eq_toNat_cond, BitVec.toNat_ofNat]
  split <;> omega

/-- The code of a 64-bit integer is a 64-bit word. -/
lemma zigzag_lt {v : ℤ} (hlow : -2 ^ 63 ≤ v) (hhigh : v < 2 ^ 63) : zigzag v < 2 ^ 64 := by
  cases v with
  | ofNat n =>
    rw [Int.ofNat_eq_natCast] at hhigh
    simp only [zigzag]
    omega
  | negSucc n =>
    simp only [zigzag]
    omega

/-! ## Seven bits at a time -/

/-- The high bit of a byte is added. -/
lemma or_high {n : ℕ} (hn : n < 128) : n ||| 128 = n + 128 := by
  have h := Nat.two_pow_add_eq_or_of_lt (i := 7) hn 1
  rw [Nat.or_comm, add_comm]
  exact h.symm

section Words
variable {n : ℕ} (hn : n < 2 ^ 64)
include hn

/-- The low seven bits of a word. -/
lemma word_low : BitVec.ofNat 64 n &&& 0x7F#64 = BitVec.ofNat 64 (n % 128) :=
  Words.and_mask (w := 64) (k := 7) (by norm_num) hn

/-- Whether a word has more than seven bits. -/
lemma word_rest : BitVec.ofNat 64 n &&& ~~~0x7F#64 = 0#64 ↔ n < 128 := by
  have hsplit : BitVec.ofNat 64 n &&& ~~~0x7F#64 = 0#64
      ↔ BitVec.ofNat 64 n &&& 0x7F#64 = BitVec.ofNat 64 n := by
    generalize BitVec.ofNat 64 n = x
    constructor <;> intro h <;> apply BitVec.eq_of_getLsbD_eq <;> intro i hi <;>
    · have hbit := congrArg (BitVec.getLsbD · i) h
      simp only [BitVec.getLsbD_and, BitVec.getLsbD_not, BitVec.getLsbD_zero, hi, decide_true,
        Bool.true_and] at hbit ⊢
      revert hbit
      cases x.getLsbD i <;> cases (0x7F#64).getLsbD i <;> simp
  rw [hsplit, word_low hn, Words.ofNat_inj ((Nat.mod_le _ _).trans_lt hn) hn,
    Nat.mod_eq_iff_lt (by norm_num)]

end Words

/-- Whether a number has more than seven bits, on unbounded integers. -/
lemma int_rest (n : ℕ) : Int.land n (Int.lnot 0x7F) = 0 ↔ n < 128 := by
  have hland : Int.land n (Int.lnot 0x7F) = (Nat.ldiff n 127 : ℕ) := rfl
  have hmod : Nat.ldiff n 127 = 0 ↔ n % 2 ^ 7 = n := by
    constructor
    · intro h
      apply Nat.eq_of_testBit_eq
      intro i
      have hbit := congrArg (Nat.testBit · i) h
      rw [Nat.testBit_mod_two_pow]
      simp only [Nat.testBit_ldiff, show (127 : ℕ) = 2 ^ 7 - 1 from rfl,
        Nat.testBit_two_pow_sub_one, Nat.zero_testBit] at hbit
      revert hbit
      cases n.testBit i <;> cases decide (i < 7) <;> simp
    · intro h
      apply Nat.eq_of_testBit_eq
      intro i
      rw [← h]
      simp only [Nat.testBit_ldiff, show (127 : ℕ) = 2 ^ 7 - 1 from rfl,
        Nat.testBit_two_pow_sub_one, Nat.testBit_mod_two_pow, Nat.zero_testBit]
      cases n.testBit i <;> cases decide (i < 7) <;> simp
  rw [hland, Nat.cast_eq_zero, hmod, Nat.mod_eq_iff_lt (by norm_num)]
  norm_num

/-! ## The zigzag map -/

/-- The zigzag map on words. -/
theorem zigzag_word {v : ℤ} (hlow : -2 ^ 63 ≤ v) (hhigh : v < 2 ^ 63) :
    (BitVec.ofInt 64 v <<< 1) ^^^ (BitVec.ofInt 64 v).sshiftRight 63
      = BitVec.ofNat 64 (zigzag v) := by
  cases v with
  | ofNat n =>
    rw [Int.ofNat_eq_natCast] at hhigh ⊢
    have hn : n < 2 ^ 63 := by omega
    rw [BitVec.ofInt_natCast, Words.sshiftRight_small (w := 64) hn, Nat.div_eq_of_lt hn,
      BitVec.xor_zero]
    apply BitVec.eq_of_toNat_eq
    rw [BitVec.toNat_shiftLeft, BitVec.toNat_ofNat, BitVec.toNat_ofNat, Nat.shiftLeft_eq]
    simp only [zigzag]
    omega
  | negSucc n =>
    have hn : n < 2 ^ 63 := by omega
    -- the arithmetic shift of the complement is all ones
    rw [BitVec.ofInt_negSucc_eq_not_ofNat, ← BitVec.not_sshiftRight,
      Words.sshiftRight_small (w := 64) hn, Nat.div_eq_of_lt hn, BitVec.not_zero,
        BitVec.xor_allOnes]
    apply BitVec.eq_of_toNat_eq
    rw [BitVec.toNat_not, BitVec.toNat_shiftLeft, BitVec.toNat_not, BitVec.toNat_ofNat,
      BitVec.toNat_ofNat, Nat.shiftLeft_eq]
    simp only [zigzag]
    omega

/-- The zigzag map on unbounded integers, of which the low 64 bits are kept. -/
theorem zigzag_int {v : ℤ} (hlow : -2 ^ 63 ≤ v) (hhigh : v < 2 ^ 63) :
    Int.land (Int.xor (v <<< (1 : ℕ)) (v >>> (63 : ℕ))) 0xFFFFFFFFFFFFFFFF = zigzag v := by
  have hxor : Int.xor (v <<< (1 : ℕ)) (v >>> (63 : ℕ)) = zigzag v := by
    rw [Int.shiftLeft_eq, Int.shiftRight_eq_div_pow]
    cases v with
    | ofNat n =>
      rw [Int.ofNat_eq_natCast] at hhigh ⊢
      rw [show (n : ℤ) * 2 ^ 1 = (2 * n : ℕ) from by push_cast; ring,
        Int.ediv_eq_zero_of_lt (by omega) (by push_cast; exact hhigh)]
      exact congrArg Nat.cast (Nat.xor_zero _)
    | negSucc n =>
      rw [show Int.negSucc n * 2 ^ 1 = Int.negSucc (2 * n + 1) from by omega,
        show Int.negSucc n / (2 ^ 63 : ℕ) = Int.negSucc 0 from by omega]
      exact congrArg Nat.cast (Nat.xor_zero _)
  rw [hxor, show (0xFFFFFFFFFFFFFFFF : ℤ) = 2 ^ 64 - 1 from by norm_num, IntBits.land_mask]
  have hlt := zigzag_lt hlow hhigh
  exact Int.emod_eq_of_lt (by omega) (by exact_mod_cast hlt)

/-- The inverse of the zigzag map on unbounded integers. -/
theorem zigzag_inverse (v : ℤ) :
    Int.xor ((zigzag v : ℤ) >>> (1 : ℕ)) (-Int.land (zigzag v) 1) = v := by
  have hland : ∀ n : ℕ, Int.land n 1 = (n % 2 : ℕ) :=
    fun n => congrArg Nat.cast (Nat.and_one_is_mod n)
  rw [Int.shiftRight_eq_div_pow, hland]
  cases v with
  | ofNat n =>
    have hhalf : ((zigzag (.ofNat n) : ℕ) : ℤ) / (2 ^ 1 : ℕ) = n := by simp only [zigzag]; omega
    have hlow : zigzag (.ofNat n) % 2 = 0 := by simp only [zigzag]; omega
    rw [hhalf, hlow]
    exact congrArg Nat.cast (Nat.xor_zero n)
  | negSucc n =>
    have hhalf : ((zigzag (.negSucc n) : ℕ) : ℤ) / (2 ^ 1 : ℕ) = n := by simp only [zigzag]; omega
    have hlow : zigzag (.negSucc n) % 2 = 1 := by simp only [zigzag]; omega
    rw [hhalf, hlow]
    exact congrArg Int.negSucc (Nat.xor_zero n)

/-! ## Decoding -/

/-- The number that a byte stands for in an LEB128 sequence, and whether it is the last one. -/
lemma leb128_byte (byte : UInt8) : Int.land byte.toNat 0x7F = (byte.toNat % 128 : ℕ) ∧
    (Int.land byte.toNat 0x80 = 0 ↔ byte.toNat < 128) := by
  have hlow : Int.land byte.toNat 0x7F = (byte.toNat &&& 2 ^ 7 - 1 : ℕ) := rfl
  have hhigh : Int.land byte.toNat 0x80 = (byte.toNat &&& 2 ^ 7 : ℕ) := rfl
  have hbyte : byte.toNat < 256 := byte.toNat_lt
  refine ⟨by rw [hlow, Nat.and_two_pow_sub_one_eq_mod], ?_⟩
  rw [hhigh, Nat.cast_eq_zero, Nat.and_two_pow, mul_eq_zero, or_iff_left (by norm_num),
    Bool.toNat_eq_zero, ← Bool.not_eq_true, Nat.testBit_eq_decide_div_mod_eq, decide_eq_true_eq]
  omega

/-- Seven more bits above those that are already there. -/
lemma or_shifted {a b shift : ℕ} (ha : a < 2 ^ shift) :
    Int.lor a ((b : ℤ) <<< shift) = (a + b * 2 ^ shift : ℕ) := by
  have hshift : (b : ℤ) <<< shift = (b * 2 ^ shift : ℕ) := by
    rw [Int.shiftLeft_eq]
    push_cast
    rfl
  have hor : Int.lor a (b * 2 ^ shift : ℕ) = (a ||| b * 2 ^ shift : ℕ) := rfl
  rw [hshift, hor, Nat.or_comm, mul_comm, ← Nat.two_pow_add_eq_or_of_lt ha, add_comm]

/-- The first byte of an LEB128 sequence, and the rest of it. -/
lemma leb128_cases (n : ℕ) : (n < 128 ∧ leb128 n = [UInt8.ofNat n]) ∨
    (128 ≤ n ∧ leb128 n = UInt8.ofNat (n % 128 + 128) :: leb128 (n / 128)) := by
  rw [leb128]
  rcases Nat.lt_or_ge n 128 with h | h
  · exact .inl ⟨h, if_pos h⟩
  · exact .inr ⟨h, if_neg (not_lt.mpr h)⟩

/-- A code has a byte. -/
lemma leb128_ne_nil (n : ℕ) : leb128 n ≠ [] := by
  rcases leb128_cases n with ⟨-, h⟩ | ⟨-, h⟩ <;> rw [h] <;> exact List.cons_ne_nil _ _

end RespBench.Lib.Bytes
