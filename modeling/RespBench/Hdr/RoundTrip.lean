import RespBench.Hdr.Decoder
import RespBench.Hdr.Payload

/-!
# The counts survive encoding

Ruby reads the counts that Go and PHP write. `decode_zigzag_long_eq` reads one number back, whatever
bytes stand before and behind it; `decodeCounts_eq` is the loop over the counts, and the invariant
that carries it is `counted`: all counts below the current index are set, and no other.
-/

namespace RespBench.Hdr
open RespBench.Lib
open RespBench.Lib.Bytes

/-! ## One number -/

/-- The loop reads the bytes of a number, on top of the bits that are already there. -/
lemma decodeLoop_eq {data rest : List UInt8} {offset bytes_read n : ℕ}
    (hdata : data.drop (offset + bytes_read) = leb128 n ++ rest) {fuel : ℕ}
    (hfuel : (leb128 n).length ≤ fuel) {shift a : ℕ} (ha : a < 2 ^ shift) :
    Ruby.decodeLoop data offset fuel bytes_read shift a
      = some (((a + n * 2 ^ shift : ℕ) : ℤ), bytes_read + (leb128 n).length) := by
  induction fuel generalizing bytes_read n shift a with
  | zero => exact absurd (List.length_eq_zero_iff.mp (Nat.le_zero.mp hfuel)) (leb128_ne_nil n)
  | succ fuel ih =>
    have hget : data[offset + bytes_read]? = (leb128 n ++ rest).head? := by
      rw [← hdata, List.head?_drop]
    rcases leb128_cases n with ⟨hn, hbytes⟩ | ⟨hn, hbytes⟩
    · have hbyte : (UInt8.ofNat n).toNat = n := Nat.mod_eq_of_lt (by omega)
      obtain ⟨hlow, hlast⟩ := leb128_byte (UInt8.ofNat n)
      rw [hbyte] at hlow hlast
      rw [hbytes, List.cons_append, List.head?_cons] at hget
      rw [Ruby.decodeLoop, hget, hbytes]
      dsimp only
      rw [hbyte, if_pos (hlast.mpr hn), hlow, Nat.mod_eq_of_lt hn, or_shifted ha,
        List.length_singleton]
    · have hmod : n % 128 < 128 := Nat.mod_lt n (by norm_num)
      have hbyte : (UInt8.ofNat (n % 128 + 128)).toNat = n % 128 + 128 :=
        Nat.mod_eq_of_lt (by omega)
      obtain ⟨hlow, hlast⟩ := leb128_byte (UInt8.ofNat (n % 128 + 128))
      rw [hbyte] at hlow hlast
      rw [hbytes, List.cons_append, List.head?_cons] at hget
      rw [hbytes, List.length_cons] at hfuel
      rw [Ruby.decodeLoop, hget, hbytes]
      dsimp only
      have hdrop : data.drop (offset + (bytes_read + 1)) = leb128 (n / 128) ++ rest := by
        rw [← add_assoc, ← List.drop_drop, hdata, hbytes]
        rfl
      have hsmall : a + n % 128 * 2 ^ shift < 2 ^ (shift + 7) := by
        have hle : n % 128 * 2 ^ shift ≤ 127 * 2 ^ shift := Nat.mul_le_mul_right _ (by omega)
        rw [pow_add]
        omega
      rw [hbyte, if_neg (fun h => absurd (hlast.mp h) (by omega)), hlow,
        show (n % 128 + 128) % 128 = n % 128 from by omega, or_shifted ha,
        ih hdrop (by omega) hsmall, List.length_cons]
      have hvalue : a + n % 128 * 2 ^ shift + n / 128 * 2 ^ (shift + 7) = a + n * 2 ^ shift := by
        conv_rhs => rw [← Nat.div_add_mod n 128]
        rw [pow_add]
        ring
      rw [hvalue, add_assoc, add_comm 1]

/-- `decode_zigzag_long` reads a number back, whatever bytes stand before and behind it. -/
theorem decode_zigzag_long_eq {data rest : List UInt8} {offset : ℕ} {v : ℤ}
    (hdata : data.drop offset = leb128 (zigzag v) ++ rest) :
    Ruby.decode_zigzag_long data offset = (v, (leb128 (zigzag v)).length) := by
  have hlength : (leb128 (zigzag v)).length ≤ data.length + 1 := by
    have := congrArg List.length hdata
    rw [List.length_drop, List.length_append] at this
    omega
  have hstart : data.drop (offset + 0) = leb128 (zigzag v) ++ rest := hdata
  have hzero : 0 < 2 ^ 0 := by norm_num
  have hloop := decodeLoop_eq hstart hlength hzero
  rw [Nat.cast_zero] at hloop
  rw [Ruby.decode_zigzag_long, hloop]
  dsimp only
  rw [zero_add, pow_zero, mul_one, zigzag_inverse, zero_add]

/-! ## The counts -/

/-- The counts below an index. -/
def counted (rawCount : ℕ → ℤ) (index : ℕ) : ℕ → ℤ := fun i => if i < index then rawCount i else 0

/-- A run of zeros consists of zeros. -/
lemma zeroRun_zero {rawCount : ℕ → ℤ} {relevant index : ℕ} (fuel zeros : ℕ)
    (hzero : ∀ i < zeros, rawCount (index + i) = 0) :
    ∀ i < zeroRun rawCount relevant index fuel zeros, rawCount (index + i) = 0 := by
  induction fuel generalizing zeros with
  | zero => exact hzero
  | succ fuel ih =>
    rw [zeroRun]
    split
    next h =>
      refine ih _ fun i hi => ?_
      rcases Nat.lt_succ_iff_lt_or_eq.mp hi with hlt | rfl
      · exact hzero i hlt
      · exact h.2
    next => exact hzero

/-- Zeros change nothing that is counted. -/
lemma counted_add_zeros {rawCount : ℕ → ℤ} {index zeros : ℕ}
    (hzero : ∀ i < zeros, rawCount (index + i) = 0) :
    counted rawCount (index + zeros) = counted rawCount index := by
  funext i
  unfold counted
  by_cases hi : i < index
  · rw [if_pos hi, if_pos (by omega)]
  · rw [if_neg hi]
    split
    next hlt =>
      rw [← hzero (i - index) (by omega)]
      congr 1
      omega
    next => rfl

/-- A count that is read extends what is counted. -/
lemma counted_succ (rawCount : ℕ → ℤ) (index : ℕ) :
    Function.update (counted rawCount index) index (rawCount index)
      = counted rawCount (index + 1) := by
  funext i
  unfold counted
  rcases lt_trichotomy i index with hi | rfl | hi
  · rw [Function.update_of_ne hi.ne, if_pos hi, if_pos (by omega)]
  · rw [Function.update_self, if_pos (Nat.lt_succ_self i)]
  · rw [Function.update_of_ne hi.ne', if_neg (by omega), if_neg (by omega)]

/-- The decoder stops at the end of its data. -/
lemma decodeCountsFrom_end {data : List UInt8} {offset : ℕ} (hoffset : data.length ≤ offset)
    (rounds index : ℕ) (counts : ℕ → ℤ) :
    Ruby.decodeCountsFrom data rounds offset index counts = (counts, offset) := by
  cases rounds with
  | zero => rfl
  | succ rounds => rw [Ruby.decodeCountsFrom, if_neg (not_lt.mpr hoffset)]

/-- One round of the decoder, whose data goes on with a number. -/
lemma decodeCountsFrom_round {data rest : List UInt8} {offset : ℕ} {v : ℤ}
    (hdata : data.drop offset = leb128 (zigzag v) ++ rest) (rounds index : ℕ) (counts : ℕ → ℤ) :
    Ruby.decodeCountsFrom data (rounds + 1) offset index counts
      = if v < 0 then
          Ruby.decodeCountsFrom data rounds (offset + (leb128 (zigzag v)).length)
          (index + (-v).toNat) counts
        else
          Ruby.decodeCountsFrom data rounds (offset + (leb128 (zigzag v)).length) (index + 1)
            (if v > 0 then Ruby.set_raw_count counts index v else counts) := by
  have hpos := List.length_pos_of_ne_nil (leb128_ne_nil (zigzag v))
  have hlength := congrArg List.length hdata
  rw [List.length_drop, List.length_append] at hlength
  rw [Ruby.decodeCountsFrom, if_pos (by omega), decode_zigzag_long_eq hdata]
  dsimp only
  rw [if_neg hpos.ne']

section Loop
variable {zigZag : ℤ → List UInt8} {rawCount : ℕ → ℤ} {relevant : ℕ}
  (hzigZag : ∀ v, -2 ^ 63 ≤ v → v < 2 ^ 63 → zigZag v = leb128 (zigzag v))
  (hrelevant : relevant < 2 ^ 63) (hcounts : ∀ i, 0 ≤ rawCount i ∧ rawCount i < 2 ^ 63)
include hzigZag hrelevant hcounts

/-- The loops of the encoder and of the decoder keep in step. -/
lemma decodeCountsFrom_eq {data : List UInt8} {fuel index : ℕ} (hindex : index ≤ relevant)
    (hfuel : relevant ≤ index + fuel) {offset : ℕ}
    (hdata : data.drop offset = encodeCountsFrom zigZag rawCount relevant fuel index)
    (hoffset : offset ≤ data.length) {rounds : ℕ} (hrounds : data.length ≤ offset + rounds) :
    Ruby.decodeCountsFrom data rounds offset index (counted rawCount index)
      = (counted rawCount relevant, data.length) := by
  induction fuel generalizing index offset rounds with
  | zero =>
    obtain rfl : index = relevant := by omega
    have hend : data.length ≤ offset := List.drop_eq_nil_iff.mp hdata
    rw [decodeCountsFrom_end hend, le_antisymm hoffset hend]
  | succ fuel ih =>
    rw [encodeCountsFrom] at hdata
    split at hdata
    next hlt =>
      -- the rest of the data after one number of the encoder, which is one round of the decoder
      have hround : ∀ v next, -2 ^ 63 ≤ v → v < 2 ^ 63 →
          data.drop offset = zigZag v ++ encodeCountsFrom zigZag rawCount relevant fuel next →
          data.drop offset = leb128 (zigzag v) ++
            encodeCountsFrom zigZag rawCount relevant fuel next ∧
            data.drop (offset + (leb128 (zigzag v)).length)
              = encodeCountsFrom zigZag rawCount relevant fuel next ∧
            offset + (leb128 (zigzag v)).length ≤ data.length ∧ 0 < (leb128 (zigzag v)).length := by
        intro v next hlow hhigh hbytes
        rw [hzigZag v hlow hhigh] at hbytes
        have hlength := congrArg List.length hbytes
        have hpos := List.length_pos_of_ne_nil (leb128_ne_nil (zigzag v))
        rw [List.length_drop, List.length_append] at hlength
        refine ⟨hbytes, ?_, by omega, hpos⟩
        rw [← List.drop_drop, hbytes, List.drop_left]
      split at hdata
      next hzero =>
        -- a run of zeros is written as a negative number, and skipped
        obtain ⟨hpos, hle⟩ := zeroRun_bounds rawCount relevant 1 hlt
        have hzeros : ∀ i < zeroRun rawCount relevant index relevant 1,
          rawCount (index + i) = 0 := by
          refine zeroRun_zero relevant 1 fun i hi => ?_
          rw [Nat.lt_one_iff.mp hi]
          exact hzero
        generalize zeroRun rawCount relevant index relevant 1 = z at hdata hpos hle hzeros
        obtain ⟨hbytes, hrest, hend, hread⟩ := hround (-z) (index + z) (by omega) (by omega) hdata
        obtain ⟨rounds, rfl⟩ : ∃ r, rounds = r + 1 := ⟨rounds - 1, by omega⟩
        rw [decodeCountsFrom_round hbytes, if_pos (by omega), neg_neg, Int.toNat_natCast,
          ← counted_add_zeros hzeros]
        exact ih hle (by omega) hrest hend (by omega)
      next hne =>
        -- a count is written as it is, and set
        obtain ⟨h0, hhigh⟩ := hcounts index
        obtain ⟨hbytes, hrest, hend, hread⟩ :=
          hround (rawCount index) (index + 1) (by omega) hhigh hdata
        obtain ⟨rounds, rfl⟩ : ∃ r, rounds = r + 1 := ⟨rounds - 1, by omega⟩
        rw [decodeCountsFrom_round hbytes, if_neg (by omega), if_pos (by omega), Ruby.set_raw_count,
          counted_succ]
        exact ih hlt (by omega) hrest hend (by omega)
    next hge =>
      obtain rfl : index = relevant := by omega
      have hend : data.length ≤ offset := List.drop_eq_nil_iff.mp hdata
      rw [decodeCountsFrom_end hend, le_antisymm hoffset hend]

/-- Ruby reads the counts up to the relevant length, and all bytes. -/
theorem decodeCounts_eq : Ruby.decodeCounts (encodeCounts zigZag rawCount relevant) (fun _ => 0)
    = (counted rawCount relevant, (encodeCounts zigZag rawCount relevant).length) := by
  have hinit : (fun _ => 0) = counted rawCount 0 := by
    funext i
    rw [counted, if_neg (Nat.not_lt_zero i)]
  rw [Ruby.decodeCounts, hinit]
  exact decodeCountsFrom_eq hzigZag hrelevant hcounts (Nat.zero_le _) (Nat.zero_add _).ge
    List.drop_zero
    (Nat.zero_le _) (Nat.zero_add _).ge

end Loop

/-! ## The engines -/

/-- The bytes that an engine writes for a number. -/
def Engine.encodeZigZag : Engine → ℤ → List UInt8
  | .go => Go.appendZigZag []
  | .php => Php.encodeZigZag

/-- The bytes that an engine writes for its counts. -/
def Engine.encodeCounts : Engine → HdrHistogram → List UInt8
  | .go => Go.encodeCounts
  | .php => Php.encodeCounts

/-- An array of counts: they are 64-bit integers and not negative, and their indices are below
`countsLen`, which is a 64-bit integer itself. -/
structure CountsArray (h : HdrHistogram) : Prop where
  range : ∀ i : ℕ, 0 ≤ h.rawCountAt i ∧ h.rawCountAt i < 2 ^ 63
  below : ∀ idx ∈ Table.keys h.counts, idx < h.layout.countsLen
  len : 0 ≤ h.layout.countsLen ∧ h.layout.countsLen < 2 ^ 63

/-- The encoders of both languages write the same bytes. -/
lemma encodeZigZag_eq (engine : Engine) {v : ℤ} (hlow : -2 ^ 63 ≤ v) (hhigh : v < 2 ^ 63) :
    engine.encodeZigZag v = leb128 (zigzag v) := by
  cases engine with
  | go => exact (zigZag_eq hlow hhigh).1
  | php => exact (zigZag_eq hlow hhigh).2.1

/-- The encoders of both languages encode the counts alike. -/
lemma engine_encodeCounts_eq (engine : Engine) (h : HdrHistogram) : engine.encodeCounts h
    = encodeCounts engine.encodeZigZag (fun i => h.rawCountAt i)
    (engine.relevantLength h).toNat := by
  cases engine <;> rfl

/-- Go's search for the largest index. -/
lemma go_maxIdx (rawCountAt : ℤ → ℤ) {keys : List ℤ} {b n : ℤ} (hb : b < n)
    (hkeys : ∀ idx ∈ keys, idx < n) :
    (b ≤ keys.foldl (fun maxIdx idx => if rawCountAt idx ≠ 0 ∧
      idx > maxIdx then idx else maxIdx) b ∧
      keys.foldl (fun maxIdx idx => if rawCountAt idx ≠ 0 ∧ idx > maxIdx then idx else maxIdx) b
        < n) ∧
    ∀ idx ∈ keys, rawCountAt idx ≠ 0 →
      idx ≤ keys.foldl (fun maxIdx idx => if rawCountAt idx ≠ 0 ∧
        idx > maxIdx then idx else maxIdx) b := by
  induction keys generalizing b with
  | nil => exact ⟨⟨le_rfl, hb⟩, fun _ h => nomatch h⟩
  | cons idx keys ih =>
    obtain ⟨hidx, hrest⟩ := List.forall_mem_cons.mp hkeys
    rw [List.foldl_cons]
    split
    next hlarger =>
      obtain ⟨⟨hle, hlt⟩, hall⟩ := ih hidx hrest
      exact ⟨⟨hlarger.2.le.trans hle, hlt⟩, List.forall_mem_cons.mpr ⟨fun _ => hle, hall⟩⟩
    next hsmaller =>
      obtain ⟨⟨hle, hlt⟩, hall⟩ := ih hb hrest
      refine ⟨⟨hle, hlt⟩, List.forall_mem_cons.mpr ⟨fun hne => ?_, hall⟩⟩
      exact (not_lt.mp fun hgt => hsmaller ⟨hne, hgt⟩).trans hle

/-- The relevant length covers all counts that are not zero, and no more than the array. -/
lemma relevantLength_bounds (engine : Engine) {h : HdrHistogram} (hh : CountsArray h) :
    engine.relevantLength h ≤ h.layout.countsLen ∧
      ∀ i : ℕ, h.rawCountAt i ≠ 0 → (i : ℤ) < engine.relevantLength h := by
  have hmem : ∀ i : ℕ, h.rawCountAt i ≠ 0 → (i : ℤ) ∈ Table.keys h.counts := by
    intro i hne
    by_contra hno
    exact hne (Table.get_of_notMem hno)
  cases engine with
  | go =>
    have hlen := hh.len.1
    obtain ⟨⟨-, hlt⟩, hall⟩ := go_maxIdx h.rawCountAt (b := -1) (by omega) hh.below
    rw [Engine.relevantLength, Go.relevantLength]
    refine ⟨by omega, fun i hne => ?_⟩
    have hle := hall _ (hmem i hne) hne
    omega
  | php =>
    have hlen := hh.len.1
    have hbelow := hh.below
    rw [Engine.relevantLength, Php.relevantLength]
    cases hkeys : Table.keys h.counts with
    | nil =>
      refine ⟨hlen, fun i hne => ?_⟩
      have hno := hmem i hne
      rw [hkeys] at hno
      cases hno
    | cons idx rest =>
      rw [hkeys] at hbelow
      obtain ⟨hidx, hrest⟩ := List.forall_mem_cons.mp hbelow
      have hupper : rest.foldl max idx ≤ h.layout.countsLen - 1 :=
        Table.foldl_max_le_iff.mpr ⟨by omega, fun k hk => by have := hrest k hk; omega⟩
      obtain ⟨hfirst, hothers⟩ := Table.foldl_max_le_iff.mp (le_refl (rest.foldl max idx))
      refine ⟨by dsimp only; omega, fun i hne => ?_⟩
      have hi := hmem i hne
      rw [hkeys] at hi
      rcases List.mem_cons.mp hi with heq | hi
      · dsimp only
        omega
      · have := hothers _ hi
        dsimp only
        omega

/-- Ruby reads back what Go and PHP write: from the bytes of an array of counts the counts up to
the relevant length and zeros behind it, which are all counts of the array, with no byte left;
and from the bytes of any 64-bit integer this integer and their number, whatever bytes stand
before and behind them. -/
theorem counts_round_trip (engine : Engine) :
    (∀ h, CountsArray h →
      (Ruby.decodeCounts (engine.encodeCounts h) fun _ => 0).2 = (engine.encodeCounts h).length ∧
      ∀ i : ℕ, (Ruby.decodeCounts (engine.encodeCounts h) fun _ => 0).1 i = h.rawCountAt i ∧
        (engine.relevantLength h ≤ i → h.rawCountAt i = 0)) ∧
    ∀ v : ℤ, -2 ^ 63 ≤ v → v < 2 ^ 63 → ∀ before after : List UInt8,
      Ruby.decode_zigzag_long (before ++ engine.encodeZigZag v ++ after) before.length
        = (v, (engine.encodeZigZag v).length) := by
  constructor
  · intro h hh
    obtain ⟨hle, hcovers⟩ := relevantLength_bounds engine hh
    have hlen := hh.len.2
    have hzero : ∀ i : ℕ, engine.relevantLength h ≤ i → h.rawCountAt i = 0 := fun i hi =>
      not_not.mp fun hne => absurd (hcovers i hne) (not_lt.mpr hi)
    rw [engine_encodeCounts_eq,
      decodeCounts_eq (fun v => encodeZigZag_eq engine) (by omega) hh.range]
    refine ⟨rfl, fun i => ⟨?_, hzero i⟩⟩
    dsimp only [counted]
    split
    next => rfl
    next hi => exact (hzero i (by omega)).symm
  · intro v hlow hhigh before after
    rw [encodeZigZag_eq engine hlow hhigh]
    have hdata : (before ++ leb128 (zigzag v) ++ after).drop before.length = leb128 (zigzag v) ++
      after := by
      rw [List.append_assoc, List.drop_left]
    exact decode_zigzag_long_eq hdata

/-- A histogram with a run of zeros and the largest count. -/
def sparseHistogram : HdrHistogram :=
  { newDefaultHdrHistogram with counts := [(3, 5), (200, 2 ^ 63 - 1)] }

/-- Its counts and the smallest 64-bit integer survive. -/
theorem sparseHistogram_round_trip :
    (Ruby.decodeCounts (Engine.php.encodeCounts sparseHistogram) fun _ => 0).1 200 = 2 ^ 63 - 1 ∧
      Ruby.decode_zigzag_long ([7] ++ Engine.go.encodeZigZag (-2 ^ 63) ++ [9]) 1
        = (-2 ^ 63, (Engine.go.encodeZigZag (-2 ^ 63)).length) := by
  have hcount : ∀ i : ℤ, sparseHistogram.rawCountAt i = if 3 = i then 5 else if 200 = i
    then 2 ^ 63 - 1 else 0 :=
    fun _ => rfl
  have hlen : sparseHistogram.layout.countsLen = 21504 := by
    rw [sparseHistogram, newDefault_layout, defaultLayout_eq]
  have hcounts : CountsArray sparseHistogram := by
    refine ⟨fun i => ?_, fun idx hidx => ?_, by omega⟩
    · rw [hcount]
      split
      · norm_num
      · split <;> norm_num
    · rw [hlen]
      rcases List.mem_cons.mp hidx with rfl | hidx
      · norm_num
      · rw [List.mem_singleton.mp hidx]
        norm_num
  refine ⟨?_, (counts_round_trip .go).2 (-2 ^ 63) (by norm_num) (by norm_num) [7] [9]⟩
  rw [(((counts_round_trip .php).1 _ hcounts).2 200).1, hcount]
  norm_num

end RespBench.Hdr
