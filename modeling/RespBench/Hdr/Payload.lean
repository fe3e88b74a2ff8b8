import RespBench.Hdr.Encoder
import RespBench.Hdr.Merge

/-!
# The payloads of the three encoders

All three encoders write the same bytes for the counts (`zigZag_eq`, `encodeCounts_congr`) and for
the header, with one exception (`payloads_eq`): Ruby adds the 32 bytes of the header fields behind
`payload_length` to its value. So the payloads of Ruby and of the other engines differ for every
histogram (`payloads_differ`).
-/

namespace RespBench.Hdr
open RespBench.Lib
open RespBench.Lib.Bytes

/-! ## The zigzag encodings -/

/-- The LEB128 loop of Go and PHP writes the LEB128 bytes. -/
lemma leb128Loop_eq {shift : BitVec 64 → BitVec 64} (hshift : ∀ x, shift x = x >>> 7) {fuel n : ℕ}
    (hn : n < 2 ^ 64) (hfuel : n < 128 ^ (fuel + 1)) :
    leb128Loop shift (fuel + 1) (BitVec.ofNat 64 n) = leb128 n := by
  induction fuel generalizing n with
  | zero =>
    have hlow : n < 128 := by simpa using hfuel
    rw [leb128Loop, if_pos ((word_rest hn).mpr hlow), word_low hn, Nat.mod_eq_of_lt hlow,
      Words.toNat_small hn, leb128, if_pos hlow]
  | succ fuel ih =>
    rw [leb128Loop, leb128]
    by_cases hlow : n < 128
    · rw [if_pos ((word_rest hn).mpr hlow), if_pos hlow, word_low hn, Nat.mod_eq_of_lt hlow,
        Words.toNat_small hn]
    · have hmod : n % 128 < 128 := Nat.mod_lt n (by norm_num)
      rw [if_neg (mt (word_rest hn).mp hlow), if_neg hlow, hshift, Words.ushiftRight_ofNat hn,
        show n / 2 ^ 7 = n / 128 from rfl, ih (by omega) (by rw [pow_succ] at hfuel; omega),
        word_low hn, BitVec.toNat_or, Words.toNat_small (by omega),
          show (0x80#64).toNat = 128 from rfl, or_high hmod]

/-- The shift that PHP writes out is a logical one. -/
lemma logicalShiftRight_eq (x : BitVec 64) : Php.logicalShiftRight x 7 = x >>> 7 := by
  have hmask : (BitVec.ofNat 64 (2 ^ 63 - 1)).sshiftRight (7 - 1) = BitVec.ofNat 64 (2 ^ 57 - 1) :=
    by decide
  rw [Php.logicalShiftRight, if_neg (by norm_num), hmask]
  apply BitVec.eq_of_getLsbD_eq
  intro i hi
  rw [BitVec.getLsbD_and, BitVec.getLsbD_sshiftRight, BitVec.getLsbD_ushiftRight,
    BitVec.getLsbD_ofNat, Nat.testBit_two_pow_sub_one]
  by_cases h : i < 57
  · simp [hi, h, show 7 + i < 64 from by omega]
  · simp [h, BitVec.getLsbD_of_ge x (7 + i) (by omega)]

/-- The LEB128 loop of Ruby writes the LEB128 bytes. -/
lemma zigzagLoop_eq {fuel n : ℕ} (hfuel : n < 128 ^ (fuel + 1)) :
    Ruby.zigzagLoop (fuel + 1) n = leb128 n := by
  have hlast : ∀ {n : ℕ}, n < 128 → UInt8.ofNat (Int.land n 0xFF).toNat = UInt8.ofNat n := by
    intro n hn
    have hland : Int.land n 0xFF = (n &&& 2 ^ 8 - 1 : ℕ) := rfl
    rw [hland, Nat.and_two_pow_sub_one_eq_mod, Int.toNat_natCast, Nat.mod_eq_of_lt (by omega)]
  induction fuel generalizing n with
  | zero =>
    have hlow : n < 128 := by simpa using hfuel
    rw [Ruby.zigzagLoop, if_pos ((int_rest n).mpr hlow), leb128, if_pos hlow, hlast hlow]
  | succ fuel ih =>
    rw [Ruby.zigzagLoop, leb128]
    by_cases hlow : n < 128
    · rw [if_pos ((int_rest n).mpr hlow), if_pos hlow, hlast hlow]
    · have hmod : n % 128 < 128 := Nat.mod_lt n (by norm_num)
      have hland : Int.lor (Int.land n 0x7F) 0x80 = ((n &&& 2 ^ 7 - 1) ||| 128 : ℕ) := rfl
      have hshift : (n : ℤ) >>> (7 : ℕ) = (n / 128 : ℕ) := by
        rw [Int.shiftRight_eq_div_pow]
        rfl
      rw [if_neg (mt (int_rest n).mp hlow), if_neg hlow, hland, hshift, Int.toNat_natCast,
        Nat.and_two_pow_sub_one_eq_mod, show n % 2 ^ 7 = n % 128 from rfl, or_high hmod,
        ih (by rw [pow_succ] at hfuel; omega)]

/-- The three zigzag encodings of a 64-bit integer. -/
theorem zigZag_eq {v : ℤ} (hlow : -2 ^ 63 ≤ v) (hhigh : v < 2 ^ 63) :
    Go.appendZigZag [] v = leb128 (zigzag v) ∧ Php.encodeZigZag v = leb128 (zigzag v) ∧
      Ruby.encode_zigzag_long v = leb128 (zigzag v) := by
  have hlt := zigzag_lt hlow hhigh
  have hfuel : zigzag v < 128 ^ (9 + 1) := hlt.trans (by norm_num)
  refine ⟨?_, ?_, ?_⟩
  · simp only [Go.appendZigZag, List.nil_append]
    rw [zigzag_word hlow hhigh, leb128Loop_eq (fun _ => rfl) hlt hfuel]
  · simp only [Php.encodeZigZag]
    rw [zigzag_word hlow hhigh, leb128Loop_eq logicalShiftRight_eq hlt hfuel]
  · simp only [Ruby.encode_zigzag_long]
    rw [zigzag_int hlow hhigh, zigzagLoop_eq hfuel]

/-! ## The counts -/

/-- A run of zeros ends within the relevant counts. -/
lemma zeroRun_bounds (rawCount : ℕ → ℤ) {relevant index : ℕ} (fuel zeros : ℕ)
    (h : index + zeros ≤ relevant) :
    zeros ≤ zeroRun rawCount relevant index fuel zeros ∧
      index + zeroRun rawCount relevant index fuel zeros ≤ relevant := by
  induction fuel generalizing zeros with
  | zero => exact ⟨le_rfl, h⟩
  | succ fuel ih =>
    rw [zeroRun]
    split
    next hzero =>
      obtain ⟨hle, hlt⟩ := ih (zeros + 1) (by omega)
      exact ⟨by omega, hlt⟩
    next => exact ⟨le_rfl, h⟩

/-- The loop over the counts writes the same bytes for zigzag encodings that agree on the counts and
on the runs of zeros. -/
lemma encodeCounts_congr {zigZag zigZag' : ℤ → List UInt8} {rawCount : ℕ → ℤ} {relevant : ℕ}
    (hcount : ∀ i < relevant, zigZag (rawCount i) = zigZag' (rawCount i))
    (hzeros : ∀ z : ℕ, 0 < z → z ≤ relevant → zigZag (-z) = zigZag' (-z)) :
    encodeCounts zigZag rawCount relevant = encodeCounts zigZag' rawCount relevant := by
  suffices hfrom : ∀ fuel index, encodeCountsFrom zigZag rawCount relevant fuel index
      = encodeCountsFrom zigZag' rawCount relevant fuel index from hfrom _ _
  intro fuel
  induction fuel with
  | zero => exact fun _ => rfl
  | succ fuel ih =>
    intro index
    rw [encodeCountsFrom, encodeCountsFrom]
    split
    next hindex =>
      obtain ⟨hpos, hle⟩ := zeroRun_bounds rawCount relevant 1 hindex
      simp only [ih, hcount index hindex, hzeros _ hpos (by omega)]
    next => rfl

/-- Ruby's search for the relevant length. -/
lemma relevantLength_spec (rawCount : ℕ → ℤ) (len : ℕ) :
    Ruby.relevantLength rawCount len ≤ len ∧
      (∀ i < len, Ruby.relevantLength rawCount len ≤ i → rawCount i = 0) ∧
      (0 < Ruby.relevantLength rawCount len → rawCount (Ruby.relevantLength rawCount len - 1)
        ≠ 0) := by
  induction len with
  | zero => exact ⟨le_rfl, fun i hi => by omega, fun h => absurd h (lt_irrefl 0)⟩
  | succ len ih =>
    rw [Ruby.relevantLength]
    split
    next hne => exact ⟨le_rfl, fun i hi hle => by omega, fun _ => hne⟩
    next hzero =>
      obtain ⟨hle, hrest, hlast⟩ := ih
      refine ⟨by omega, fun i hi hi' => ?_, hlast⟩
      rcases Nat.lt_succ_iff_lt_or_eq.mp hi with h | rfl
      · exact hrest i h hi'
      · exact not_not.mp hzero

/-! ## The payloads -/

/-- A histogram as the accessors show it: its parameters and its counts, which are 64-bit
integers and not negative. -/
structure Snapshot where
  lowest : ℤ
  highest : ℤ
  sigFigs : ℕ
  counts : List ℤ
  counts_range : ∀ c ∈ counts, 0 ≤ c ∧ c < 2 ^ 63
  counts_length : counts.length < 2 ^ 63

namespace Snapshot
variable (s : Snapshot)

/-- The count at an index. -/
def rawCount (i : ℕ) : ℤ := s.counts.getD i 0

/-- The histogram of the gem. -/
def ruby : Ruby.Histogram := ⟨0, s.sigFigs, s.lowest, s.highest, one, s.counts.length, s.rawCount⟩

/-- A histogram of Go or PHP with these parameters and counts. -/
structure Of (h : HdrHistogram) : Prop where
  lowest : h.layout.lowestTrackableValue = s.lowest
  highest : h.layout.highestTrackableValue = s.highest
  sigFigs : h.layout.significantFigures = s.sigFigs
  populated : Populated h
  counts : ∀ i : ℕ, h.rawCountAt i = s.rawCount i

/-- A payload with the given value of `payload_length`. -/
def payload (payloadLen : ℤ) (countsBytes : List UInt8) : List UInt8 :=
  bigEndian 4 V2_ENCODING_COOKIE ++ bigEndian 4 payloadLen ++ bigEndian 4 0 ++
    bigEndian 4 s.sigFigs ++
    bigEndian 8 s.lowest ++ bigEndian 8 s.highest ++ bigEndian 8 one.toNat ++ countsBytes

/-- The counts are 64-bit integers. -/
lemma rawCount_range (i : ℕ) : -2 ^ 63 ≤ s.rawCount i ∧ s.rawCount i < 2 ^ 63 := by
  rw [rawCount, List.getD_eq_getElem?_getD]
  cases h : s.counts[i]? with
  | none => simp
  | some c =>
    have hc := s.counts_range c (List.mem_of_getElem? h)
    simp only [Option.getD_some]
    omega

variable {s} {h : HdrHistogram}

/-- The relevant length is the same in all engines. -/
lemma Of.relevantLength_eq (hs : s.Of h) (engine : Engine) :
    engine.relevantLength h = Ruby.relevantLength s.rawCount s.counts.length := by
  obtain ⟨hle, hrest, hlast⟩ := relevantLength_spec s.rawCount s.counts.length
  rw [Hdr.relevantLength_eq engine hs.populated]
  generalize Ruby.relevantLength s.rawCount s.counts.length = n at hle hrest hlast
  have hupper : (Table.keys h.counts).foldl max (-1) ≤ (n : ℤ) - 1 := by
    refine Table.foldl_max_le_iff.mpr ⟨by omega, fun idx hidx => ?_⟩
    obtain ⟨hpos, hne⟩ := hs.populated idx hidx
    obtain ⟨i, rfl⟩ := Int.eq_ofNat_of_zero_le hpos
    rw [hs.counts] at hne
    by_contra hgt
    refine hne ?_
    by_cases hi : i < s.counts.length
    · exact hrest i hi (by omega)
    · rw [rawCount, List.getD_eq_default _ _ (not_lt.mp hi)]
  have hself := Table.foldl_max_le_iff.mp (le_refl ((Table.keys h.counts).foldl max (-1)))
  rcases Nat.eq_zero_or_pos n with rfl | hpos
  · have := hself.1
    omega
  · have hmem : ((n - 1 : ℕ) : ℤ) ∈ Table.keys h.counts := by
      by_contra hno
      refine hlast hpos ?_
      rw [← hs.counts, HdrHistogram.rawCountAt, Table.get_of_notMem hno]
    have := hself.2 _ hmem
    omega

/-- The bytes of the counts. -/
def countsBytes (s : Snapshot) : List UInt8 :=
  encodeCounts (fun v => leb128 (zigzag v)) s.rawCount
    (Ruby.relevantLength s.rawCount s.counts.length)

/-- The bytes of the counts are the same for every zigzag encoding that is right on 64-bit
integers. -/
lemma encodeCounts_eq {zigZag : ℤ → List UInt8}
    (hzigZag : ∀ v, -2 ^ 63 ≤ v → v < 2 ^ 63 → zigZag v = leb128 (zigzag v)) :
    encodeCounts zigZag s.rawCount (Ruby.relevantLength s.rawCount s.counts.length)
      = s.countsBytes := by
  have hlen := (relevantLength_spec s.rawCount s.counts.length).1.trans_lt s.counts_length
  refine encodeCounts_congr (fun i _ => ?_) fun z _ hz => hzigZag _ (by omega) (by omega)
  exact hzigZag _ (s.rawCount_range i).1 (s.rawCount_range i).2

/-- All engines write the same bytes, but for the value of `payload_length` in Ruby. -/
theorem Of.payloads_eq (hs : s.Of h) : Go.encodeV2 h
    = s.payload s.countsBytes.length s.countsBytes ∧
    Php.encodeV2 h = s.payload s.countsBytes.length s.countsBytes ∧
    Ruby.encode_v2 s.ruby = s.payload (32 + s.countsBytes.length) s.countsBytes := by
  have hrawCount : (fun i : ℕ => h.rawCountAt i) = s.rawCount := funext hs.counts
  have hgo : Go.encodeCounts h = s.countsBytes := by
    have hlen : Go.relevantLength h = _ := hs.relevantLength_eq .go
    rw [Go.encodeCounts, hrawCount, hlen, Int.toNat_natCast]
    exact encodeCounts_eq fun v hlow hhigh => (zigZag_eq hlow hhigh).1
  have hphp : Php.encodeCounts h = s.countsBytes := by
    have hlen : Php.relevantLength h = _ := hs.relevantLength_eq .php
    rw [Php.encodeCounts, hrawCount, hlen, Int.toNat_natCast]
    exact encodeCounts_eq fun v hlow hhigh => (zigZag_eq hlow hhigh).2.1
  have hruby : Ruby.encode_counts s.ruby (Ruby.relevantLength s.rawCount s.counts.length)
    = s.countsBytes :=
    encodeCounts_eq fun v hlow hhigh => (zigZag_eq hlow hhigh).2.2
  have hone : Php.doubleToLongBits one = one.toNat := by decide
  have hone' : Ruby.double_to_long_bits one = one.toNat := hone
  refine ⟨?_, ?_, ?_⟩
  · rw [Go.encodeV2, hgo, hs.lowest, hs.highest, hs.sigFigs]
    rfl
  · rw [Php.encodeV2, hphp, hs.lowest, hs.highest, hs.sigFigs, hone]
    simp only [List.flatMap_cons, List.flatMap_nil, List.append_nil, List.append_assoc, payload]
  · rw [Ruby.encode_v2]
    simp only [ruby] at hruby ⊢
    rw [hruby, hone']
    simp only [List.flatMap_cons, List.flatMap_nil, List.append_nil, List.append_assoc, payload]
    norm_num

end Snapshot

/-- The three encoders write the same bytes. -/
def SamePayload (s : Snapshot) (h : HdrHistogram) : Prop :=
  Ruby.encode_v2 s.ruby = Go.encodeV2 h ∧ Go.encodeV2 h = Php.encodeV2 h

/-- They never do: Ruby's `payload_length` is larger by 32. -/
theorem payloads_differ (s : Snapshot) (h : HdrHistogram) (hs : s.Of h) : ¬ SamePayload s h := by
  rintro ⟨hruby, -⟩
  obtain ⟨hgo, -, hruby'⟩ := hs.payloads_eq
  rw [hgo, hruby', Snapshot.payload, Snapshot.payload] at hruby
  simp only [List.append_assoc, List.append_cancel_left_eq] at hruby
  have hlen := (List.append_inj hruby (by simp)).1
  have hmod := bigEndian_mod (by norm_num) hlen
  omega

/-- An empty default histogram, whose array of counts holds zeros. -/
def emptySnapshot : Snapshot where
  lowest := 1
  highest := 600000000
  sigFigs := 3
  counts := List.replicate 21504 0
  counts_range c hc := by
    rw [List.eq_of_mem_replicate hc]
    norm_num
  counts_length := by
    rw [List.length_replicate]
    norm_num

/-- Even its payloads differ. -/
theorem emptySnapshot_payloads_differ : ¬ SamePayload emptySnapshot newDefaultHdrHistogram := by
  refine payloads_differ _ _ ⟨?_, ?_, ?_, (Holds.empty _).populated, fun i => ?_⟩
  · rw [newDefault_layout, defaultLayout_eq]
    rfl
  · rw [newDefault_layout, defaultLayout_eq]
    rfl
  · rw [newDefault_layout, defaultLayout_eq]
    rfl
  · have hzero : emptySnapshot.rawCount i = 0 := List.getElem?_getD_replicate_default_eq 0 21504 i
    rw [hzero]
    rfl

/-- A histogram for the values 1 to 31 with one significant digit, and one sample. -/
def smallHistogram : HdrHistogram :=
  Go.record (.empty ((Layout.new 64 1 31 1).get (by decide +kernel))) 1

/-- The same as an array of counts. -/
def smallSnapshot : Snapshot where
  lowest := 1
  highest := 31
  sigFigs := 1
  counts := 0 :: 1 :: List.replicate 30 0
  counts_range := by decide +kernel
  counts_length := by decide +kernel

/-- Two bytes of counts: `payload_length` is 2 in Go and PHP, and 34 in Ruby. -/
theorem smallSnapshot_not_samePayload : smallSnapshot.Of smallHistogram ∧
    (Go.encodeV2 smallHistogram).take 8 = [0x1C, 0x84, 0x93, 0x13, 0, 0, 0, 2] ∧
    (Php.encodeV2 smallHistogram).take 8 = [0x1C, 0x84, 0x93, 0x13, 0, 0, 0, 2] ∧
    (Ruby.encode_v2 smallSnapshot.ruby).take 8 = [0x1C, 0x84, 0x93, 0x13, 0, 0, 0, 34] ∧
    ¬ SamePayload smallSnapshot smallHistogram := by
  refine ⟨⟨by decide +kernel, by decide +kernel, by decide +kernel, ?_, fun i => ?_⟩,
    by decide +kernel, by decide +kernel, by decide +kernel, ?_⟩
  · unfold Populated
    decide +kernel
  · have hcounts : smallHistogram.counts = [(1, 1)] := by decide +kernel
    rw [HdrHistogram.rawCountAt, hcounts]
    rcases i with _ | _ | i
    · rfl
    · rfl
    · have hzero : smallSnapshot.rawCount (i + 2) = 0 :=
        List.getElem?_getD_replicate_default_eq 0 30 i
      rw [hzero, Table.get, if_neg (by omega)]
      rfl
  · unfold SamePayload
    decide +kernel

end RespBench.Hdr
