import RespBench.Hdr.Histogram
import RespBench.Lib.Bytes

/-!
# The V2 encoders

The uncompressed V2 payload of a histogram as the three engines with an encoder of their own write
it: `encodeV2` in Go and PHP, `encode_v2` in Ruby. Go and PHP read the sparse histogram of
`Histogram.lean`, Ruby reads a histogram of the HDRHistogram gem through its accessors. A double
is given by its 64 bits.

The loop over the counts is the same in the three engines up to the functions that it calls
(`encodeCounts`); the zigzag encoding is that of 64-bit words in Go and PHP, which shift them in
different ways, and of unbounded integers in Ruby.
-/

namespace RespBench.Hdr
open RespBench.Lib
open RespBench.Lib.Bytes (bigEndian)

def V2_ENCODING_COOKIE_BASE : ℕ := 0x1c849303

def WORD_SIZE_FLAG : ℕ := 0x10

def V2_ENCODING_COOKIE : ℕ := V2_ENCODING_COOKIE_BASE ||| WORD_SIZE_FLAG

/-- The bits of the double 1.0. -/
def one : BitVec 64 := 0x3FF0000000000000#64

/-! ## The loop over the counts -/

/-- The inner loop: the number of zeros from `index` on, of which `zeros` are known. -/
def zeroRun (rawCount : ℕ → ℤ) (relevant index : ℕ) : ℕ → ℕ → ℕ
  | 0, zeros => zeros
  | fuel + 1, zeros =>
    if index + zeros < relevant ∧ rawCount (index + zeros) = 0 then
      zeroRun rawCount relevant index fuel (zeros + 1)
    else zeros

/-- The outer loop. Every round advances, so that `relevant` rounds are enough, here
and in the inner loop. -/
def encodeCountsFrom (zigZag : ℤ → List UInt8) (rawCount : ℕ → ℤ) (relevant : ℕ) :
    ℕ → ℕ → List UInt8
  | 0, _ => []
  | fuel + 1, index =>
    if index < relevant then
      if rawCount index = 0 then
        let zeros := zeroRun rawCount relevant index relevant 1
        zigZag (-zeros) ++ encodeCountsFrom zigZag rawCount relevant fuel (index + zeros)
      else zigZag (rawCount index) ++ encodeCountsFrom zigZag rawCount relevant fuel (index + 1)
    else []

/-- The counts up to the relevant length, runs of zeros as negative numbers. -/
def encodeCounts (zigZag : ℤ → List UInt8) (rawCount : ℕ → ℤ) (relevant : ℕ) : List UInt8 :=
  encodeCountsFrom zigZag rawCount relevant relevant 0

/-- The LEB128 loop on a 64-bit word; ten rounds are enough. -/
def leb128Loop (shift : BitVec 64 → BitVec 64) : ℕ → BitVec 64 → List UInt8
  | 0, _ => []
  | fuel + 1, zz =>
    if zz &&& ~~~0x7F#64 = 0#64 then [UInt8.ofNat (zz &&& 0x7F#64).toNat]
    else UInt8.ofNat ((zz &&& 0x7F#64) ||| 0x80#64).toNat :: leb128Loop shift fuel (shift zz)

/-! ## Go -/

namespace Go

/-- `appendZigZag`. -/
def appendZigZag (dst : List UInt8) (value : ℤ) : List UInt8 :=
  let value := BitVec.ofInt 64 value
  let zz := (value <<< 1) ^^^ value.sshiftRight 63
  dst ++ leb128Loop (· >>> 7) 10 zz

/-- `encodeCounts`. -/
def encodeCounts (h : HdrHistogram) : List UInt8 :=
  Hdr.encodeCounts (appendZigZag []) (fun i => h.rawCountAt i) (Go.relevantLength h).toNat

/-- `encodeV2`. -/
def encodeV2 (h : HdrHistogram) : List UInt8 :=
  let countsBytes := encodeCounts h
  let payloadLen := countsBytes.length
  bigEndian 4 V2_ENCODING_COOKIE ++ bigEndian 4 payloadLen ++ bigEndian 4 0 ++
    bigEndian 4 h.layout.significantFigures ++ bigEndian 8 h.layout.lowestTrackableValue ++
    bigEndian 8 h.layout.highestTrackableValue ++ bigEndian 8 one.toNat ++ countsBytes

end Go

/-! ## PHP -/

namespace Php

/-- `logicalShiftRight`. -/
def logicalShiftRight (value : BitVec 64) (bits : ℕ) : BitVec 64 :=
  if bits = 0 then value
  else value.sshiftRight bits &&& (BitVec.ofNat 64 (2 ^ 63 - 1)).sshiftRight (bits - 1)

/-- `encodeZigZag`. -/
def encodeZigZag (value : ℤ) : List UInt8 :=
  let value := BitVec.ofInt 64 value
  let zz := (value <<< 1) ^^^ value.sshiftRight 63
  leb128Loop (logicalShiftRight · 7) 10 zz

/-- `encodeCounts`. -/
def encodeCounts (h : HdrHistogram) : List UInt8 :=
  Hdr.encodeCounts encodeZigZag (fun i => h.rawCountAt i) (Php.relevantLength h).toNat

/-- `doubleToLongBits`: `pack('E', …)` read back by `unpack('J', …)`. -/
def doubleToLongBits (value : BitVec 64) : ℤ := value.toInt

/-- `encodeV2`. -/
def encodeV2 (h : HdrHistogram) : List UInt8 :=
  let normalizingOffset := 0
  let conversionRatioBits := doubleToLongBits one
  let countsBytes := encodeCounts h
  let payloadLen := countsBytes.length
  let header := [(V2_ENCODING_COOKIE : ℤ), payloadLen, normalizingOffset,
    h.layout.significantFigures].flatMap (bigEndian 4)
  let int64Fields := bigEndian 8 h.layout.lowestTrackableValue ++
    bigEndian 8 h.layout.highestTrackableValue ++ bigEndian 8 conversionRatioBits
  header ++ int64Fields ++ countsBytes

end Php

/-! ## Ruby -/

namespace Ruby

/-- What the encoder reads of a histogram of the gem, through its private accessors. -/
structure Histogram where
  normalizing_index_offset : ℤ
  significant_figures : ℕ
  lowest_trackable_value : ℤ
  highest_trackable_value : ℤ
  conversion_ratio : BitVec 64
  counts_len : ℕ
  get_raw_count : ℕ → ℤ

/-- The LEB128 loop of `encode_zigzag_long`; ten rounds are enough. -/
def zigzagLoop : ℕ → ℤ → List UInt8
  | 0, _ => []
  | fuel + 1, zz =>
    if Int.land zz (Int.lnot 0x7F) = 0 then [UInt8.ofNat (Int.land zz 0xFF).toNat]
    else UInt8.ofNat (Int.lor (Int.land zz 0x7F) 0x80).toNat :: zigzagLoop fuel (zz >>> (7 : ℕ))

/-- `encode_zigzag_long`. -/
def encode_zigzag_long (value : ℤ) : List UInt8 :=
  let zz := Int.xor (value <<< (1 : ℕ)) (value >>> (63 : ℕ))
  zigzagLoop 10 (Int.land zz 0xFFFFFFFFFFFFFFFF)

/-- `encode_counts`. -/
def encode_counts (histogram : Histogram) (relevant_length : ℕ) : List UInt8 :=
  encodeCounts encode_zigzag_long histogram.get_raw_count relevant_length

/-- `double_to_long_bits`: `pack("G")` read back by `unpack1("q>")`. -/
def double_to_long_bits (double_val : BitVec 64) : ℤ := double_val.toInt

/-- The search for the relevant length, downwards from an index. -/
def relevantLength (get_raw_count : ℕ → ℤ) : ℕ → ℕ
  | 0 => 0
  | i + 1 => if get_raw_count i ≠ 0 then i + 1 else relevantLength get_raw_count i

/-- `encode_v2`. -/
def encode_v2 (histogram : Histogram) : List UInt8 :=
  let relevant_length := relevantLength histogram.get_raw_count histogram.counts_len
  let counts_bytes := encode_counts histogram relevant_length
  let payload_len := 4 + 4 + 8 + 8 + 8 + counts_bytes.length
  let header := [(V2_ENCODING_COOKIE : ℤ), payload_len, histogram.normalizing_index_offset,
    histogram.significant_figures].flatMap (bigEndian 4)
  let int64_fields := [histogram.lowest_trackable_value, histogram.highest_trackable_value,
    double_to_long_bits histogram.conversion_ratio].flatMap (bigEndian 8)
  header ++ int64_fields ++ counts_bytes

end Ruby

end RespBench.Hdr
