import RespBench.Hdr.Encoder

/-!
# The V2 decoder

`decode_v2` of the Ruby engine, which reads an uncompressed V2 payload into a new histogram of the
HDRHistogram gem. The gem is a parameter: `new` is its constructor, with all counts zero, and
`set_raw_count` changes one count. Of what is recalculated at the end only the total is modelled;
the smallest and the largest value are percentiles that the gem computes.
-/

namespace RespBench.Hdr.Ruby
open RespBench.Lib
open RespBench.Lib.Bytes (ofBigEndian)

/-- The loop of `decode_zigzag_long`: the bits and the number of the bytes read, or nothing when the
data ends. Every round reads a byte. -/
def decodeLoop (data : List UInt8) (offset : ℕ) : ℕ → ℕ → ℕ → ℤ → Option (ℤ × ℕ)
  | 0, _, _, _ => none
  | fuel + 1, bytes_read, shift, zz =>
    match data[offset + bytes_read]? with
    | none => none
    | some byte =>
      let zz := Int.lor zz (Int.land byte.toNat 0x7F <<< shift)
      if Int.land byte.toNat 0x80 = 0 then some (zz, bytes_read + 1)
      else decodeLoop data offset fuel (bytes_read + 1) (shift + 7) zz

/-- `decode_zigzag_long`: the value and the number of bytes consumed. -/
def decode_zigzag_long (data : List UInt8) (offset : ℕ) : ℤ × ℕ :=
  match decodeLoop data offset (data.length + 1) 0 0 0 with
  | none => (0, 0)
  | some (zz, bytes_read) => (Int.xor (zz >>> (1 : ℕ)) (-Int.land zz 1), bytes_read)

/-- `set_raw_count`. -/
def set_raw_count (counts : ℕ → ℤ) (index : ℕ) (value : ℤ) : ℕ → ℤ :=
  Function.update counts index value

/-- The loop of `decode_v2` over the bytes of the counts: the counts, and the offset where it
stopped. Every round reads a byte. -/
def decodeCountsFrom (counts_data : List UInt8) : ℕ → ℕ → ℕ → (ℕ → ℤ) → (ℕ → ℤ) × ℕ
  | 0, offset, _, counts => (counts, offset)
  | fuel + 1, offset, index, counts =>
    if offset < counts_data.length then
      let (value, bytes_read) := decode_zigzag_long counts_data offset
      if bytes_read = 0 then (counts, offset)
      else if value < 0 then
        decodeCountsFrom counts_data fuel (offset + bytes_read) (index + (-value).toNat) counts
      else
        decodeCountsFrom counts_data fuel (offset + bytes_read) (index + 1)
          (if value > 0 then set_raw_count counts index value else counts)
    else (counts, offset)

/-- The counts that are read into a histogram with the given counts. -/
def decodeCounts (counts_data : List UInt8) (counts : ℕ → ℤ) : (ℕ → ℤ) × ℕ :=
  decodeCountsFrom counts_data counts_data.length 0 0 counts

/-- `recalculate_internals`: the total of the positive counts. -/
def total_count (histogram : Histogram) : ℤ :=
  ((List.range histogram.counts_len).map fun i => max (histogram.get_raw_count i) 0).sum

/-- What `decode_v2` raises. -/
inductive DecodeError where
  | shortHeader
  | invalidCookie (cookie : ℕ)
deriving DecidableEq

/-- `decode_v2`: the histogram and its total. -/
def decode_v2 (new : ℤ → ℤ → ℕ → Histogram) (data : List UInt8) :
    Except DecodeError (Histogram × ℤ) :=
  if data.length < 40 then .error .shortHeader
  else
    let int32 (i : ℕ) : ℕ := ofBigEndian ((data.drop (4 * i)).take 4)
    let int64 (i : ℕ) : ℤ := (BitVec.ofNat 64 (ofBigEndian ((data.drop (16 + 8 * i)).take 8))).toInt
    let cookie := int32 0
    if Int.land cookie (Int.lnot 0xF0) ≠ V2_ENCODING_COOKIE_BASE then .error (.invalidCookie cookie)
    else
      let histogram := new (int64 0) (int64 1) (int32 3)
      let counts := (decodeCounts (data.drop 40) histogram.get_raw_count).1
      let histogram := { histogram with get_raw_count := counts }
      .ok (histogram, total_count histogram)

end RespBench.Hdr.Ruby
