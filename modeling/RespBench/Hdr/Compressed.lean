import RespBench.Hdr.Percentiles
import RespBench.Hdr.RoundTrip

/-!
# The compressed format

The wrapper around the V2 payload: a cookie, the number of compressed bytes, and these bytes. Go,
PHP and Ruby write it, and Ruby's `decode_compressed` reads it. The zlib library of each engine
is a parameter, `deflate` for the writer and `inflate` for the reader, and so is the constructor
of the HDRHistogram gem.

`decode_v2_payload` reads a whole payload back, whatever its `payload_length` says; so the three
writers are read alike (`compressed_round_trip`), and from a histogram of Go or PHP the reader gets
the samples that were recorded and merged into it (`recorded_round_trip`).
-/

namespace RespBench.Hdr
open RespBench.Lib
open RespBench.Lib.Bytes

def V2_COMPRESSED_ENCODING_COOKIE_BASE : ℕ := 0x1c849304

def V2_COMPRESSED_ENCODING_COOKIE : ℕ := V2_COMPRESSED_ENCODING_COOKIE_BASE ||| WORD_SIZE_FLAG

/-! ## The writers -/

/-- The wrapper around a payload, unless the compressor fails. -/
def wrap (deflate : List UInt8 → Option (List UInt8)) (payload : List UInt8) :
    Option (List UInt8) :=
  (deflate payload).map fun compressed =>
    bigEndian 4 V2_COMPRESSED_ENCODING_COOKIE ++ bigEndian 4 compressed.length ++ compressed

/-- `EncodeCompressed`; the writer of `compress/zlib`, closed, is `deflate`. -/
def Go.EncodeCompressed (deflate : List UInt8 → Option (List UInt8)) (h : HdrHistogram) :
    Option (List UInt8) :=
  wrap deflate (encodeV2 h)

/-- `encodeCompressed`; `gzcompress` is `deflate`. -/
def Php.encodeCompressed (deflate : List UInt8 → Option (List UInt8)) (h : HdrHistogram) :
    Option (List UInt8) :=
  wrap deflate (encodeV2 h)

/-- `encode_compressed`; `Zlib::Deflate.deflate` is `deflate`. -/
def Ruby.encode_compressed (deflate : List UInt8 → Option (List UInt8)) (histogram : Histogram) :
    Option (List UInt8) :=
  wrap deflate (encode_v2 histogram)

/-! ## The reader -/

namespace Ruby

/-- What `decode_compressed` raises. -/
inductive CompressedError where
  | shortWrapper
  | invalidCookie (cookie : ℕ)
  | zlib
  | payload (e : DecodeError)
deriving DecidableEq

/-- `decode_compressed`: the histogram and its total. -/
def decode_compressed (inflate : List UInt8 → Option (List UInt8)) (new : ℤ → ℤ → ℕ → Histogram)
    (data : List UInt8) : Except CompressedError (Histogram × ℤ) :=
  if data.length < 4 then .error .shortWrapper
  else
    let cookie := ofBigEndian (data.take 4)
    if Int.land cookie (Int.lnot 0xF0) ≠ V2_COMPRESSED_ENCODING_COOKIE_BASE
      then .error (.invalidCookie cookie)
    else if data.length < 8 then .error .shortWrapper
    else
      let compressed_length := ofBigEndian ((data.drop 4).take 4)
      match inflate ((data.drop 8).take compressed_length) with
      | none => .error .zlib
      | some v2_payload => (decode_v2 new v2_payload).mapError .payload

end Ruby

/-! ## One payload -/

namespace Snapshot
variable {s : Snapshot}

/-- The parameters fit into the fields of the header. -/
structure Encodable (s : Snapshot) : Prop where
  lowest : -2 ^ 63 ≤ s.lowest ∧ s.lowest < 2 ^ 63
  highest : -2 ^ 63 ≤ s.highest ∧ s.highest < 2 ^ 63
  sigFigs : s.sigFigs < 2 ^ 32

/-- The histogram that the gem makes for these parameters: all its counts are zero. -/
def zeros (s : Snapshot) : Ruby.Histogram := { s.ruby with get_raw_count := fun _ => 0 }

/-- Counts are not negative. -/
lemma nonneg (s : Snapshot) (i : ℕ) : 0 ≤ s.rawCount i := by
  rw [rawCount, List.getD_eq_getElem?_getD]
  cases h : s.counts[i]? with
  | none => exact le_rfl
  | some c => exact (s.counts_range c (List.mem_of_getElem? h)).1

/-- The total that is recalculated is the sum of the counts. -/
lemma total_count_ruby (s : Snapshot) : Ruby.total_count s.ruby = s.counts.sum := by
  have hmax : ∀ i ∈ List.range s.counts.length, max (s.ruby.get_raw_count i) 0 = s.rawCount i :=
    fun i _ => max_eq_left (s.nonneg i)
  have hcounts : (List.range s.counts.length).map s.rawCount = s.counts := by
    refine List.ext_getElem (by simp) fun i hi hi' => ?_
    rw [List.getElem_map, List.getElem_range, rawCount, List.getD_eq_getElem _ _ hi']
  rw [Ruby.total_count, show s.ruby.counts_len = s.counts.length from rfl,
    List.map_congr_left hmax, hcounts]

/-- The counts of a payload are all counts of the histogram. -/
lemma decodeCounts_countsBytes (s : Snapshot) :
    (Ruby.decodeCounts s.countsBytes fun _ => 0).1 = s.rawCount := by
  obtain ⟨hle, hrest, -⟩ := relevantLength_spec s.rawCount s.counts.length
  have hlen := s.counts_length
  have hcounts : ∀ i, 0 ≤ s.rawCount i ∧ s.rawCount i < 2 ^ 63 :=
    fun i => ⟨s.nonneg i, (s.rawCount_range i).2⟩
  rw [countsBytes, decodeCounts_eq (fun _ _ _ => rfl) (by omega) hcounts]
  funext i
  dsimp only [counted]
  split
  next => rfl
  next hi =>
    by_cases hlt : i < s.counts.length
    · exact (hrest i hlt (not_lt.mp hi)).symm
    · exact (List.getD_eq_default _ _ (not_lt.mp hlt)).symm

/-- A payload is read back, whatever its `payload_length` says. -/
theorem decode_v2_payload (hs : s.Encodable) {new : ℤ → ℤ → ℕ → Ruby.Histogram}
    (hnew : new s.lowest s.highest s.sigFigs = s.zeros) (payloadLen : ℤ) :
    Ruby.decode_v2 new (s.payload payloadLen s.countsBytes) = .ok (s.ruby, s.counts.sum) := by
  generalize hdata : s.payload payloadLen s.countsBytes = data
  simp only [payload, List.append_assoc] at hdata
  have hlength : ¬ data.length < 40 := by
    rw [← hdata]
    simp only [List.length_append, length_bigEndian]
    omega
  have hcookie : (data.drop (4 * 0)).take 4 = bigEndian 4 V2_ENCODING_COOKIE := by
    rw [← hdata]
    exact take_bigEndian 4 _ _
  have hsigFigs : (data.drop (4 * 3)).take 4 = bigEndian 4 s.sigFigs := by
    rw [← hdata]
    simp [drop_bigEndian]
  have hlowest : (data.drop (16 + 8 * 0)).take 8 = bigEndian 8 s.lowest := by
    rw [← hdata]
    simp [drop_bigEndian]
  have hhighest : (data.drop (16 + 8 * 1)).take 8 = bigEndian 8 s.highest := by
    rw [← hdata]
    simp [drop_bigEndian]
  have hcounts : data.drop 40 = s.countsBytes := by
    rw [← hdata]
    simp [drop_bigEndian]
  have hvalid : ¬ Int.land (ofBigEndian ((data.drop (4 * 0)).take 4)) (Int.lnot 0xF0)
      ≠ V2_ENCODING_COOKIE_BASE := by
    rw [hcookie, ofBigEndian_natCast (by decide)]
    decide +kernel
  have hzeros : s.zeros.get_raw_count = fun _ => 0 := rfl
  rw [Ruby.decode_v2, if_neg hlength]
  dsimp only
  rw [if_neg hvalid, hlowest, hhighest, hsigFigs, ofBigEndian_toInt hs.lowest.1 hs.lowest.2,
    ofBigEndian_toInt hs.highest.1 hs.highest.2, ofBigEndian_natCast hs.sigFigs, hnew,
    hcounts, hzeros, decodeCounts_countsBytes, ← total_count_ruby]
  rfl

end Snapshot

/-! ## The wrapper -/

/-- The reader's zlib undoes the writer's on a payload, and the number of compressed
bytes fits into its field. -/
def Inflates (inflate deflate : List UInt8 → Option (List UInt8)) (payload : List UInt8) : Prop :=
  ∃ compressed, deflate payload = some compressed ∧ inflate compressed = some payload ∧
    compressed.length < 2 ^ 32

/-- The reader unwraps what was wrapped, and does not look at the bytes behind it. -/
lemma decode_compressed_wrap {inflate deflate : List UInt8 → Option (List UInt8)}
    {payload : List UInt8} (hzlib : Inflates inflate deflate payload)
    (new : ℤ → ℤ → ℕ → Ruby.Histogram) :
    ∃ data, wrap deflate payload = some data ∧ ∀ after,
    Ruby.decode_compressed inflate new (data ++ after)
      = (Ruby.decode_v2 new payload).mapError .payload := by
  obtain ⟨compressed, hdeflate, hinflate, hlen⟩ := hzlib
  refine ⟨_, by rw [wrap, hdeflate]; rfl, fun after => ?_⟩
  generalize hdata : bigEndian 4 V2_COMPRESSED_ENCODING_COOKIE ++ bigEndian 4 compressed.length ++
    compressed ++ after
    = data
  simp only [List.append_assoc] at hdata
  have hlength : ¬ data.length < 8 := by
    rw [← hdata]
    simp only [List.length_append, length_bigEndian]
    omega
  have hcookie : data.take 4 = bigEndian 4 V2_COMPRESSED_ENCODING_COOKIE := by
    rw [← hdata, take_bigEndian]
  have hsize : (data.drop 4).take 4 = bigEndian 4 compressed.length := by
    rw [← hdata, drop_bigEndian le_rfl, List.drop_zero, take_bigEndian]
  have hcompressed : (data.drop 8).take compressed.length = compressed := by
    rw [← hdata]
    simp [drop_bigEndian]
  have hvalid : ¬ Int.land (ofBigEndian (data.take 4)) (Int.lnot 0xF0)
    ≠ V2_COMPRESSED_ENCODING_COOKIE_BASE := by
    rw [hcookie, ofBigEndian_natCast (by decide)]
    decide +kernel
  rw [Ruby.decode_compressed, if_neg (by omega)]
  dsimp only
  rw [if_neg hvalid, if_neg hlength, hsize, ofBigEndian_natCast hlen, hcompressed, hinflate]

/-- A wrapped payload is read back. -/
lemma Snapshot.decode_compressed_payload {s : Snapshot} (henc : s.Encodable)
    {new : ℤ → ℤ → ℕ → Ruby.Histogram} (hnew : new s.lowest s.highest s.sigFigs = s.zeros)
    {inflate deflate : List UInt8 → Option (List UInt8)} {payload : List UInt8} {payloadLen : ℤ}
    (hpayload : payload = s.payload payloadLen s.countsBytes)
    (hzlib : Inflates inflate deflate payload) : ∃ data, wrap deflate payload = some data ∧
      ∀ after, Ruby.decode_compressed inflate new (data ++ after) = .ok (s.ruby, s.counts.sum) := by
  obtain ⟨data, hdata, hread⟩ := decode_compressed_wrap hzlib new
  refine ⟨data, hdata, fun after => ?_⟩
  rw [hread, hpayload, decode_v2_payload henc hnew]
  rfl

/-! ## The writers are read alike -/

/-- The engines with an encoder of their own. -/
inductive Writer where
  | go
  | php
  | ruby

/-- The payload that a writer makes, of its own histogram with the parameters and
counts of a snapshot. -/
def Writer.payload (s : Snapshot) (h : HdrHistogram) : Writer → List UInt8
  | .go => Go.encodeV2 h
  | .php => Php.encodeV2 h
  | .ruby => Ruby.encode_v2 s.ruby

/-- What a writer hands over. -/
def Writer.encodeCompressed (deflate : List UInt8 → Option (List UInt8)) (s : Snapshot)
    (h : HdrHistogram) :
    Writer → Option (List UInt8)
  | .go => Go.EncodeCompressed deflate h
  | .php => Php.encodeCompressed deflate h
  | .ruby => Ruby.encode_compressed deflate s.ruby

/-- A writer compresses the payload of its language. -/
lemma Writer.encodeCompressed_eq (deflate : List UInt8 → Option (List UInt8)) (s : Snapshot)
    (h : HdrHistogram) (writer : Writer) : writer.encodeCompressed deflate s h
      = wrap deflate (writer.payload s h) := by
  cases writer <;> rfl

/-- Whoever wrote a histogram, and whatever follows its bytes: the reader gets its parameters, all
its counts and their sum. -/
theorem compressed_round_trip (writer : Writer) {s : Snapshot} {h : HdrHistogram} (hs : s.Of h)
    (henc : s.Encodable) {new : ℤ → ℤ → ℕ → Ruby.Histogram}
    (hnew : new s.lowest s.highest s.sigFigs = s.zeros)
    {inflate deflate : List UInt8 → Option (List UInt8)}
    (hzlib : Inflates inflate deflate (writer.payload s h)) :
    ∃ data, writer.encodeCompressed deflate s h = some data ∧
      ∀ after, Ruby.decode_compressed inflate new (data ++ after) = .ok (s.ruby, s.counts.sum) := by
  obtain ⟨hgo, hphp, hruby⟩ := hs.payloads_eq
  rw [writer.encodeCompressed_eq]
  cases writer with
  | go => exact Snapshot.decode_compressed_payload henc hnew hgo hzlib
  | php => exact Snapshot.decode_compressed_payload henc hnew hphp hzlib
  | ruby => exact Snapshot.decode_compressed_payload henc hnew hruby hzlib

/-! ## Recorded samples -/

/-- An array of counts as a snapshot. -/
def CountsArray.snapshot {h : HdrHistogram} (hh : CountsArray h) : Snapshot where
  lowest := h.layout.lowestTrackableValue
  highest := h.layout.highestTrackableValue
  sigFigs := h.layout.significantFigures
  counts := (List.range h.layout.countsLen.toNat).map fun i : ℕ => h.rawCountAt i
  counts_range c hc := by
    obtain ⟨i, -, rfl⟩ := List.mem_map.mp hc
    exact hh.range i
  counts_length := by
    have := hh.len
    rw [List.length_map, List.length_range]
    omega

/-- The counts of the snapshot are those of the histogram. -/
lemma CountsArray.rawCount_eq {h : HdrHistogram} (hh : CountsArray h) (i : ℕ) :
    hh.snapshot.rawCount i = h.rawCountAt i := by
  have hlen := hh.len
  rw [Snapshot.rawCount, snapshot]
  dsimp only
  by_cases hi : i < h.layout.countsLen.toNat
  · rw [List.getD_eq_getElem _ _ (by rwa [List.length_map, List.length_range]), List.getElem_map,
      List.getElem_range]
  · rw [List.getD_eq_default _ _ (by rw [List.length_map, List.length_range]; omega)]
    have hno : (i : ℤ) ∉ Table.keys h.counts := fun hmem => by
      have := hh.below _ hmem
      omega
    exact (Table.get_of_notMem hno).symm

/-- The snapshot is one of the histogram. -/
lemma CountsArray.of {h : HdrHistogram} (hh : CountsArray h) (hpop : Populated h) :
    hh.snapshot.Of h :=
  ⟨rfl, rfl, rfl, hpop, fun i => (hh.rawCount_eq i).symm⟩

/-- What Go and PHP hand over. -/
def Engine.encodeCompressed (deflate : List UInt8 → Option (List UInt8)) :
    Engine → HdrHistogram → Option (List UInt8)
  | .go => Go.EncodeCompressed deflate
  | .php => Php.encodeCompressed deflate

/-- The uncompressed payloads of Go and PHP. -/
def Engine.encodeV2 : Engine → HdrHistogram → List UInt8
  | .go => Go.encodeV2
  | .php => Php.encodeV2

/-- A new default histogram of the gem. -/
def gemDefault : Ruby.Histogram := ⟨0, 3, 1, 600000000, one, 21504, fun _ => 0⟩

/-- The default histogram of some buckets, as the gem has it. -/
def gemHistogram (M : Multiset ℕ) : Ruby.Histogram :=
  { gemDefault with get_raw_count := fun i => M.count i }

/-- A default histogram that holds buckets of its array, and fewer than a 64-bit integer counts. -/
structure HoldsBelow (h : HdrHistogram) (M : Multiset ℕ) : Prop where
  layout : h.layout = defaultLayout
  holds : Holds h M
  below : ∀ i ∈ M, (i : ℤ) < defaultLayout.countsLen
  card : M.card < 2 ^ 63

namespace HoldsBelow
variable {h : HdrHistogram} {M : Multiset ℕ} (hh : HoldsBelow h M)
include hh

/-- The counts of such a histogram are an array of 64-bit words. -/
lemma countsArray : CountsArray h := by
  have hcountsLen : h.layout.countsLen = 21504 := by rw [hh.layout, defaultLayout_eq]
  refine ⟨fun i => ?_, fun idx hidx => ?_, by omega⟩
  · have hle := Multiset.count_le_card i M
    have hcard := hh.card
    rw [hh.holds.count]
    omega
  · obtain ⟨i, hi, rfl⟩ := (hh.holds.keys idx).mp hidx
    rw [hh.layout]
    exact hh.below i hi

/-- Its snapshot is one of the histogram. -/
lemma of_snapshot : hh.countsArray.snapshot.Of h := hh.countsArray.of hh.holds.populated

/-- The snapshot is the histogram of the gem. -/
lemma snapshot_ruby : hh.countsArray.snapshot.ruby = gemHistogram M := by
  have hcount : hh.countsArray.snapshot.rawCount = fun i => (M.count i : ℤ) := by
    funext i
    rw [hh.countsArray.rawCount_eq, hh.holds.count]
  rw [Snapshot.ruby, hcount, CountsArray.snapshot]
  dsimp only
  rw [List.length_map, List.length_range, hh.layout, defaultLayout_eq]
  rfl

/-- Its counts add up to the number of samples. -/
lemma snapshot_sum : hh.countsArray.snapshot.counts.sum = M.card := by
  have hbelow : ∀ i ∈ M, i < 21504 := fun i hi => by
    have hlt := hh.below i hi
    rw [defaultLayout_eq] at hlt
    dsimp only at hlt
    omega
  have hcounts : hh.countsArray.snapshot.counts = (List.range 21504).map fun i : ℕ =>
    h.rawCountAt i := by
    rw [CountsArray.snapshot]
    dsimp only
    rw [hh.layout, defaultLayout_eq]
    rfl
  rw [← sum_counts hbelow, hcounts]
  simp only [hh.holds.count]

/-- The parameters of the snapshot are the default ones. -/
lemma snapshot_params : hh.countsArray.snapshot.lowest = 1 ∧
    hh.countsArray.snapshot.highest = 600000000 ∧
    hh.countsArray.snapshot.sigFigs = 3 := by
  dsimp only [CountsArray.snapshot]
  rw [hh.layout, defaultLayout_eq]
  exact ⟨rfl, rfl, rfl⟩

/-- The snapshot fits into the fields of the format. -/
lemma encodable : hh.countsArray.snapshot.Encodable := by
  obtain ⟨hlowest, hhighest, hsigFigs⟩ := hh.snapshot_params
  refine ⟨?_, ?_, ?_⟩
  · rw [hlowest]
    norm_num
  · rw [hhighest]
    norm_num
  · rw [hsigFigs]
    norm_num

section Reader
variable {new : ℤ → ℤ → ℕ → Ruby.Histogram} (hnew : new 1 600000000 3 = gemDefault)
include hnew

/-- The gem makes the empty histogram of the snapshot, when it makes the default one. -/
lemma new_eq : new hh.countsArray.snapshot.lowest hh.countsArray.snapshot.highest
    hh.countsArray.snapshot.sigFigs
    = hh.countsArray.snapshot.zeros := by
  obtain ⟨hlowest, hhighest, hsigFigs⟩ := hh.snapshot_params
  rw [hlowest, hhighest, hsigFigs, hnew, Snapshot.zeros, hh.snapshot_ruby]
  rfl

/-- The reader gets the buckets and the number of samples. -/
theorem decode_compressed (engine : Engine) {inflate deflate : List UInt8 → Option (List UInt8)}
    (hzlib : Inflates inflate deflate (engine.encodeV2 h)) :
    ∃ data, engine.encodeCompressed deflate h = some data ∧
      ∀ after, Ruby.decode_compressed inflate new (data ++ after)
        = .ok (gemHistogram M, M.card) := by
  obtain ⟨hgo, hphp, -⟩ := hh.of_snapshot.payloads_eq
  rw [← hh.snapshot_ruby, ← hh.snapshot_sum]
  cases engine with
  | go => exact Snapshot.decode_compressed_payload hh.encodable (hh.new_eq hnew) hgo hzlib
  | php => exact Snapshot.decode_compressed_payload hh.encodable (hh.new_eq hnew) hphp hzlib

end Reader

end HoldsBelow

variable {engine : Engine} {h : HdrHistogram} {xs : List ℤ}

/-- A built histogram of fewer than 2^63 samples has counts of 64 bits. -/
lemma Built.holdsBelow (hb : Built engine h xs) (hlen : xs.length < 2 ^ 63) :
    HoldsBelow h (buckets xs) where
  layout := hb.holds.1
  holds := hb.holds.2
  below _ hi := lt_countsLen hb.trackable hi
  card := by rwa [card_buckets]

/-- The reader gets the samples back that were recorded and merged, in any order: their
buckets and their number. -/
theorem recorded_round_trip (hb : Built engine h xs) (hlen : xs.length < 2 ^ 63)
    {new : ℤ → ℤ → ℕ → Ruby.Histogram} (hnew : new 1 600000000 3 = gemDefault)
    {inflate deflate : List UInt8 → Option (List UInt8)}
    (hzlib : Inflates inflate deflate (engine.encodeV2 h)) :
    ∃ data, engine.encodeCompressed deflate h = some data ∧
      ∀ after, Ruby.decode_compressed inflate new (data ++ after)
        = .ok (gemHistogram (buckets xs), xs.length) := by
  have hread := (hb.holdsBelow hlen).decode_compressed hnew engine hzlib
  rwa [card_buckets] at hread

/-! ## One sample -/

/-- One sample of a microsecond. -/
def oneSample : HdrHistogram := Php.record newDefaultHdrHistogram 1

/-- Its payload. -/
def onePayload : List UInt8 :=
  [0x1C, 0x84, 0x93, 0x13, 0, 0, 0, 2, 0, 0, 0, 0, 0, 0, 0, 3, 0, 0, 0, 0, 0, 0, 0, 1, 0, 0, 0, 0,
    0x23, 0xC3, 0x46, 0, 0x3F, 0xF0, 0, 0, 0, 0, 0, 0, 1, 2]

/-- The bytes of zlib for it. -/
def oneCompressed : List UInt8 :=
  [0x78, 0x9C, 0x93, 0x69, 0x99, 0x2C, 0xCC, 0xC0, 0xC0, 0xC0, 0xC4, 0, 1, 0xCC, 0x50, 0x9A, 0x11,
    0x44, 0x28, 0x1F, 0x76, 0x63, 0xB0, 0xFF, 0, 0x15, 0x60, 2, 0, 0x4E, 0x70, 3, 0xAB]

def oneDeflate (payload : List UInt8) : Option (List UInt8) :=
  if payload = onePayload then some oneCompressed else none

def oneInflate (compressed : List UInt8) : Option (List UInt8) :=
  if compressed = oneCompressed then some onePayload else none

/-- The constructor of the gem for the default parameters. -/
def oneNew (lowest highest : ℤ) (sig_figs : ℕ) : Ruby.Histogram :=
  ⟨0, sig_figs, lowest, highest, one, 21504, fun _ => 0⟩

/-- The histogram of one sample is built. -/
lemma oneSample_built : Built .php oneSample [1] := .record .new (by norm_num) (by norm_num)

/-- The decompression of this payload undoes its compression. -/
lemma oneSample_inflates : Inflates oneInflate oneDeflate (Php.encodeV2 oneSample) := by
  have hpayload : Php.encodeV2 oneSample = onePayload := by decide +kernel
  rw [hpayload]
  exact ⟨oneCompressed, if_pos rfl, if_pos rfl, by decide +kernel⟩

/-- The histogram of one sample has counts of 64 bits. -/
lemma oneSample_holdsBelow : HoldsBelow oneSample (buckets [1]) :=
  oneSample_built.holdsBelow (by norm_num)

/-- Its counts are an array. -/
lemma oneSample_counts : CountsArray oneSample := oneSample_holdsBelow.countsArray

/-- The decoder reads the counts of the sample. -/
theorem oneSample_compressed : ∃ data,
    Writer.php.encodeCompressed oneDeflate oneSample_counts.snapshot oneSample = some data ∧
      ∀ after, Ruby.decode_compressed oneInflate oneNew (data ++ after)
        = .ok (oneSample_counts.snapshot.ruby, oneSample_counts.snapshot.counts.sum) :=
  compressed_round_trip .php oneSample_holdsBelow.of_snapshot oneSample_holdsBelow.encodable
    (oneSample_holdsBelow.new_eq rfl) oneSample_inflates

/-- The decoder returns the histogram of the sample. -/
theorem oneSample_round_trip :
    ∃ data, Engine.php.encodeCompressed oneDeflate oneSample = some data ∧
    ∀ after, Ruby.decode_compressed oneInflate oneNew (data ++ after)
      = .ok (gemHistogram (buckets [1]), 1) :=
  recorded_round_trip oneSample_built (by norm_num) rfl oneSample_inflates

end RespBench.Hdr
