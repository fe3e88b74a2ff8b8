import RespBench.Hdr.RoundTrip

/-!
# Truncated payloads

The header of a payload says how many bytes of counts follow. `decode_v2` of the Ruby engine
reads this field and never looks at it: when the data ends, inside of a number or between two,
the loop stops, and the counts that were read are the histogram. `decodeCounts_take` says which
ones these are, for every cut, and `total_readEntries` what is lost. So no truncated payload is
rejected (`truncation_iff`).
-/

namespace RespBench.Hdr.Ruby
open RespBench.Lib
open RespBench.Lib.Bytes

/-! ## Payloads -/

/-- The bytes of an entry of the counts. -/
def entryBytes (v : ℤ) : List UInt8 := leb128 (zigzag v)

/-- The number of counts that an entry stands for: a negative one is a run of zeros. -/
def extent (v : ℤ) : ℕ := if v < 0 then (-v).toNat else 1

/-- The histogram that the header asks for. -/
def emptyHistogram (new : ℤ → ℤ → ℕ → Histogram) (data : List UInt8) : Histogram :=
  new (BitVec.ofNat 64 (ofBigEndian ((data.drop 16).take 8))).toInt
    (BitVec.ofNat 64 (ofBigEndian ((data.drop 24).take 8))).toInt
      (ofBigEndian ((data.drop 12).take 4))

/-- A V2 payload whose `payload_length` is the number of bytes of its counts, which are those of a
list of 64-bit integers that fit into the histogram. -/
structure ValidPayload (new : ℤ → ℤ → ℕ → Histogram) (data : List UInt8)
    (entries : List ℤ) : Prop where
  header : 40 ≤ data.length
  cookie : Int.land (ofBigEndian (data.take 4)) (Int.lnot 0xF0) = V2_ENCODING_COOKIE_BASE
  payload_length : ofBigEndian ((data.drop 4).take 4) = (data.drop 40).length
  counts : data.drop 40 = entries.flatMap entryBytes
  range : ∀ v ∈ entries, -2 ^ 63 ≤ v ∧ v < 2 ^ 63
  fits : (entries.map extent).sum ≤ (emptyHistogram new data).counts_len

/-- What the decoder does with a list of entries. -/
def readEntries : List ℤ → ℕ → (ℕ → ℤ) → ℕ → ℤ
  | [], _, counts => counts
  | v :: entries, index, counts =>
    if v < 0 then readEntries entries (index + (-v).toNat) counts
    else readEntries entries (index + 1) (if v > 0 then set_raw_count counts index v else counts)

/-- The entries that are whole in the first `n` bytes. -/
def wholeEntries : ℕ → List ℤ → List ℤ
  | _, [] => []
  | n, v :: entries =>
    if (entryBytes v).length ≤ n then v :: wholeEntries (n - (entryBytes v).length) entries else []

/-- Every proper prefix with the whole header is rejected. -/
def RejectsTruncation (new : ℤ → ℤ → ℕ → Histogram) (data : List UInt8) : Prop :=
  ∀ n, 40 ≤ n → n < data.length → ∃ e, decode_v2 new (data.take n) = .error e

/-- What is returned for such a prefix is what is returned for the payload. -/
def KeepsCounts (new : ℤ → ℤ → ℕ → Histogram) (data : List UInt8) : Prop :=
  ∀ n, 40 ≤ n → n < data.length → ∀ h, decode_v2 new (data.take n) = .ok h →
    decode_v2 new data = .ok h

/-! ## The cut -/

/-- An entry has a byte. -/
lemma entryBytes_pos (v : ℤ) : 0 < (entryBytes v).length :=
  List.length_pos_of_ne_nil (leb128_ne_nil _)

/-- The loop reads to the end of the data when the last byte of the number is missing. -/
lemma decodeLoop_cut {data : List UInt8} {offset fuel bytes_read shift n : ℕ} {zz : ℤ}
    (hdata : data.drop (offset + bytes_read) <+: leb128 n)
    (hcut : data.drop (offset + bytes_read) ≠ leb128 n) :
    decodeLoop data offset fuel bytes_read shift zz = none := by
  induction fuel generalizing bytes_read shift n zz with
  | zero => rfl
  | succ fuel ih =>
    have hget : data[offset + bytes_read]? = (data.drop (offset + bytes_read)).head? :=
      List.head?_drop.symm
    have hnext : data.drop (offset + (bytes_read + 1))
      = (data.drop (offset + bytes_read)).tail := by
      rw [List.tail_drop, add_assoc]
    rw [decodeLoop, hget]
    cases hrest : data.drop (offset + bytes_read) with
    | nil => rfl
    | cons byte rest =>
      rw [hrest] at hdata hcut hnext
      rcases leb128_cases n with ⟨-, hbytes⟩ | ⟨-, hbytes⟩
      · -- a number of one byte cannot be cut
        rw [hbytes] at hdata hcut
        obtain ⟨rfl, hnil⟩ := List.cons_prefix_cons.mp hdata
        rw [List.prefix_nil.mp hnil] at hcut
        exact absurd rfl hcut
      · rw [hbytes] at hdata hcut
        obtain ⟨rfl, hprefix⟩ := List.cons_prefix_cons.mp hdata
        have hhigh : ¬ Int.land ((UInt8.ofNat (n % 128 + 128)).toNat : ℤ) 0x80 = 0 := by
          rw [(leb128_byte _).2, UInt8.toNat_ofNat']
          omega
        dsimp only [List.head?_cons]
        rw [if_neg hhigh]
        rw [List.tail_cons] at hnext
        refine ih (n := n / 128) (hnext ▸ hprefix) ?_
        rw [hnext]
        exact fun heq => hcut (by rw [heq])

/-- An entry that is cut off reads as a zero of no length. -/
lemma decode_zigzag_long_cut {data : List UInt8} {offset : ℕ} {v : ℤ}
    (hdata : data.drop offset <+: entryBytes v) (hcut : data.drop offset ≠ entryBytes v) :
    decode_zigzag_long data offset = (0, 0) := by
  have hstart : data.drop (offset + 0) <+: leb128 (zigzag v) := hdata
  rw [decode_zigzag_long, decodeLoop_cut hstart hcut]

/-- The loop of `decode_v2` reads the entries that are whole, and stops. -/
lemma decodeCountsFrom_take {data : List UInt8} {entries : List ℤ} {n offset rounds : ℕ} (index : ℕ)
    (counts : ℕ → ℤ) (hdata : data.drop offset = (entries.flatMap entryBytes).take n)
    (hrounds : data.length ≤ offset + rounds) :
    (decodeCountsFrom data rounds offset index counts).1
      = readEntries (wholeEntries n entries) index counts := by
  induction entries generalizing n offset rounds index counts with
  | nil =>
    have hend : data.length ≤ offset := List.drop_eq_nil_iff.mp (hdata.trans List.take_nil)
    rw [decodeCountsFrom_end hend]
    rfl
  | cons v entries ih =>
    rw [List.flatMap_cons] at hdata
    rw [wholeEntries]
    split
    next hwhole =>
      -- the entry is there, and one round reads it
      rw [List.take_append, List.take_of_length_le hwhole] at hdata
      have hrest : data.drop (offset + (entryBytes v).length)
          = (entries.flatMap entryBytes).take (n - (entryBytes v).length) := by
        rw [← List.drop_drop, hdata, List.drop_left]
      have hlength := congrArg List.length hdata
      have hpos := entryBytes_pos v
      rw [List.length_drop, List.length_append] at hlength
      obtain ⟨rounds, rfl⟩ : ∃ r, rounds = r + 1 := ⟨rounds - 1, by omega⟩
      have hleft : data.length ≤ offset + (entryBytes v).length + rounds := by omega
      rw [decodeCountsFrom_round hdata, readEntries]
      split
      · exact ih _ _ hrest hleft
      · exact ih _ _ hrest hleft
    next hcut =>
      have htake : data.drop offset = (entryBytes v).take n := by
        rw [hdata, List.take_append_of_le_length (by omega)]
      have hshort : data.drop offset ≠ entryBytes v := by
        intro heq
        have hlength := congrArg List.length (htake.symm.trans heq)
        rw [List.length_take] at hlength
        omega
      cases rounds with
      | zero => rfl
      | succ rounds =>
        rw [decodeCountsFrom, decode_zigzag_long_cut (htake ▸ List.take_prefix n _) hshort]
        split <;> rfl

/-- The counts that are read of a prefix. -/
theorem decodeCounts_take (entries : List ℤ) (n : ℕ) (counts : ℕ → ℤ) :
    (decodeCounts ((entries.flatMap entryBytes).take n) counts).1
      = readEntries (wholeEntries n entries) 0 counts :=
  decodeCountsFrom_take 0 counts List.drop_zero (Nat.zero_add _).ge

/-! ## What is lost -/

/-- Nothing is read of no bytes. -/
lemma wholeEntries_zero (entries : List ℤ) : wholeEntries 0 entries = [] := by
  cases entries with
  | nil => rfl
  | cons v entries => rw [wholeEntries, if_neg (not_le.mpr (entryBytes_pos v))]

/-- All entries are read of enough bytes. -/
lemma wholeEntries_all {entries : List ℤ} {n : ℕ} (hn : (entries.flatMap entryBytes).length ≤ n) :
    wholeEntries n entries = entries := by
  induction entries generalizing n with
  | nil => rfl
  | cons v entries ih =>
    rw [List.flatMap_cons, List.length_append] at hn
    rw [wholeEntries, if_pos (by omega), ih (by omega)]

/-- The entries read are the first ones. -/
lemma wholeEntries_initial (n : ℕ) (entries : List ℤ) : wholeEntries n entries <+: entries := by
  induction entries generalizing n with
  | nil => exact List.prefix_rfl
  | cons v entries ih =>
    rw [wholeEntries]
    split
    · exact List.cons_prefix_cons.mpr ⟨rfl, ih _⟩
    · exact List.nil_prefix

/-- Entries without a positive one leave the counts alone. -/
lemma readEntries_zeros {entries : List ℤ} (hentries : ∀ v ∈ entries, v ≤ 0) (index : ℕ)
    (counts : ℕ → ℤ) :
    readEntries entries index counts = counts := by
  induction entries generalizing index with
  | nil => rfl
  | cons v entries ih =>
    obtain ⟨hv, hrest⟩ := List.forall_mem_cons.mp hentries
    rw [readEntries, if_neg (not_lt.mpr hv), ih hrest, ih hrest, ite_self]

/-- `recalculate_internals` on some counts. -/
def total (len : ℕ) (counts : ℕ → ℤ) : ℤ := ((List.range len).map fun i => max (counts i) 0).sum

/-- A count written to an empty place adds to the total. -/
lemma total_set_raw_count {len index : ℕ} {counts : ℕ → ℤ} {v : ℤ} (hindex : index < len)
    (hzero : counts index = 0) (hv : 0 < v) : total len (set_raw_count counts index v)
      = total len counts + v := by
  have hsum (f : ℕ → ℤ) : ((List.range len).map f).sum = ∑ i ∈ Finset.range len, f i := rfl
  have hupdate : (fun i => max (set_raw_count counts index v i) 0)
      = Function.update (fun i => max (counts i) 0) index v := by
    have hcomp := Function.comp_update (max · 0) counts index v
    rwa [max_eq_left hv.le] at hcomp
  have hmem : index ∈ Finset.range len := Finset.mem_range.mpr hindex
  rw [total, total, hupdate, hsum, hsum, Finset.sum_update_of_mem hmem, add_comm,
    ← Finset.sum_sdiff (Finset.singleton_subset_iff.mpr hmem), Finset.sum_singleton, hzero,
      max_self, add_zero]

/-- The total of the counts is that of the positive entries. -/
theorem total_readEntries {entries : List ℤ} {len index : ℕ} {counts : ℕ → ℤ}
    (hfits : index + (entries.map extent).sum ≤ len) (hzero : ∀ i, index ≤ i → counts i = 0) :
    total len (readEntries entries index counts) = total len counts
      + (entries.map (max · 0)).sum := by
  induction entries generalizing index counts with
  | nil => exact (add_zero _).symm
  | cons v entries ih =>
    rw [List.map_cons, List.sum_cons, extent] at hfits
    rw [readEntries, List.map_cons, List.sum_cons]
    rcases lt_trichotomy v 0 with hv | rfl | hv
    · rw [if_pos hv] at hfits ⊢
      rw [ih (by omega) fun i hi => hzero i (by omega), max_eq_right hv.le, zero_add]
    · rw [if_neg (lt_irrefl 0)] at hfits ⊢
      rw [if_neg (lt_irrefl 0), ih (by omega) fun i hi => hzero i (by omega), max_self, zero_add]
    · rw [if_neg hv.le.not_gt] at hfits ⊢
      have hset : ∀ i, index + 1 ≤ i → set_raw_count counts index v i = 0 := by
        intro i hi
        rw [set_raw_count, Function.update_of_ne (by omega), hzero i (by omega)]
      rw [if_pos hv, ih (by omega) hset, total_set_raw_count (by omega) (hzero index le_rfl) hv,
        max_eq_left hv.le, add_assoc]

/-! ## Decoding a prefix -/

/-- The histogram of some entries, and its total. -/
def decoded (new : ℤ → ℤ → ℕ → Histogram) (data : List UInt8) (entries : List ℤ) : Histogram × ℤ :=
  let counts := readEntries entries 0 (emptyHistogram new data).get_raw_count
  ({ emptyHistogram new data with get_raw_count := counts },
    total (emptyHistogram new data).counts_len counts)

/-- A field before the cut is read as before. -/
lemma field_take {data : List UInt8} {n i k : ℕ} (hn : i + k ≤ n) :
    ((data.take n).drop i).take k = (data.drop i).take k := by
  rw [List.drop_take, List.take_take, min_eq_left (by omega)]

section Payload
variable {new : ℤ → ℤ → ℕ → Histogram} {data : List UInt8} {entries : List ℤ}
  (hnew : ∀ lowest highest sig_figs i, (new lowest highest sig_figs).get_raw_count i = 0)
  (hdata : ValidPayload new data entries)

include hdata in
/-- A payload is its header and its entries. -/
lemma length_eq : data.length = 40 + (entries.flatMap entryBytes).length := by
  have hlength := congrArg List.length hdata.counts
  have hheader := hdata.header
  rw [List.length_drop] at hlength
  omega

include hdata in
/-- With the whole header nothing is raised: the histogram of the entries that are whole is
returned. -/
theorem decode_v2_take {n : ℕ} (hn : 40 ≤ n) :
    decode_v2 new (data.take n) = .ok (decoded new data (wholeEntries (n - 40) entries)) := by
  have hlength : ¬ (data.take n).length < 40 := by
    have := hdata.header
    rw [List.length_take]
    omega
  have hcookie : Int.land (ofBigEndian (((data.take n).drop (4 * 0)).take 4)) (Int.lnot 0xF0)
      = V2_ENCODING_COOKIE_BASE := by
    rw [field_take (by omega)]
    exact hdata.cookie
  have hcounts : (data.take n).drop 40 = (entries.flatMap entryBytes).take (n - 40) := by
    rw [List.drop_take, hdata.counts]
  have hfields : new
    (BitVec.ofNat 64 (ofBigEndian (((data.take n).drop (16 + 8 * 0)).take 8))).toInt
      (BitVec.ofNat 64 (ofBigEndian (((data.take n).drop (16 + 8 * 1)).take 8))).toInt
      (ofBigEndian (((data.take n).drop (4 * 3)).take 4)) = emptyHistogram new data := by
    rw [field_take (by omega), field_take (by omega), field_take (by omega)]
    rfl
  rw [decode_v2, if_neg hlength]
  dsimp only
  rw [if_neg (not_not.mpr hcookie), hfields, hcounts, decodeCounts_take]
  rfl

include hdata in
/-- A whole payload decodes. -/
lemma decode_v2_eq : decode_v2 new data = .ok (decoded new data entries) := by
  have hlength := length_eq hdata
  have hwhole : wholeEntries (data.length - 40) entries = entries := wholeEntries_all (by omega)
  have htake := decode_v2_take hdata hdata.header
  rwa [List.take_length, hwhole] at htake

include hnew hdata in
/-- The total that is returned counts the positive entries that are whole. -/
lemma decoded_total (n : ℕ) :
    (decoded new data (wholeEntries n entries)).2
      = ((wholeEntries n entries).map (max · 0)).sum := by
  have hzero : ∀ i, (emptyHistogram new data).get_raw_count i = 0 := fun i => hnew _ _ _ i
  have hprefix : ((wholeEntries n entries).map extent).sum ≤ (entries.map extent).sum :=
    ((wholeEntries_initial n entries).sublist.map extent).sum_le_sum fun _ _ => Nat.zero_le _
  have hfits := hdata.fits
  have hempty : total (emptyHistogram new data).counts_len (emptyHistogram new data).get_raw_count
    = 0 := by
    rw [total]
    refine List.sum_eq_zero fun v hv => ?_
    obtain ⟨i, -, rfl⟩ := List.mem_map.mp hv
    rw [hzero i, max_self]
  rw [decoded]
  dsimp only
  rw [total_readEntries (by omega) fun i _ => hzero i, hempty, zero_add]

include hdata in
/-- Every payload with counts has a proper prefix with the whole header, the header itself. -/
lemma header_lt_iff : 40 < data.length ↔ entries ≠ [] := by
  rw [length_eq hdata]
  cases entries with
  | nil => simp
  | cons v entries =>
    have hpos := entryBytes_pos v
    rw [List.flatMap_cons, List.length_append]
    exact ⟨fun _ => List.cons_ne_nil _ _, fun _ => by omega⟩

include hdata in
/-- Nothing but the lack of prefixes keeps truncated payloads from being accepted. -/
lemma rejectsTruncation_iff : RejectsTruncation new data ↔ entries = [] := by
  constructor
  · intro hrejects
    by_contra hne
    obtain ⟨e, he⟩ := hrejects 40 le_rfl ((header_lt_iff hdata).mpr hne)
    rw [decode_v2_take hdata le_rfl] at he
    cases he
  · intro hnil n hn hlt
    exact absurd hnil ((header_lt_iff hdata).mp (hn.trans_lt hlt))

include hnew hdata in
/-- The header alone gives an empty histogram, which is that of the payload if no entry is
positive. -/
lemma nonpos_of_keepsCounts (hkeeps : KeepsCounts new data) : ∀ v ∈ entries, v ≤ 0 := by
  intro v hv
  have hcut := hkeeps 40 le_rfl ((header_lt_iff hdata).mpr (List.ne_nil_of_mem hv))
    _ (decode_v2_take hdata le_rfl)
  rw [decode_v2_eq hdata, Except.ok.injEq] at hcut
  have hall : wholeEntries (entries.flatMap entryBytes).length entries = entries :=
    wholeEntries_all le_rfl
  have htotal := congrArg Prod.snd hcut
  rw [Nat.sub_self, decoded_total hnew hdata 0, wholeEntries_zero, ← hall,
    decoded_total hnew hdata, hall, List.map_nil, List.sum_nil] at htotal
  have hle : max v 0 ≤ (entries.map (max · 0)).sum := by
    refine List.single_le_sum (fun w hw => ?_) _ (List.mem_map_of_mem hv)
    obtain ⟨u, -, rfl⟩ := List.mem_map.mp hw
    exact le_max_right u 0
  exact (le_max_left v 0).trans (hle.trans htotal.le)

include hnew hdata in
/-- A truncated payload is never rejected, so that only a payload without counts, which has no
proper prefix with the whole header, meets the rule; and what is returned is right exactly when
no count is positive. -/
theorem truncation_iff : (RejectsTruncation new data ↔ entries = []) ∧
    (KeepsCounts new data ↔ ∀ v ∈ entries, v ≤ 0) := by
  refine ⟨rejectsTruncation_iff hdata, nonpos_of_keepsCounts hnew hdata, ?_⟩
  intro hentries n hn _ h hok
  have hwhole : ∀ v ∈ wholeEntries (n - 40) entries, v ≤ 0 := fun v hv =>
    hentries v ((wholeEntries_initial _ _).subset hv)
  rw [decode_v2_take hdata hn, decoded, readEntries_zeros hwhole] at hok
  rw [decode_v2_eq hdata, decoded, readEntries_zeros hentries]
  exact hok

end Payload

/-- A histogram of the gem with 32 counts. -/
def newHistogram (lowest highest : ℤ) (sig_figs : ℕ) : Histogram :=
  ⟨0, sig_figs, lowest, highest, one, 32, fun _ => 0⟩

/-- The payload of the counts 3 and 300, the second of which takes two bytes. -/
def twoCounts : List UInt8 := smallSnapshot.payload 3 [6, 0xD8, 4]

/-- The payload of two counts is valid. -/
lemma twoCounts_valid : ValidPayload newHistogram twoCounts [3, 300] where
  header := by decide +kernel
  cookie := by decide +kernel
  payload_length := by decide +kernel
  counts := by decide +kernel
  range := by decide +kernel
  fits := by decide +kernel

/-- What the condition says for the payload of two counts. -/
theorem twoCounts_truncation :
    (RejectsTruncation newHistogram twoCounts ↔ [3, 300] = ([] : List ℤ)) ∧
    (KeepsCounts newHistogram twoCounts ↔ ∀ v ∈ [(3 : ℤ), 300], v ≤ 0) :=
  truncation_iff (fun _ _ _ _ => rfl) twoCounts_valid

/-- Cut inside or before the second count, the payload has a total of 3 instead of 303. -/
theorem twoCounts_not_rejected : ValidPayload newHistogram twoCounts [3, 300] ∧
    twoCounts.length = 43 ∧
    (decode_v2 newHistogram twoCounts).map Prod.snd = .ok 303 ∧
    (decode_v2 newHistogram (twoCounts.take 42)).map Prod.snd = .ok 3 ∧
    (decode_v2 newHistogram (twoCounts.take 41)).map Prod.snd = .ok 3 ∧
    ¬ RejectsTruncation newHistogram twoCounts := by
  have hcut : (decode_v2 newHistogram (twoCounts.take 42)).map Prod.snd = .ok 3 := by decide +kernel
  refine ⟨twoCounts_valid, by decide +kernel, by decide +kernel, hcut, by decide +kernel,
    fun hrejects => ?_⟩
  obtain ⟨e, he⟩ := hrejects 42 (by norm_num) (by decide +kernel)
  rw [he] at hcut
  cases hcut

end RespBench.Hdr.Ruby
