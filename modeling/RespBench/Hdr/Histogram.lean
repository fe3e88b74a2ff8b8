import RespBench.Lib.Binary64
import RespBench.Lib.CheckedInt
import RespBench.Lib.Table

/-!
# HDR histograms

The histogram of the Go engine (`hdrhistogram.go`) and of the PHP engine (`HdrHistogram.php`).
The two are the same line by line, apart from `record` and `relevantLength`, which have a
definition for each engine.

Values are 64-bit integers, and a left shift drops the bits that leave the word; counts do not
overflow. The logarithms of the constructor are exact. A percentile is computed in doubles, whose
rounding is a parameter: `Binary64.round`, or `some` for exact arithmetic.
-/

namespace RespBench.Hdr
open RespBench.Lib
open RespBench.Lib.CheckedInt (shl)

inductive Engine where
  | go
  | php
deriving DecidableEq

/-! ## The layout of the counts -/

/-- What the constructor computes. -/
structure Layout where
  lowestTrackableValue : ℤ
  highestTrackableValue : ℤ
  significantFigures : ℕ
  subBucketHalfCountMagnitude : ℕ
  subBucketHalfCount : ℤ
  subBucketCount : ℤ
  subBucketMask : ℤ
  unitMagnitude : ℕ
  bucketCount : ℕ
  countsLen : ℤ
deriving DecidableEq

/-- The loop that counts the buckets needed; `none` when it has not ended. -/
def bucketsNeeded (highest : ℤ) : ℕ → ℤ → ℕ → Option ℕ
  | 0, _, _ => none
  | fuel + 1, smallestUntrackable, needed =>
    if smallestUntrackable < highest then
      if smallestUntrackable > (2 ^ 63 - 1) >>> (1 : ℕ) then some (needed + 1)
      else bucketsNeeded highest fuel (shl smallestUntrackable 1) (needed + 1)
    else some needed

/-- The constructor. -/
def Layout.new (fuel : ℕ) (lowest highest : ℤ) (sigFigs : ℕ) : Option Layout :=
  let largestValueWithSingleUnitResolution := 2 * 10 ^ sigFigs
  let subBucketCountMagnitude := max (Nat.clog 2 largestValueWithSingleUnitResolution) 1
  let subBucketHalfCountMagnitude := subBucketCountMagnitude - 1
  let unitMagnitude := Nat.log 2 lowest.toNat
  let subBucketCount := shl 1 (subBucketHalfCountMagnitude + 1)
  (bucketsNeeded highest fuel (shl subBucketCount unitMagnitude) 1).map fun bucketCount =>
    { lowestTrackableValue := lowest
      highestTrackableValue := highest
      significantFigures := sigFigs
      subBucketHalfCountMagnitude
      subBucketHalfCount := subBucketCount >>> (1 : ℕ)
      subBucketCount
      subBucketMask := shl (subBucketCount - 1) unitMagnitude
      unitMagnitude
      bucketCount
      countsLen := (bucketCount + 1) * subBucketCount >>> (1 : ℕ) }

/-- The loop of `bitLength`; 64 rounds are enough for a 64-bit integer. -/
def bitLengthLoop : ℕ → ℤ → ℕ → ℕ
  | 0, _, length => length
  | fuel + 1, value, length => if value > 0 then bitLengthLoop fuel (value >>> (1 : ℕ)) (length + 1)
      else length

/-- `bitLength`. -/
def bitLength (value : ℤ) : ℕ := bitLengthLoop 64 value 0

namespace Layout
variable (L : Layout)

/-- `bucketIndexFor`. -/
def bucketIndexFor (value : ℤ) : ℤ :=
  let pow2ceiling := bitLength (Int.lor value L.subBucketMask)
  pow2ceiling - L.unitMagnitude - (L.subBucketHalfCountMagnitude + 1)

/-- `subBucketIndexFor`. -/
def subBucketIndexFor (value bucketIndex : ℤ) : ℤ := value >>> (bucketIndex + L.unitMagnitude).toNat

/-- `countsIndex`. -/
def countsIndex (bucketIndex subBucketIndex : ℤ) : ℤ :=
  let bucketBaseIndex := shl (bucketIndex + 1) L.subBucketHalfCountMagnitude
  let offsetInBucket := subBucketIndex - L.subBucketHalfCount
  bucketBaseIndex + offsetInBucket

/-- `countsIndexFor`: the index of a value. -/
def countsIndexFor (value : ℤ) : ℤ :=
  let bucketIndex := L.bucketIndexFor value
  L.countsIndex bucketIndex (L.subBucketIndexFor value bucketIndex)

/-- `valueFromIndex`: the smallest value of an index. -/
def valueFromIndex (index : ℤ) : ℤ :=
  let bucketIndex := index >>> L.subBucketHalfCountMagnitude - 1
  let subBucketIndex := Int.land index (L.subBucketHalfCount - 1) + L.subBucketHalfCount
  if bucketIndex < 0 then shl (subBucketIndex - L.subBucketHalfCount) (0 + L.unitMagnitude)
  else shl subBucketIndex (bucketIndex + L.unitMagnitude).toNat

/-- `lowestEquivalentValue`. -/
def lowestEquivalentValue (value : ℤ) : ℤ :=
  let bucketIndex := L.bucketIndexFor value
  shl (L.subBucketIndexFor value bucketIndex) (bucketIndex + L.unitMagnitude).toNat

/-- `sizeOfEquivalentValueRange`. -/
def sizeOfEquivalentValueRange (value : ℤ) : ℤ :=
  shl 1 (L.unitMagnitude + L.bucketIndexFor value).toNat

/-- `nextNonEquivalentValue`. -/
def nextNonEquivalentValue (value : ℤ) : ℤ :=
  L.lowestEquivalentValue value + L.sizeOfEquivalentValueRange value

/-- `highestEquivalentValue`. -/
def highestEquivalentValue (value : ℤ) : ℤ := L.nextNonEquivalentValue value - 1

end Layout

/-! ## Histograms -/

/-- A histogram: its counts are sparse, from indices to counts. -/
structure HdrHistogram where
  layout : Layout
  counts : List (ℤ × ℤ)
  total : ℤ
  minValue : ℤ
  maxValue : ℤ
deriving DecidableEq

/-- A new histogram. -/
def HdrHistogram.empty (layout : Layout) : HdrHistogram := ⟨layout, [], 0, 2 ^ 63 - 1, 0⟩

/-- The layout of the histograms of all engines. -/
def defaultLayout : Layout := (Layout.new 64 1 600000000 3).get (by decide +kernel)

/-- `NewDefaultHdrHistogram`, `new HdrHistogram()`. -/
def newDefaultHdrHistogram : HdrHistogram := .empty defaultLayout

namespace HdrHistogram
variable (h : HdrHistogram)

/-- `rawCountAt`. -/
def rawCountAt (index : ℤ) : ℤ := Table.get 0 index h.counts

/-- `recordValueWithCount`. -/
def recordValueWithCount (value count : ℤ) : HdrHistogram :=
  if value < 0 ∨ count ≤ 0 then h
  else
    { h with
      counts := Table.modify 0 (h.layout.countsIndexFor value) (· + count) h.counts
      total := h.total + count
      maxValue := if value > h.maxValue then value else h.maxValue
      minValue := if value ≠ 0 ∧ value < h.minValue then value else h.minValue }

/-- One round of `merge`. -/
def mergeIndex (other : HdrHistogram) (h : HdrHistogram) (i : ℕ) : HdrHistogram :=
  if other.rawCountAt i > 0 then
    h.recordValueWithCount (other.layout.valueFromIndex i) (other.rawCountAt i)
  else h

/-- `merge`: records the counts of another histogram again, at the smallest value of each index. -/
def merge (other : HdrHistogram) : HdrHistogram :=
  (List.range other.layout.countsLen.toNat).foldl (mergeIndex other) h

/-- The count up to which the buckets are added up for a percentile. -/
def countAtPercentile (round : ℚ → Option ℚ) (p : ℚ) (total : ℤ) : Option ℤ := do
  let fraction ← round (p / 100)
  let samples ← round total
  let rank ← round (fraction * samples)
  return max ⌈rank⌉ 1

/-- The loop of `valueAtPercentile`. -/
def scan (countAt : ℤ) : List ℕ → ℤ → Option ℤ
  | [], _ => none
  | i :: rest, running =>
    if running + h.rawCountAt i ≥ countAt then
      some (h.layout.highestEquivalentValue (h.layout.valueFromIndex i))
    else scan countAt rest (running + h.rawCountAt i)

/-- `valueAtPercentile`; `none` when a double is infinite. -/
def valueAtPercentile (round : ℚ → Option ℚ) (p : ℚ) : Option ℤ :=
  if h.total = 0 then some 0
  else (countAtPercentile round (min (max p 0) 100) h.total).map fun countAt =>
    (h.scan countAt (List.range h.layout.countsLen.toNat) 0).getD h.maxValue

/-- `Min` in Go, `min` in PHP. -/
def min (round : ℚ → Option ℚ) : Option ℤ := if h.total = 0 then some 0
    else h.valueAtPercentile round 0

/-- `Max` in Go, `max` in PHP. -/
def max (round : ℚ → Option ℚ) : Option ℤ := if h.total = 0 then some 0
    else h.valueAtPercentile round 100

end HdrHistogram

/-! ## What differs between the engines -/

/-- `Record` in Go. -/
def Go.record (h : HdrHistogram) (value : ℤ) : HdrHistogram := h.recordValueWithCount value 1

/-- `record` in PHP. -/
def Php.record (h : HdrHistogram) (value : ℤ) : HdrHistogram :=
  if value < 0 then h
  else
    { h with
      counts := Table.modify 0 (h.layout.countsIndexFor value) (· + 1) h.counts
      total := h.total + 1
      maxValue := if value > h.maxValue then value else h.maxValue
      minValue := if value ≠ 0 ∧ value < h.minValue then value else h.minValue }

def Engine.record : Engine → HdrHistogram → ℤ → HdrHistogram
  | .go => Go.record
  | .php => Php.record

/-- `RelevantLength` in Go: it looks for the largest index whose count is not zero. -/
def Go.relevantLength (h : HdrHistogram) : ℤ :=
  (Table.keys h.counts).foldl (fun maxIdx idx => if h.rawCountAt idx ≠ 0 ∧
    idx > maxIdx then idx else maxIdx)
    (-1) + 1

/-- `relevantLength` in PHP: it takes the largest key. -/
def Php.relevantLength (h : HdrHistogram) : ℤ :=
  match Table.keys h.counts with
  | [] => 0
  | idx :: rest => rest.foldl max idx + 1

def Engine.relevantLength : Engine → HdrHistogram → ℤ
  | .go => Go.relevantLength
  | .php => Php.relevantLength

end RespBench.Hdr
