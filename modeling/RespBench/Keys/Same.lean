import RespBench.Keys.Engines

/-!
# Keyspaces with the same keys in every engine

The engines draw the same random numbers from the same seed, so their keys differ through the
seeds, the prefixes and the widths. `sameKeys_iff` says for which keyspaces they agree. One
direction compares the three ingredients; for the other, a stream comes past the index 0, whose
key shows the width, and two connections are enough to tell the streams of the two default seeds
apart, whatever the bound.
-/

namespace RespBench.Keys
open RespBench.Lib RespBench.Lib.Text RespBench.Lib.Runs
open RespBench.Random (Fault Bound Port stream scramble lcg top31 Accepts IsPow2)

/-! ## The random numbers of a connection -/

/-- From a state that a port represents, an engine formats the values of the stream. -/
lemma Engine.nextKeys_eq (e : Engine) {rep : ℕ → e.port.State} (ref : e.port.Refines rep)
    {c : KeyspaceConfig} (hindex : ∀ v : ℕ, v < c.keysCount.1 → e.keyIndex c v = v) (n extra : ℕ)
    {s : ℕ} (hs : s < 2 ^ 48) :
    e.nextKeys (2 ^ 48 + extra) c n (rep s)
      = .ok ((List.range n).map fun j => e.formatKey c (stream c.keysCount s j)) := by
  induction n generalizing s with
  | zero => rfl
  | succ n ih =>
    have hdraw := Random.draw_eq_next c.keysCount s extra
    have hlt := Random.next_lt c.keysCount s
    have hnext : (Random.next c.keysCount s).2 < 2 ^ 48 := Random.draw_lt hdraw
    rw [nextKeys, nextKey, ref.nextInt_eq _ _ s hs, hdraw]
    simp only [Except.map, ok_bind, hindex _ hlt, Int.toNat_natCast, pure, Except.pure]
    rw [ih hnext, ok_bind, List.range_succ_eq_map, List.map_cons, List.map_map]
    rfl

/-- A connection whose generator starts in such a state draws the values of the stream. -/
lemma Engine.firstKeys_eq (e : Engine) {rep : ℕ → e.port.State} (ref : e.port.Refines rep)
    {c : KeyspaceConfig} {connection s : ℕ} (hs : s < 2 ^ 48)
    (hnew : e.newRandom c connection = .ok (rep s))
    (hindex : ∀ v : ℕ, v < c.keysCount.1 → e.keyIndex c v = v) (n extra : ℕ) :
    e.firstKeys (2 ^ 48 + extra) c connection n
      = .ok ((List.range n).map fun j => e.formatKey c (stream c.keysCount s j)) := by
  rw [firstKeys, hnew, ok_bind, e.nextKeys_eq ref hindex n extra hs]

/-- The state in which the generator of a connection starts. -/
def start (seed : BitVec 64) (connection : ℕ) : ℕ := scramble (seed + BitVec.ofNat 64 connection)

/-- A start is a state of the generator. -/
lemma start_lt (seed : BitVec 64) (connection : ℕ) : start seed connection < 2 ^ 48 :=
  Random.scramble_lt _

/-- The start of a connection is its scrambled seed. -/
lemma start_eq (seed : BitVec 64) (connection : ℕ) :
    start seed connection = scramble (BitVec.ofInt 64 (seed.toInt + connection)) := by
  rw [BitVec.ofInt_add, BitVec.ofInt_toInt]
  rfl

section Connection
variable (c : KeyspaceConfig) (connection n extra : ℕ)

/-- The first keys of the Java engine. -/
lemma java_firstKeys :
    java.firstKeys (2 ^ 48 + extra) c connection n = .ok ((List.range n).map fun j =>
      Java.formatKey c (stream c.keysCount (start (c.seed.getD 0#64) connection) j)) :=
  java.firstKeys_eq Random.javaPort_refines (start_lt _ _)
    (congrArg Except.ok (Random.javaPort_refines.new_eq _)) (fun _ _ => rfl) n extra

/-- The first keys of the Go engine. -/
lemma go_firstKeys :
    go.firstKeys (2 ^ 48 + extra) c connection n = .ok ((List.range n).map fun j =>
      Go.formatKey c (stream c.keysCount (start (c.seed.getD 12345#64) connection) j)) :=
  go.firstKeys_eq Random.goPort_refines (start_lt _ _)
    (congrArg Except.ok (Random.goPort_refines.new_eq _)) (fun _ _ => rfl) n extra

/-- The first keys of the Python engine. -/
lemma python_firstKeys :
    python.firstKeys (2 ^ 48 + extra) c connection n = .ok ((List.range n).map fun j =>
      Python.format_key c (stream c.keysCount (start (c.seed.getD 0#64) connection) j)) := by
  have hnew : Python.newRandom c connection = Random.pythonRep
    (start (c.seed.getD 0#64) connection) := by
    rw [start_eq]
    exact congrArg Random.Python.JavaRandom.mk (Random.int_scramble_ofInt _)
  exact python.firstKeys_eq Random.pythonPort_refines (start_lt _ _)
    (congrArg Except.ok hnew) (fun v hv => Int.emod_eq_of_lt (by omega) (by omega)) n extra

variable {c connection}

/-- PHP draws the same numbers as long as the sum of seed and index is an integer. -/
lemma php_firstKeys (hsum : (c.seed.getD 0#64).toInt + connection < 2 ^ 63) :
    php.firstKeys (2 ^ 48 + extra) c connection n = .ok ((List.range n).map fun j =>
      Php.formatKey c (stream c.keysCount (start (c.seed.getD 0#64) connection) j)) := by
  have hrange := (c.seed.getD 0#64).le_toInt
  have hnew : Php.newRandom c connection = .ok
    (Random.phpRep (start (c.seed.getD 0#64) connection)) := by
    rw [Php.newRandom, Php.seedValue, CheckedInt.add,
      CheckedInt.check_eq ⟨by omega, hsum⟩, start_eq]
    exact congrArg Except.ok (congrArg Random.Php.JavaRandom.mk (Random.int_scramble_ofInt _))
  refine php.firstKeys_eq Random.phpPort_refines (start_lt _ _) hnew (fun v hv => ?_) n extra
  have hmod : (v : ℤ).tmod (c.keysCount.1 : ℤ) = v := Int.tmod_eq_of_lt (by omega) (by omega)
  exact hmod

/-- Otherwise the constructor of its generator fails. -/
lemma php_firstKeys_overflow (hsum : ¬ (c.seed.getD 0#64).toInt + connection < 2 ^ 63) (fuel : ℕ) :
    php.firstKeys fuel c connection n = .error .overflow := by
  have hnew : php.newRandom c connection = .error .overflow := by
    change Php.newRandom c connection = _
    rw [Php.newRandom, Php.seedValue, CheckedInt.add, CheckedInt.check, if_neg (fun h => hsum h.2)]
    rfl
  rw [Engine.firstKeys, hnew]
  rfl

end Connection

/-! ## The default seeds -/

/-- Small bits are accepted at once. -/
lemma stream_zero_of_lt_half {b : Bound} (hb : ¬ IsPow2 b.1) {s : ℕ} (h : top31 (lcg s) < 2 ^ 30) :
    stream b s 0 = top31 (lcg s) % b.1 := by
  rw [stream, Random.next_of_accepts hb (Random.accepts_of_lt_half b.2.2 h)]

/-- The first draw from a state such that the next one but one has its top bits in the lower
half. -/
lemma stream_zero_of_second {b : Bound} (hb : ¬ IsPow2 b.1) {s : ℕ}
    (h : top31 (lcg (lcg s)) < 2 ^ 30) :
    stream b s 0 = top31 (lcg s) % b.1 ∨ stream b s 0 = top31 (lcg (lcg s)) % b.1 := by
  by_cases hacc : Accepts b.1 (top31 (lcg s))
  · left
    rw [stream, Random.next_of_accepts hb hacc]
  · right
    rw [Random.stream_congr (Random.next_of_not_accepts hb hacc), stream_zero_of_lt_half hb h]

/-- With a bound that is no power of two, equal first draws of two streams make it divide a
difference. -/
lemma dvd_of_stream_zero_eq {b : Bound} (hb : ¬ IsPow2 b.1) {s t u v w : ℕ} (hu : top31 (lcg s) = u)
    (hv : top31 (lcg (lcg s)) = v) (hw : top31 (lcg t) = w) (hvlt : v < 2 ^ 30) (hwlt : w < 2 ^ 30)
    (h : stream b s 0 = stream b t 0) : (b.1 : ℤ) ∣ u - w ∨ (b.1 : ℤ) ∣ v - w := by
  subst hu hv hw
  rw [stream_zero_of_lt_half hb hwlt] at h
  rcases stream_zero_of_second hb hvlt with h' | h'
  · left
    exact Nat.modEq_iff_dvd.mp (h.symm.trans h')
  · right
    exact Nat.modEq_iff_dvd.mp (h.symm.trans h')

/-- The streams of the seeds 0 and 12345 differ on connection 1 or on connection 12, unless
there is only one key. -/
lemma default_streams_ne {b : Bound} (hb : b.1 ≠ 1)
    (h1 : stream b (start 0#64 1) 0 = stream b (start 12345#64 1) 0)
    (h12 : stream b (start 0#64 12) 0 = stream b (start 12345#64 12) 0) : False := by
  have hpos := b.2.1
  by_cases hpow : IsPow2 b.1
  · -- the top bits differ by more than `2 ^ 29`
    rw [stream, stream, Random.next_of_isPow2 hpow, Random.next_of_isPow2 hpow,
      show top31 (lcg (start 0#64 1)) = 1569548985 from rfl,
      show top31 (lcg (start 12345#64 1)) = 777543374 from rfl] at h1
    have hle : b.1 ≤ 2 := by omega
    have htwo : b.1 = 2 := by omega
    rw [htwo] at h1
    exact absurd h1 (by decide)
  · have hdvd1 :=
      dvd_of_stream_zero_eq hpow (u := 1569548985) (v := 215764588) (w := 777543374) rfl rfl rfl
      (by norm_num) (by norm_num) h1
    have hdvd12 :=
      dvd_of_stream_zero_eq hpow (u := 1567432866) (v := 128478812) (w := 768501775) rfl rfl rfl
      (by norm_num) (by norm_num) h12
    rcases hdvd1 with h1 | h1 <;> rcases hdvd12 with h12 | h12 <;>
      exact hb (Random.eq_one_of_dvd h1 h12 (by decide))

/-! ## Prefixes and widths -/

/-- The numbers after the prefix `p` are padded to the same width, which Go does not refuse. Java
counts the units of UTF-16 of the prefix, Go and PHP its bytes, and Python its code points; an
absent size is 0 in Go and 16 in the others. -/
def SameWidth (c : KeyspaceConfig) (p : List Char) : Prop :=
  match c.keySizeBytes with
  | some size => ((utf8 p).length = p.length ∨ size.1 ≤ p.length + 1) ∧
      size.1 ≤ (utf8 p).length + 1000000
  | none => 15 ≤ p.length

/-- The random numbers of every connection are the same. An absent seed is 12345 in Go
and 0 in the others, which makes no difference to a single key; the seed of PHP's last
worker must be an integer. -/
def SameSeed (c : KeyspaceConfig) : Prop :=
  match c.seed with
  | some seed => seed.toInt + 255 < 2 ^ 63
  | none => c.keysCount.1 = 1

/-- What makes the engines agree on a keyspace. The prefix must be there: a missing or empty one has
other defaults in other engines. -/
def Agrees (c : KeyspaceConfig) : Prop :=
  (∃ p, c.keyPrefix = some p ∧ p ≠ [] ∧ SameWidth c p) ∧
    (c.generationAlg = .uniform_rand → SameSeed c)

/-- The widths of Java, Go and Python, and of PHP. -/
def javaWidth (c : KeyspaceConfig) (p : List Char) : ℕ :=
  max 1 (Java.getKeySizeBytes c - utf16Length p)
def goWidth (c : KeyspaceConfig) (p : List Char) : ℕ := max 1 (Go.KeySizeBytes c - (utf8 p).length)
def pythonWidth (c : KeyspaceConfig) (p : List Char) : ℕ :=
  max 1 (Python.key_size_bytes c - p.length)
def phpWidth (c : KeyspaceConfig) (p : List Char) : ℕ :=
  max 1 (Php.keySizeBytes c - (utf8 p).length)

/-- The widths agree when each is that of Go. -/
lemma sameWidth_iff (c : KeyspaceConfig) (p : List Char) :
    SameWidth c p ↔ goWidth c p ≤ 1000000 ∧ javaWidth c p = goWidth c p ∧
    pythonWidth c p = goWidth c p := by
  have hlen := lengths p
  unfold SameWidth javaWidth goWidth pythonWidth Java.getKeySizeBytes Go.KeySizeBytes
    Python.key_size_bytes
  cases c.keySizeBytes with
  | none =>
    simp only [Option.elim]
    omega
  | some size =>
    simp only [Option.elim]
    omega

/-- The width of PHP is that of Go then. -/
lemma phpWidth_eq {c : KeyspaceConfig} {p : List Char} (h : SameWidth c p) :
    phpWidth c p = goWidth c p := by
  have hlen := lengths p
  unfold SameWidth at h
  unfold phpWidth goWidth Php.keySizeBytes Go.KeySizeBytes
  cases hsize : c.keySizeBytes with
  | none =>
    rw [hsize] at h
    simp only [Option.elim]
    simp only at h
    omega
  | some size => rfl

section Format
variable {c : KeyspaceConfig} {p : List Char}

/-- A prefix that is not empty has bytes. -/
lemma utf8_ne_nil (hp : p ≠ []) : utf8 p ≠ [] := fun h => hp (utf8_injective (t := []) h)

/-- The key of an index in Java. -/
lemma java_formatKey (hsome : c.keyPrefix = some p) (n : ℕ) :
    Java.formatKey c n = utf8 p ++ utf8 (pad (javaWidth c p) n) := by
  simp only [Java.formatKey, Java.getEffectiveKeyPrefix, hsome, Option.getD_some, utf8_append]
  rfl

/-- The key of an index in Python. -/
lemma python_formatKey (hsome : c.keyPrefix = some p) (n : ℕ) :
    Python.format_key c n = utf8 p ++ utf8 (pad (pythonWidth c p) n) := by
  simp only [Python.format_key, Python.effective_key_prefix, hsome, Option.getD_some,
    utf8_append, pythonWidth, max_comm]

/-- The key of an index in Go. -/
lemma go_formatKey (hsome : c.keyPrefix = some p) (hp : p ≠ []) (n : ℕ) :
    Go.formatKey c n = utf8 p ++ utf8 (Go.sprintf (goWidth c p) n) := by
  have hwidth : ∀ w : ℕ, (if w < 1 then 1 else w) = max 1 w := by
    intro w
    split <;> omega
  simp only [Go.formatKey, Go.EffectiveKeyPrefix, hsome, Option.getD_some,
    if_neg (utf8_ne_nil hp), hwidth]
  rfl

/-- The key of an index in PHP. -/
lemma php_formatKey (hsome : c.keyPrefix = some p) (hp : p ≠ []) (n : ℕ) :
    Php.formatKey c n = utf8 p ++ utf8 (pad (phpWidth c p) n) := by
  simp only [Php.formatKey, Php.effectiveKeyPrefix, hsome, Option.getD_some,
    if_neg (utf8_ne_nil hp), phpWidth, max_comm]

/-- Engines with the same width write the same key. -/
lemma formatKey_eq (hsome : c.keyPrefix = some p) (hp : p ≠ []) (h : SameWidth c p) (n : ℕ) :
    ∀ e ∈ engines, e.formatKey c n = utf8 p ++ utf8 (pad (goWidth c p) n) := by
  obtain ⟨hgo, hjava, hpython⟩ := (sameWidth_iff c p).mp h
  intro e he
  simp only [engines, List.mem_cons, List.not_mem_nil, or_false] at he
  rcases he with rfl | rfl | rfl | rfl
  · rw [← hjava]
    exact java_formatKey hsome n
  · have hformat := go_formatKey hsome hp n
    rw [Go.sprintf, if_neg (by omega)] at hformat
    exact hformat
  · rw [← phpWidth_eq h]
    exact php_formatKey hsome hp n
  · rw [← hpython]
    exact python_formatKey hsome n

/-- A key of Java and a key of Go that are the same have the same prefix, which is not empty. -/
lemma exists_prefix {x y : ℕ} (h : Java.formatKey c x = Go.formatKey c y) :
    ∃ p, c.keyPrefix = some p ∧ p ≠ [] := by
  by_contra hno
  have hempty : c.keyPrefix.getD [] = [] := by
    cases hsome : c.keyPrefix with
    | none => rfl
    | some p =>
      by_contra hp
      exact hno ⟨p, hsome, hp⟩
  -- Go's default prefix is not a number
  simp only [Java.formatKey, Java.getEffectiveKeyPrefix, Go.formatKey, Go.EffectiveKeyPrefix,
    hempty, utf8_nil, if_true, List.nil_append, ← utf8_append] at h
  obtain ⟨ch, s, hpad, hdigit⟩ := pad_head (max 1 (Java.getKeySizeBytes c - utf16Length [])) x
  have htext := utf8_injective h
  rw [hpad] at htext
  rw [(List.cons.inj htext).1] at hdigit
  exact absurd hdigit (by decide)

/-- A key of Java and a key of Go that are the same are for the same index. For the index 0 the
widths are the same, and Go does not refuse them. -/
lemma formatKey_inj (hsome : c.keyPrefix = some p) (hp : p ≠ []) {x y : ℕ}
    (h : Java.formatKey c x = Go.formatKey c y) :
    x = y ∧ goWidth c p ≤ 1000000 ∧ (x = 0 → javaWidth c p = goWidth c p) := by
  rw [java_formatKey hsome, go_formatKey hsome hp, List.append_cancel_left_eq] at h
  have htext := utf8_injective h
  have hle : goWidth c p ≤ 1000000 := by
    by_contra hlt
    obtain ⟨ch, s, hpad, hdigit⟩ := pad_head (javaWidth c p) x
    rw [Go.sprintf, if_pos (by omega), hpad] at htext
    rw [(List.cons.inj htext).1] at hdigit
    exact absurd hdigit (by decide)
  rw [Go.sprintf, if_neg (by omega)] at htext
  obtain rfl := pad_injective htext
  refine ⟨rfl, hle, ?_⟩
  rintro rfl
  exact pad_zero_injective (le_max_left _ _) (le_max_left _ _) htext

/-- The same key of the index 0 in Java, Go and Python makes the widths the same. -/
lemma sameWidth_of_formatKey {y z : ℕ} (hgo : Java.formatKey c 0 = Go.formatKey c y)
    (hpython : Java.formatKey c 0 = Python.format_key c z) (hz : z = 0) :
    ∃ p, c.keyPrefix = some p ∧ p ≠ [] ∧ SameWidth c p := by
  subst hz
  obtain ⟨p, hsome, hp⟩ := exists_prefix hgo
  obtain ⟨-, hle, hjava⟩ := formatKey_inj hsome hp hgo
  refine ⟨p, hsome, hp, (sameWidth_iff c p).mpr ⟨hle, hjava rfl, ?_⟩⟩
  rw [java_formatKey hsome, python_formatKey hsome, List.append_cancel_left_eq] at hpython
  rw [← hjava rfl]
  exact (pad_zero_injective (le_max_left _ _) (le_max_left _ _) (utf8_injective hpython)).symm

end Format

/-! ## The same keys -/

variable {c : KeyspaceConfig}

/-- The conditions are enough. -/
lemma Agrees.sameKeys (h : Agrees c) : SameKeys c := by
  obtain ⟨⟨p, hsome, hp, hwidth⟩, hseed⟩ := h
  have hformat := formatKey_eq hsome hp hwidth
  unfold SameKeys
  cases halg : c.generationAlg with
  | sequential_int => exact fun index => ⟨_, hformat (index % c.keysCount.1)⟩
  | uniform_rand =>
    have hsame := hseed halg
    unfold SameSeed at hsame
    have hgo : ∀ connection j, stream c.keysCount (start (c.seed.getD 12345#64) connection) j
        = stream c.keysCount (start (c.seed.getD 0#64) connection) j := by
      intro connection j
      cases hs : c.seed with
      | some seed => rfl
      | none =>
        rw [hs] at hsame
        have h1 := Random.stream_lt c.keysCount (start (Option.getD none 12345#64) connection) j
        have h2 := Random.stream_lt c.keysCount (start (Option.getD none 0#64) connection) j
        simp only at hsame
        omega
    intro connection n
    refine ⟨(List.range n).map fun j => utf8 p ++ utf8 (pad (goWidth c p)
      (stream c.keysCount (start (c.seed.getD 0#64) connection) j)), fun e he hhas extra => ?_⟩
    simp only [← hformat _ e he]
    simp only [engines, List.mem_cons, List.not_mem_nil, or_false] at he
    rcases he with rfl | rfl | rfl | rfl
    · exact java_firstKeys c connection n extra
    · rw [go_firstKeys]
      simp only [hgo]
      rfl
    · refine php_firstKeys n extra ?_
      have hlt : (connection : ℤ) < 256 := by simpa [php, RespBench.Php.MAX_WORKERS] using hhas
      cases hs : c.seed with
      | some seed =>
        rw [hs] at hsame
        simp only [Option.getD_some] at hsame ⊢
        omega
      | none =>
        simp only [Option.getD_none, BitVec.toInt_zero]
        omega
    · exact python_firstKeys c connection n extra

/-- The keys of every connection are the same in Java, Go and Python, and PHP can start its
workers. -/
lemma SameKeys.uniform (h : SameKeys c) (halg : c.generationAlg = .uniform_rand)
    (connection n : ℕ) :
    Java.formatKey c (stream c.keysCount (start (c.seed.getD 0#64) connection) n)
        = Go.formatKey c (stream c.keysCount (start (c.seed.getD 12345#64) connection) n) ∧
      Java.formatKey c (stream c.keysCount (start (c.seed.getD 0#64) connection) n)
        = Python.format_key c (stream c.keysCount (start (c.seed.getD 0#64) connection) n) ∧
      (connection < 256 → (c.seed.getD 0#64).toInt + connection < 2 ^ 63) := by
  rw [SameKeys, halg] at h
  obtain ⟨keys, hkeys⟩ := h connection (n + 1)
  have hjava := hkeys java (by simp [engines]) rfl 0
  have hgo := hkeys go (by simp [engines]) rfl 0
  have hpython := hkeys python (by simp [engines]) rfl 0
  rw [java_firstKeys] at hjava
  rw [go_firstKeys, ← hjava] at hgo
  rw [python_firstKeys, ← hjava] at hpython
  have hmem : n ∈ List.range (n + 1) := List.mem_range.mpr n.lt_succ_self
  refine ⟨(List.map_inj_left.mp (Except.ok.inj hgo) n hmem).symm,
    (List.map_inj_left.mp (Except.ok.inj hpython) n hmem).symm, fun hlt => ?_⟩
  by_contra hsum
  have hphp := hkeys php (by simp [engines]) (by simp [php, RespBench.Php.MAX_WORKERS, hlt]) 0
  rw [php_firstKeys_overflow _ hsum] at hphp
  cases hphp

/-- The same keys have the same width. -/
lemma SameKeys.sameWidth (h : SameKeys c) : ∃ p, c.keyPrefix = some p ∧ p ≠ [] ∧ SameWidth c p := by
  cases halg : c.generationAlg with
  | sequential_int =>
    rw [SameKeys, halg] at h
    obtain ⟨key, hkey⟩ := h 0
    have hjava := hkey java (by simp [engines])
    have hgo := hkey go (by simp [engines])
    have hpython := hkey python (by simp [engines])
    rw [Engine.sequentialKey, Nat.zero_mod] at hjava hgo hpython
    exact sameWidth_of_formatKey (hjava.trans hgo.symm) (hjava.trans hpython.symm) rfl
  | uniform_rand =>
    obtain ⟨n, hn⟩ := Random.exists_stream_eq_zero c.keysCount (start (c.seed.getD 0#64) 0)
    obtain ⟨hgo, hpython, -⟩ := h.uniform halg 0 n
    rw [hn] at hgo hpython
    exact sameWidth_of_formatKey hgo hpython rfl

/-- The same random keys come from the same seed. -/
lemma SameKeys.sameSeed (h : SameKeys c) (halg : c.generationAlg = .uniform_rand) : SameSeed c := by
  obtain ⟨p, hsome, hp, -⟩ := h.sameWidth
  unfold SameSeed
  cases hseed : c.seed with
  | some seed =>
    have hsum := (h.uniform halg 255 0).2.2 (by norm_num)
    rw [hseed] at hsum
    exact hsum
  | none =>
    have hstream : ∀ connection, stream c.keysCount (start 0#64 connection) 0
        = stream c.keysCount (start 12345#64 connection) 0 := by
      intro connection
      have hgo := (h.uniform halg connection 0).1
      rw [hseed] at hgo
      exact (formatKey_inj hsome hp hgo).1
    by_contra hone
    exact default_streams_ne hone (hstream 1) (hstream 12)

/-- The engines have the same keys exactly for the keyspaces with a prefix that is not empty, a
width that comes out the same for all ways to count the prefix, and, with random keys, a seed that
is given (or only one key). -/
theorem sameKeys_iff (c : KeyspaceConfig) : SameKeys c ↔ Agrees c :=
  ⟨fun h => ⟨h.sameWidth, h.sameSeed⟩, Agrees.sameKeys⟩

/-- A thousand random keys, with all optional fields left out. -/
def defaultKeyspace : KeyspaceConfig := ⟨none, ⟨1000, by norm_num⟩, none, none, .uniform_rand⟩

/-- Already the first key of Java and that of Go differ. -/
theorem defaultKeyspace_not_sameKeys : ¬ SameKeys defaultKeyspace := by
  intro h
  obtain ⟨p, hsome, -⟩ := h.sameWidth
  cases hsome

end RespBench.Keys
