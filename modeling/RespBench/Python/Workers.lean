import RespBench.Lib.Text
import RespBench.Random.Ports

/-!
# Keys of a Python worker

The loop of `worker` in `_run_workload`, as far as its keys go: in every round it selects a command,
draws the next key of its generator and executes the command with it, a PING as well. The Node
engine asks the command first (`issue`), and so do the Java and Rust engines.

`receives_iff` says when the commands that need a key receive the keys of the
generator in their order.
-/

namespace RespBench.Python
open RespBench.Lib.Text
open RespBench.Random (Fault)

/-! ## The generator -/

inductive GenerationAlg where
  | sequential_int
  | uniform_rand
deriving DecidableEq

/-- A keyspace. `validate` rejects any other name of an algorithm. -/
structure KeyspaceConfig where
  keys_count : ℤ
  key_size_bytes : ℤ
  key_prefix : List Char
  generation_alg : GenerationAlg
  seed : Option ℤ

def KeyspaceConfig.is_sequential_int (c : KeyspaceConfig) : Bool :=
  c.generation_alg = .sequential_int
def KeyspaceConfig.seed_value (c : KeyspaceConfig) : ℤ := c.seed.getD 0

/-- `validate` does not raise. -/
def KeyspaceConfig.Valid (c : KeyspaceConfig) : Prop := 1 ≤ c.keys_count ∧ 1 ≤ c.key_size_bytes

/-- The random numbers of a keyspace have a bound below `2 ^ 31`, if it needs any. -/
def KeyspaceConfig.Narrow (c : KeyspaceConfig) : Prop :=
  c.generation_alg = .uniform_rand → c.keys_count < 2 ^ 31

structure KeyGenerator where
  config : KeyspaceConfig
  sequential_counter : ℕ
  random : Random.Python.JavaRandom

/-- The generator of a worker that has the counter to itself. -/
def KeyGenerator.create_with_seed (c : KeyspaceConfig) (seed : ℤ) : KeyGenerator :=
  ⟨c, 0, .new seed⟩

/-- A negative index does not occur. -/
def format_key (c : KeyspaceConfig) (key_index : ℤ) : List Char :=
  let padding_width := max (c.key_size_bytes - c.key_prefix.length) 1
  c.key_prefix ++ pad padding_width.toNat key_index.toNat

def KeyGenerator.next_key (fuel : ℕ) (g : KeyGenerator) : Except Fault (List Char × KeyGenerator) :=
  if g.config.is_sequential_int then
    let key_index := (g.sequential_counter : ℤ) % g.config.keys_count
    .ok (format_key g.config key_index, { g with sequential_counter := g.sequential_counter + 1 })
  else do
    let (key_index, random) ← g.random.next_int fuel g.config.keys_count
    let key_index := key_index % g.config.keys_count
    return (format_key g.config key_index, { g with random := random })

/-- The `j`-th key of a generator, if the draws return. -/
def KeyGenerator.key (fuel : ℕ) : KeyGenerator → ℕ → Option (List Char)
  | g, 0 => (g.next_key fuel).toOption.map Prod.fst
  | g, j + 1 => (g.next_key fuel).toOption.bind fun r => r.2.key fuel j

/-! ## The worker -/

inductive Command where
  | ping
  | get
  | set
deriving DecidableEq

/-- `execute` uses the key. -/
def Command.usesKey : Command → Bool
  | .ping => false
  | .get => true
  | .set => true

/-- The commands that a worker executes, each with the key that it is given, when these are
selected. -/
def worker (fuel : ℕ) : List Command → KeyGenerator → List (Command × List Char)
  | [], _ => []
  | command :: selected, g =>
    match g.next_key fuel with
    | .error _ => []
    | .ok (key, g') => (command, key) :: worker fuel selected g'

/-- The loop of Node, over the same generator: `command.usesKey ? keyGen.nextKey() : ''`. -/
def issueAll (fuel : ℕ) : List Command → KeyGenerator → List (Command × List Char)
  | [], _ => []
  | command :: selected, g =>
    if command.usesKey then
      match g.next_key fuel with
      | .error _ => []
      | .ok (key, g') => (command, key) :: issueAll fuel selected g'
    else (command, []) :: issueAll fuel selected g

/-- The keys of the executed commands that use theirs. -/
def usedKeys (executed : List (Command × List Char)) : List (List Char) :=
  (executed.filter fun r => r.1.usesKey).map Prod.snd

/-- The commands that use their keys receive those of the generator, in its order. -/
def Receives (fuel : ℕ) (g : KeyGenerator) (executed : List (Command × List Char)) : Prop :=
  ∀ j key, (usedKeys executed)[j]? = some key → g.key fuel j = some key

/-- The number of commands without a key that are selected before a position. -/
def pingsBefore (selected : List Command) (i : ℕ) : ℕ :=
  (selected.take i).countP fun c => !c.usesKey

/-- No command that uses its key is selected after one that does not. -/
def PingsLast (selected : List Command) : Prop :=
  ∀ i command, selected[i]? = some command → command.usesKey → pingsBefore selected i = 0

/-! ## What the commands receive -/

variable {fuel : ℕ} {g g' : KeyGenerator} {key : List Char}

/-- The next key is the first one. -/
lemma key_zero (h : g.next_key fuel = .ok (key, g')) : g.key fuel 0 = some key := by
  rw [KeyGenerator.key, h]
  rfl

/-- The later keys are those of the generator that is left. -/
lemma key_succ (h : g.next_key fuel = .ok (key, g')) (j : ℕ) :
    g.key fuel (j + 1) = g'.key fuel j := by
  rw [KeyGenerator.key, h]
  rfl

/-- A generator that fails has no keys. -/
lemma key_of_error {fault : Fault} (h : g.next_key fuel = .error fault) (j : ℕ) :
    g.key fuel j = none := by
  cases j <;> rw [KeyGenerator.key, h] <;> rfl

/-- The key of the first command counts if the command uses it. -/
lemma usedKeys_cons (command : Command) (key : List Char) (executed : List (Command × List Char)) :
    usedKeys ((command, key) :: executed)
      = if command.usesKey then key :: usedKeys executed else usedKeys executed := by
  cases huses : command.usesKey <;> simp [usedKeys, huses]

/-- The pings before a position, after one more command. -/
lemma pingsBefore_succ (command : Command) (selected : List Command) (i : ℕ) :
    pingsBefore (command :: selected) (i + 1) = pingsBefore selected i + if command.usesKey
      then 0 else 1 := by
  cases huses : command.usesKey <;> simp [pingsBefore, huses]

/-- No more pings come before a position than there are places before it. -/
lemma pingsBefore_le (selected : List Command) (i : ℕ) : pingsBefore selected i ≤ i :=
  List.countP_le_length.trans (List.length_take_le i selected)

/-- The command at a position uses its key, it is the `j`-th one that does, and this key
belongs to the position. -/
def KeyAt (fuel : ℕ) (g : KeyGenerator) (selected : List Command) (j : ℕ) (key : List Char)
    (i : ℕ) : Prop :=
  ∃ command, selected[i]? = some command ∧ command.usesKey ∧ i = j + pingsBefore selected i ∧
    g.key fuel i = some key

section First
variable {command : Command} {selected : List Command} {key₀ : List Char}

/-- At the first position stands the first command, with the first key. -/
lemma keyAt_zero_iff (hnext : g.next_key fuel = .ok (key₀, g')) {j : ℕ} :
    KeyAt fuel g (command :: selected) j key 0 ↔ command.usesKey ∧ j = 0 ∧ key₀ = key := by
  unfold KeyAt
  rw [key_zero hnext]
  constructor
  · rintro ⟨_, hsel, huses, hposition, hkey⟩
    cases hsel
    exact ⟨huses, by omega, Option.some.inj hkey⟩
  · rintro ⟨huses, rfl, rfl⟩
    exact ⟨command, rfl, huses, rfl, rfl⟩

/-- The first command moves the others by one position, and by one key if it uses its own. -/
lemma keyAt_succ_iff (hnext : g.next_key fuel = .ok (key₀, g')) {j j' : ℕ}
    (hj : j' + (if command.usesKey then 0 else 1) = j + 1) (i : ℕ) :
    KeyAt fuel g (command :: selected) j' key (i + 1) ↔ KeyAt fuel g' selected j key i := by
  unfold KeyAt
  have hposition : i + 1 = j' + (pingsBefore selected i + if command.usesKey then 0 else 1)
      ↔ i = j + pingsBefore selected i := by omega
  rw [List.getElem?_cons_succ, pingsBefore_succ, key_succ hnext, hposition]

/-- No later command is the first one that uses its key, if the first one does. -/
lemma not_keyAt_succ (huses : command.usesKey) (i : ℕ) :
    ¬ KeyAt fuel g (command :: selected) 0 key (i + 1) := by
  rintro ⟨_, -, -, hposition, -⟩
  have hle := pingsBefore_le selected i
  rw [pingsBefore_succ, if_pos huses] at hposition
  omega

end First

/-- A command that uses its key receives the key of its position among all commands, as the key of
its position among those that use theirs. -/
lemma usedKeys_worker (selected : List Command) (g : KeyGenerator) (j : ℕ) (key : List Char) :
    (usedKeys (worker fuel selected g))[j]? = some key ↔ ∃ i, KeyAt fuel g selected j key i := by
  induction selected generalizing g j with
  | nil => simp [worker, usedKeys, KeyAt]
  | cons command selected ih =>
    rw [worker]
    cases hnext : g.next_key fuel with
    | error fault => simp [usedKeys, KeyAt, key_of_error hnext]
    | ok r =>
      obtain ⟨key₀, g'⟩ := r
      dsimp only
      rw [usedKeys_cons, ← Nat.or_exists_add_one, keyAt_zero_iff hnext]
      cases huses : command.usesKey with
      | true =>
        cases j with
        | zero => simp [not_keyAt_succ huses]
        | succ j =>
          have hlater : ∀ i, KeyAt fuel g (command :: selected) (j + 1) key (i + 1) ↔
            KeyAt fuel g' selected j key i :=
            keyAt_succ_iff hnext (by rw [if_pos huses])
          simp [hlater, ih]
      | false =>
        have hlater : ∀ i, KeyAt fuel g (command :: selected) j key (i + 1) ↔
          KeyAt fuel g' selected j key i :=
          keyAt_succ_iff hnext (by rw [huses]; rfl)
        simp [hlater, ih]

/-- The commands receive the keys in order exactly when the keys drawn by PINGs make no
difference. -/
lemma receives_worker_iff (selected : List Command) (g : KeyGenerator) :
    Receives fuel g (worker fuel selected g) ↔
      ∀ i command key, selected[i]? = some command → command.usesKey → g.key fuel i = some key →
        g.key fuel (i - pingsBefore selected i) = some key := by
  constructor
  · intro h i command key hsel huses hkey
    have hle := pingsBefore_le selected i
    exact h _ key ((usedKeys_worker selected g _ key).mpr ⟨i, command, hsel, huses, by omega, hkey⟩)
  · intro h j key hj
    obtain ⟨i, command, hsel, huses, hpos, hkey⟩ := (usedKeys_worker selected g j key).mp hj
    rw [show j = i - pingsBefore selected i by omega]
    exact h i command key hsel huses hkey

/-- In Node the commands always receive the keys in order. -/
theorem receives_issueAll (selected : List Command) (g : KeyGenerator) :
    Receives fuel g (issueAll fuel selected g) := by
  induction selected generalizing g with
  | nil => simp [Receives, issueAll, usedKeys]
  | cons command selected ih =>
    rw [issueAll]
    split
    · next huses =>
      cases hnext : g.next_key fuel with
      | error fault => simp [Receives, usedKeys]
      | ok r =>
        obtain ⟨key₀, g'⟩ := r
        intro j key hj
        simp only [usedKeys_cons, if_pos huses] at hj
        cases j with
        | zero =>
          rw [key_zero hnext]
          exact hj
        | succ j =>
          rw [key_succ hnext]
          exact ih g' j key hj
    · next huses =>
      intro j key hj
      rw [usedKeys_cons, if_neg huses] at hj
      exact ih g j key hj

/-! ## Sequential keys -/

/-- A sequential generator counts through its keys. -/
lemma key_sequential {c : KeyspaceConfig} (hseq : c.is_sequential_int) (n : ℕ)
    (r : Random.Python.JavaRandom) (j : ℕ) :
    KeyGenerator.key fuel ⟨c, n, r⟩ j = some (format_key c (((n + j : ℕ) : ℤ) % c.keys_count)) := by
  have hnext : ∀ n, KeyGenerator.next_key fuel ⟨c, n, r⟩
      = .ok (format_key c ((n : ℤ) % c.keys_count), ⟨c, n + 1, r⟩) := by
    intro n
    rw [KeyGenerator.next_key, if_pos hseq]
  induction j generalizing n with
  | zero => rw [key_zero (hnext n), Nat.add_zero]
  | succ j ih => rw [key_succ (hnext n), ih, Nat.add_right_comm, Nat.add_assoc]

/-- Different indices have different keys. -/
lemma format_key_injective (c : KeyspaceConfig) {x y : ℤ} (hx : 0 ≤ x) (hy : 0 ≤ y)
    (h : format_key c x = format_key c y) : x = y := by
  have hnat := pad_injective (List.append_cancel_left h)
  omega

/-- A worker on a sequential keyspace keeps the order exactly when the PINGs before every other
command make whole rounds of the keyspace. -/
lemma receives_sequential_iff {c : KeyspaceConfig} (hvalid : c.Valid)
    (hseq : c.is_sequential_int) (seed : ℤ) (selected : List Command) :
    Receives fuel (.create_with_seed c seed) (worker fuel selected (.create_with_seed c seed)) ↔
      ∀ i command, selected[i]? = some command → command.usesKey →
        c.keys_count ∣ (pingsBefore selected i : ℤ) := by
  have hpos : 0 < c.keys_count := hvalid.1
  rw [receives_worker_iff]
  constructor
  · intro h i command hsel huses
    have hle := pingsBefore_le selected i
    have hkeys := h i command _ hsel huses (key_sequential hseq 0 (.new seed) i)
    rw [KeyGenerator.create_with_seed, key_sequential hseq, Option.some_inj] at hkeys
    have hmod := format_key_injective c (Int.emod_nonneg _ hpos.ne')
      (Int.emod_nonneg _ hpos.ne') hkeys
    have hdvd : c.keys_count ∣ ((0 + i : ℕ) : ℤ) - ((0 + (i - pingsBefore selected i) : ℕ) : ℤ) :=
      Int.ModEq.dvd hmod
    rwa [show ((0 + i : ℕ) : ℤ) - ((0 + (i - pingsBefore selected i) : ℕ) : ℤ)
      = pingsBefore selected i by omega]
      at hdvd
  · intro h i command key hsel huses hkey
    have hle := pingsBefore_le selected i
    obtain ⟨m, hm⟩ := h i command hsel huses
    rw [KeyGenerator.create_with_seed, key_sequential hseq] at hkey ⊢
    rw [← hkey, show ((0 + i : ℕ) : ℤ) = ((0 + (i - pingsBefore selected i) : ℕ) : ℤ)
      + c.keys_count * m by omega,
      Int.add_mul_emod_self_left]

/-- A sequential keyspace with more than `n` keys. -/
def moreKeys (n : ℕ) : KeyspaceConfig := ⟨n + 1, 1, [], .sequential_int, none⟩

/-- The keyspaces of the example are valid. -/
lemma moreKeys_valid (n : ℕ) : (moreKeys n).Valid := ⟨by simp [moreKeys], le_rfl⟩

/-- The commands of a worker receive the keys of its generator in order on every keyspace exactly
when no PING is selected before one of them; on a sequential keyspace, when the numbers of PINGs
before them are multiples of `keys_count`. -/
theorem receives_iff (selected : List Command) :
    ((∀ (c : KeyspaceConfig) (seed : ℤ) (fuel : ℕ), c.Valid →
        Receives fuel (.create_with_seed c seed)
        (worker fuel selected (.create_with_seed c seed))) ↔
      PingsLast selected) ∧
    ∀ (c : KeyspaceConfig) (seed : ℤ) (fuel : ℕ), c.Valid → c.is_sequential_int →
      (Receives fuel (.create_with_seed c seed) (worker fuel selected (.create_with_seed c seed)) ↔
        ∀ i command, selected[i]? = some command → command.usesKey →
          c.keys_count ∣ (pingsBefore selected i : ℤ)) := by
  refine ⟨⟨fun h i command hsel huses => ?_, fun h c seed fuel _ => ?_⟩,
    fun c seed fuel hvalid hseq =>
    receives_sequential_iff hvalid hseq seed selected⟩
  · have hvalid := moreKeys_valid selected.length
    have hdvd : ((selected.length + 1 : ℕ) : ℤ) ∣ pingsBefore selected i :=
      (receives_sequential_iff hvalid rfl 0 selected).mp (h _ 0 0 hvalid) i command hsel huses
    have hlt : pingsBefore selected i < selected.length + 1 :=
      Nat.lt_succ_of_le (List.countP_le_length.trans (List.length_take_le' i selected))
    exact Nat.eq_zero_of_dvd_of_lt (Int.natCast_dvd_natCast.mp hdvd) hlt
  · rw [receives_worker_iff]
    intro i command key hsel huses hkey
    rwa [h i command hsel huses, Nat.sub_zero]

/-- A PING and a GET on a hundred sequential keys. -/
theorem not_receives_ping_get :
    ∃ c : KeyspaceConfig, c.Valid ∧
      ¬ Receives 0 (.create_with_seed c 0) (worker 0 [.ping, .get] (.create_with_seed c 0)) := by
  refine ⟨⟨100, 16, "key:".toList, .sequential_int, none⟩, ⟨by norm_num, by norm_num⟩, fun h => ?_⟩
  have hkey := h 0 "key:000000000001".toList rfl
  exact absurd hkey (by decide)

end RespBench.Python
