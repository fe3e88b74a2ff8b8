import RespBench.Random.Parity

/-!
# Streams of bounded draws

The values that the 48-bit generator draws with one and the same bound, as an infinite sequence:
`next` is a draw with as many rounds as it may need, and `stream b s` the values of successive draws
from the state `s`. Every stream comes past the state 0, and so draws the value 0
(`exists_stream_eq_zero`).
-/

namespace RespBench.Random
open RespBench.Lib RespBench.Lib.Runs

/-- A draw from a state, with as many rounds as it needs: its value and the state that it leaves. -/
def next (b : Bound) (s : ℕ) : ℕ × ℕ := (draw (2 ^ 48) b.1 s).toOption.getD (0, s)

/-- The value of the `n`-th draw from a state. -/
def stream (b : Bound) (s : ℕ) : ℕ → ℕ
  | 0 => (next b s).1
  | n + 1 => stream b (next b s).2 n

/-- Every draw returns what `next` says, from `2 ^ 48` rounds on. -/
lemma draw_eq_next (b : Bound) (s extra : ℕ) : draw (2 ^ 48 + extra) b.1 s = .ok (next b s) := by
  obtain ⟨r, hr⟩ := draw_ok b s
  rw [hr, next, show draw (2 ^ 48) b.1 s = .ok r from hr 0]
  rfl

/-- A run of draws returns a prefix of the stream. -/
theorem drawsFrom_replicate (b : Bound) (s n extra : ℕ) :
    drawsFrom (2 ^ 48 + extra) (List.replicate n b) s
      = .ok ((List.range n).map fun j => (stream b s j : ℤ)) := by
  induction n generalizing s with
  | zero => rfl
  | succ n ih =>
    rw [List.replicate_succ, drawsFrom, draw_eq_next, ok_bind]
    dsimp only
    rw [ih, ok_bind, List.range_succ_eq_map, List.map_cons, List.map_map]
    rfl

/-! ## What a draw returns -/

/-- With a power of two, the value is read off the top bits of the next state. -/
lemma next_of_isPow2 {b : Bound} (hb : IsPow2 b.1) (s : ℕ) :
    next b s = (b.1 * top31 (lcg s) / 2 ^ 31, lcg s) := by
  rw [next, draw, if_pos hb]
  rfl

/-- With another bound, an accepted state gives a remainder. -/
lemma next_of_accepts {b : Bound} (hb : ¬ IsPow2 b.1) {s : ℕ} (h : Accepts b.1 (top31 (lcg s))) :
    next b s = (top31 (lcg s) % b.1, lcg s) := by
  have hdraw := draw_eq_next b s 1
  rw [draw, if_neg hb, drawLoop, if_pos h] at hdraw
  exact (Except.ok.inj hdraw).symm

/-- A draw that rejects begins again. -/
lemma next_of_not_accepts {b : Bound} (hb : ¬ IsPow2 b.1) {s : ℕ}
    (h : ¬ Accepts b.1 (top31 (lcg s))) :
    next b s = next b (lcg s) := by
  have hdraw := draw_eq_next b s 1
  have hdraw' := draw_eq_next b (lcg s) 0
  rw [draw, if_neg hb, drawLoop, if_neg h] at hdraw
  rw [draw, if_neg hb, add_zero, hdraw] at hdraw'
  exact Except.ok.inj hdraw'

/-- A drawn value is below the bound. -/
lemma draw_val_lt {b : Bound} {fuel s v s' : ℕ} (h : draw fuel b.1 s = .ok (v, s')) : v < b.1 := by
  unfold draw at h
  split at h
  · cases h
    apply Nat.div_lt_of_lt_mul
    rw [mul_comm]
    exact Nat.mul_lt_mul_of_pos_right (top31_lcg_lt s) b.2.1
  · exact drawLoop_val_lt b.2.1 h

/-- The next value is below the bound. -/
lemma next_lt (b : Bound) (s : ℕ) : (next b s).1 < b.1 := draw_val_lt (draw_eq_next b s 0)

/-- Streams with the same first draw are the same. -/
lemma stream_congr {b : Bound} {s s' : ℕ} (h : next b s = next b s') (n : ℕ) :
    stream b s n = stream b s' n := by
  cases n with
  | zero => exact congrArg Prod.fst h
  | succ n => rw [stream, stream, h]

/-- The values of a stream are below the bound. -/
lemma stream_lt (b : Bound) (s n : ℕ) : stream b s n < b.1 := by
  induction n generalizing s with
  | zero => exact next_lt b s
  | succ n ih => exact ih _

/-- The draw that steps to the state 0 has the value 0. -/
lemma next_of_lcg_eq_zero (b : Bound) {s : ℕ} (h : lcg s = 0) : (next b s).1 = 0 := by
  have htop : top31 (lcg s) = 0 := by rw [h, top31, Nat.zero_div]
  by_cases hb : IsPow2 b.1
  · rw [next_of_isPow2 hb, htop, mul_zero, Nat.zero_div]
  · rw [next_of_accepts hb, htop, Nat.zero_mod]
    rw [htop]
    exact accepts_of_lt b.2.2 b.2.1

/-- A stream that comes to the state 0 draws the value 0. -/
lemma exists_stream_eq_zero_of_iterate (b : Bound) {m s : ℕ} (h : lcg^[m + 1] s = 0) :
    ∃ n, stream b s n = 0 := by
  induction m generalizing s with
  | zero => exact ⟨0, next_of_lcg_eq_zero b h⟩
  | succ m ih =>
    obtain ⟨n, hn⟩ := ih (s := lcg s) h
    by_cases hb : IsPow2 b.1
    · refine ⟨n + 1, ?_⟩
      rw [stream, next_of_isPow2 hb]
      exact hn
    · by_cases hacc : Accepts b.1 (top31 (lcg s))
      · refine ⟨n + 1, ?_⟩
        rw [stream, next_of_accepts hb hacc]
        exact hn
      · refine ⟨n, ?_⟩
        rw [stream_congr (next_of_not_accepts hb hacc)]
        exact hn

/-- Every stream draws the value 0. -/
theorem exists_stream_eq_zero (b : Bound) (s : ℕ) : ∃ n, stream b s n = 0 := by
  obtain ⟨m, -, h⟩ :=
    Lcg.exists_iterate_eq_zero (a := 0x5DEECE66D) (c := 0xB) (k := 48) (x := lcg s) (by norm_num)
      (by norm_num) (lcg_lt s)
  exact exists_stream_eq_zero_of_iterate b h

end RespBench.Random
