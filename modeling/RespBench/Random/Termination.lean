import RespBench.Random.Parity
import RespBench.Random.Stream

/-!
# Termination of the rejection loops

No partial result of a loop gets smaller from round to round. That it ends all the same is a matter
of the orbit of the states, which runs through all of them (`exists_accepts`); every port that
refines the generator inherits it (`Port.Refines.terminates`).
-/

namespace RespBench.Random

/-- The states of a port: those that its constructor makes, and those that its draws leave
behind. -/
inductive Port.Reachable (P : Port) : P.State → Prop where
  | new (seed : BitVec 64) : Reachable P (P.new seed)
  | next {r r' : P.State} {fuel : ℕ} {b : Bound} {v : ℤ} :
    Reachable P r → P.nextInt fuel b r = .ok (v, r') → Reachable P r'

/-- From every state a draw returns a value below its bound, after `2 ^ 48` rounds at the latest. -/
def Port.Terminates (P : Port) : Prop :=
  ∀ r, P.Reachable r → ∀ b : Bound, ∃ (v : ℤ) (r' : P.State), (0 ≤ v ∧ v < b.1) ∧
    ∀ extra, P.nextInt (2 ^ 48 + extra) b r = .ok (v, r')

section
variable {P : Port} {rep : ℕ → P.State}

/-- Reachable states represent states of the generator. -/
lemma Port.Refines.exists_rep (ref : P.Refines rep) {r : P.State} (h : P.Reachable r) :
    ∃ s < 2 ^ 48, r = rep s := by
  induction h with
  | new seed => exact ⟨scramble seed, scramble_lt seed, ref.new_eq seed⟩
  | @next r r' fuel b v _ hnext ih =>
    obtain ⟨s, hs, rfl⟩ := ih
    rw [ref.nextInt_eq fuel b s hs] at hnext
    cases hdraw : draw fuel b.1 s with
    | error fault =>
      rw [hdraw] at hnext
      cases hnext
    | ok drawn =>
      obtain ⟨value, s'⟩ := drawn
      rw [hdraw] at hnext
      cases hnext
      exact ⟨s', draw_lt hdraw, rfl⟩

/-- A port that refines the draw terminates. -/
lemma Port.Refines.terminates (ref : P.Refines rep) : P.Terminates := by
  intro r hr b
  obtain ⟨s, hs, rfl⟩ := ref.exists_rep hr
  obtain ⟨⟨v, s'⟩, hdraw⟩ := draw_ok b s
  have hlt := draw_val_lt (hdraw 0)
  refine ⟨v, rep s', ⟨Int.natCast_nonneg v, by exact_mod_cast hlt⟩, fun extra => ?_⟩
  rw [ref.nextInt_eq _ b s hs, hdraw]
  rfl

end

/-- The four ports return from every draw, since the generator comes from every state to bits
that the test accepts. -/
theorem nextInt_terminates :
    (goPort.Terminates ∧ phpPort.Terminates ∧ pythonPort.Terminates ∧ rustPort.Terminates) ∧
      ∀ (b : Bound) (s : ℕ), ∃ n < 2 ^ 48, Accepts b.1 (top31 (lcg^[n + 1] s)) := by
  refine ⟨⟨goPort_refines.terminates, phpPort_refines.terminates, pythonPort_refines.terminates,
    rustPort_refines.terminates⟩, fun b s => exists_accepts b.2.1 b.2.2 s⟩

end RespBench.Random
