import Mathlib

/-!
# Draws by rejection

A draw runs rounds on a state until one of them accepts a value; a round may also fault, and then
the draw has no result. `draw` and `draws` are given a number of rounds for each draw, and any
larger number gives the same results (`draws_add`).

A `Run` is the other way to see the rounds, one after the other without regard to where a draw
begins: it collects the values accepted so far. `Run.draws` says that they are the values of so
many draws, made in a row.

A loop of a program that calls a generator and judges what it returns is such a draw, whatever its
text (`Calls.eq_draw`).
-/

namespace RespBench.Lib

/-- A round: it faults, or it leaves a state, with the value that it accepts or without one. -/
abbrev Round (S A : Type*) := S → Option (Option A × S)

namespace Round
variable {S A : Type*}

/-- Rounds until one accepts, at most so many. -/
def draw (round : Round S A) : ℕ → S → Option (A × S)
  | 0, _ => none
  | fuel + 1, s =>
    match round s with
    | none => none
    | some (some a, s') => some (a, s')
    | some (none, s') => draw round fuel s'

/-- So many draws in a row. -/
def draws (round : Round S A) (fuel : ℕ) : ℕ → S → Option (List A × S)
  | 0, s => some ([], s)
  | n + 1, s =>
    (draw round fuel s).bind fun r => (draws round fuel n r.2).map fun q => (r.1 :: q.1, q.2)

variable {round : Round S A} {s t u : S} {a : A} {as : List A} {fuel : ℕ}

/-- A round that accepts ends a draw. -/
lemma draw_of_accept (h : round s = some (some a, t)) (fuel : ℕ) :
    round.draw (fuel + 1) s = some (a, t) := by
  rw [draw, h]

/-- A draw goes on after a round that rejects. -/
lemma draw_of_reject (h : round s = some (none, t)) (fuel : ℕ) :
    round.draw (fuel + 1) s = round.draw fuel t := by
  rw [draw, h]

/-- A draw has no result when its round faults. -/
lemma draw_of_fault (h : round s = none) (fuel : ℕ) : round.draw fuel s = none := by
  cases fuel with
  | zero => rfl
  | succ fuel => rw [draw, h]

/-- A draw by its first round. -/
lemma draw_succ (round : Round S A) (fuel : ℕ) (s : S) :
    round.draw (fuel + 1) s = (round s).bind fun r => r.1.elim (round.draw fuel r.2) fun a =>
      some (a, r.2) := by
  rw [draw]
  cases round s with
  | none => rfl
  | some r =>
    obtain ⟨value, s'⟩ := r
    cases value <;> rfl

/-- A loop that goes on exactly when its round rejects is a draw. -/
lemma eq_draw {round : Round S A} (loop : ℕ → S → Option (A × S)) (hzero : ∀ s, loop 0 s = none)
    (hsucc : ∀ fuel s, loop (fuel + 1) s = (round s).bind fun r => r.1.elim (loop fuel r.2) fun a =>
      some (a, r.2))
    (fuel : ℕ) (s : S) : loop fuel s = round.draw fuel s := by
  induction fuel generalizing s with
  | zero => exact hzero s
  | succ fuel ih => rw [hsucc, funext ih, draw_succ]

/-- More rounds do not change what a draw returns. -/
lemma draw_add (h : round.draw fuel s = some (a, t)) (extra : ℕ) :
    round.draw (fuel + extra) s = some (a, t) := by
  induction fuel generalizing s with
  | zero => cases h
  | succ fuel ih =>
    rw [Nat.add_right_comm]
    cases hround : round s with
    | none =>
      rw [draw_of_fault hround] at h
      cases h
    | some r =>
      obtain ⟨value, s'⟩ := r
      cases value with
      | none =>
        rw [draw_of_reject hround] at h ⊢
        exact ih h
      | some b =>
        rw [draw_of_accept hround] at h ⊢
        exact h

/-- What a draw returns has been accepted by a round. -/
lemma exists_round_of_draw (h : round.draw fuel s = some (a, t)) :
    ∃ u v, round u = some (some a, v) := by
  induction fuel generalizing s with
  | zero => cases h
  | succ fuel ih =>
    cases hs : round s with
    | none =>
      rw [draw_of_fault hs] at h
      cases h
    | some r =>
      obtain ⟨value, u⟩ := r
      cases value with
      | none =>
        rw [draw_of_reject hs] at h
        exact ih h
      | some b =>
        rw [draw_of_accept hs] at h
        cases h
        exact ⟨s, t, hs⟩

/-- Draws in a row begin with a draw. -/
lemma draws_cons (hdraw : round.draw fuel s = some (a, t)) {n : ℕ}
    (h : round.draws fuel n t = some (as, u)) :
    round.draws fuel (n + 1) s = some (a :: as, u) := by
  rw [draws, hdraw, Option.bind_some, h]
  rfl

/-- So many draws in a row are one and the others. -/
lemma draws_succ {n : ℕ} (h : round.draws fuel (n + 1) s = some (as, u)) :
    ∃ b bs v, as = b :: bs ∧ round.draw fuel s = some (b, v) ∧
    round.draws fuel n v = some (bs, u) := by
  obtain ⟨⟨b, v⟩, hdraw, hrest⟩ := Option.bind_eq_some_iff.mp h
  obtain ⟨⟨bs, u'⟩, hbs, hr⟩ := Option.map_eq_some_iff.mp hrest
  cases hr
  exact ⟨b, bs, v, rfl, hdraw, hbs⟩

/-- More rounds do not change what draws in a row return. -/
lemma draws_add {n : ℕ} (h : round.draws fuel n s = some (as, u)) (extra : ℕ) :
    round.draws (fuel + extra) n s = some (as, u) := by
  induction n generalizing s as with
  | zero => exact h
  | succ n ih =>
    obtain ⟨b, bs, v, rfl, hdraw, hbs⟩ := draws_succ h
    exact draws_cons (draw_add hdraw extra) (ih hbs)

/-- The round that judges what the next state shows. -/
def judged {B : Type*} (next : S → B × S) (judge : B → Option (Option A)) : Round S A := fun s =>
  (judge (next s).1).map fun value => (value, (next s).2)

/-- A judged round by what the state shows. -/
lemma judged_eq {B : Type*} {next : S → B × S} {judge : B → Option (Option A)} {b : B}
    (hnext : next s = (b, t)) :
    judged next judge s = (judge b).map fun value => (value, t) := by
  rw [judged, hnext]

/-- How a bounded call may go: it fails, it takes what the first state shows, or it loops as its
rounds judge. -/
inductive Calls {B : Type*} (next : S → B × S) (judge : B → Option (Option A)) (fuel : ℕ) (s : S) :
    Option (A × S) → Prop where
  | fails : judge (next s).1 = none → Calls next judge fuel s none
  | once {a : A} {b : B} {t : S} : next s = (b, t) → judge b = some (some a) →
    Calls next judge fuel s (some (a, t))
  | loops (loop : ℕ → S → Option (A × S)) : (∀ s, loop 0 s = none) →
    (∀ fuel s b t, next s = (b, t) →
      loop (fuel + 1) s = (judge b).bind fun a => a.elim (loop fuel t) fun a => some (a, t)) →
    Calls next judge fuel s (loop (fuel + 1) s)

/-- Such a call is a draw. -/
theorem Calls.eq_draw {B : Type*} {next : S → B × S} {judge : B → Option (Option A)}
    {r : Option (A × S)} (h : Calls next judge fuel s r) :
    r = (judged next judge).draw (fuel + 1) s := by
  cases h with
  | fails hnone =>
    refine (draw_of_fault ?_ _).symm
    rw [judged, hnone, Option.map_none]
  | once hnext hvalue =>
    refine (draw_of_accept ?_ _).symm
    rw [judged_eq hnext, hvalue, Option.map_some]
  | loops loop hzero hsucc =>
    refine Round.eq_draw loop hzero (fun fuel s => ?_) (fuel + 1) s
    rw [hsucc fuel s _ _ rfl, judged, Option.bind_map]
    rfl

/-- The round that goes on with what another accepts. -/
def map {C : Type*} (f : A → C) (round : Round S A) : Round S C := fun s =>
  (round s).map fun r => (r.1.map f, r.2)

/-- A draw whose value is passed through a function. -/
lemma draw_map {C : Type*} (f : A → C) (round : Round S A) (fuel : ℕ) (s : S) :
    (round.map f).draw fuel s = (round.draw fuel s).map fun r => (f r.1, r.2) := by
  induction fuel generalizing s with
  | zero => rfl
  | succ fuel ih =>
    cases hround : round s with
    | none =>
      have hmap : round.map f s = none := by rw [map, hround, Option.map_none]
      rw [draw_of_fault hround, draw_of_fault hmap, Option.map_none]
    | some r =>
      obtain ⟨value, s'⟩ := r
      have hmap : round.map f s = some (value.map f, s') := by rw [map, hround, Option.map_some]
      cases value with
      | none => rw [draw_of_reject hround, draw_of_reject hmap, ih]
      | some a => rw [draw_of_accept hround, draw_of_accept hmap, Option.map_some]

/-- A result that is passed through a function is a draw. -/
lemma map_eq_draw {C : Type*} (f : A → C) {r : Option (A × S)} (h : r = round.draw fuel s) :
    r.map (fun q => (f q.1, q.2)) = (round.map f).draw fuel s := by
  rw [h, draw_map]

/-- One more draw at the end. -/
lemma draws_snoc {n : ℕ} (h : round.draws fuel n s = some (as, t))
    (hdraw : round.draw fuel t = some (a, u)) :
    round.draws fuel (n + 1) s = some (as ++ [a], u) := by
  induction n generalizing s as with
  | zero =>
    cases h
    exact draws_cons hdraw rfl
  | succ n ih =>
    obtain ⟨b, bs, v, rfl, hfirst, hbs⟩ := draws_succ h
    exact draws_cons hfirst (ih hbs)

/-- What draws in a row return has been accepted by a round. -/
lemma exists_round_of_mem_draws {n : ℕ} (h : round.draws fuel n s = some (as, t)) (ha : a ∈ as) :
    ∃ u v, round u = some (some a, v) := by
  induction n generalizing s as with
  | zero =>
    cases h
    exact absurd ha List.not_mem_nil
  | succ n ih =>
    obtain ⟨b, bs, v, rfl, hdraw, hbs⟩ := draws_succ h
    rcases List.mem_cons.mp ha with rfl | ha
    · exact exists_round_of_draw hdraw
    · exact ih hbs ha

/-- When every draw returns, draws in a row do. -/
lemma exists_draws (h : ∀ s, ∃ fuel r, round.draw fuel s = some r) (n : ℕ) (s : S) :
    ∃ fuel r, round.draws fuel n s = some r := by
  induction n generalizing s with
  | zero => exact ⟨0, ([], s), rfl⟩
  | succ n ih =>
    obtain ⟨fuel, ⟨a, t⟩, hdraw⟩ := h s
    obtain ⟨fuel', ⟨as, u⟩, hdraws⟩ := ih t
    exact ⟨fuel + fuel', (a :: as, u),
      draws_cons (draw_add hdraw fuel') (Nat.add_comm fuel' fuel ▸ draws_add hdraws fuel)⟩

section Representation
variable {S' : Type*} {rep : S → S'} {inv : S → Prop} {round' : Round S' A}
  (hround : ∀ s, inv s → round' (rep s) = (round s).map fun r => (r.1, rep r.2))
  (hinv : ∀ s value t, round s = some (value, t) → inv t)
include hround hinv

/-- A draw from a representation, when its rounds are those of the state. -/
lemma draw_rep (fuel : ℕ) (hs : inv s) :
    round'.draw fuel (rep s) = (round.draw fuel s).map fun r => (r.1, rep r.2) := by
  induction fuel generalizing s with
  | zero => rfl
  | succ fuel ih =>
    have h := hround s hs
    cases hs' : round s with
    | none =>
      rw [hs', Option.map_none] at h
      rw [draw_of_fault h, draw_of_fault hs', Option.map_none]
    | some r =>
      obtain ⟨value, t⟩ := r
      rw [hs', Option.map_some] at h
      cases value with
      | none => rw [draw_of_reject h, draw_of_reject hs', ih (hinv s _ t hs')]
      | some a => rw [draw_of_accept h, draw_of_accept hs', Option.map_some]

omit hround in
/-- A draw keeps what its rounds keep. -/
lemma draw_inv (h : round.draw fuel s = some (a, t)) : inv t := by
  induction fuel generalizing s with
  | zero => cases h
  | succ fuel ih =>
    cases hs' : round s with
    | none =>
      rw [draw_of_fault hs'] at h
      cases h
    | some r =>
      obtain ⟨value, u⟩ := r
      cases value with
      | none =>
        rw [draw_of_reject hs'] at h
        exact ih h
      | some b =>
        rw [draw_of_accept hs'] at h
        cases h
        exact hinv s _ t hs'

/-- Draws in a row from a representation. -/
lemma draws_rep (fuel n : ℕ) (hs : inv s) :
    round'.draws fuel n (rep s) = (round.draws fuel n s).map fun r => (r.1, rep r.2) := by
  induction n generalizing s with
  | zero => rfl
  | succ n ih =>
    rw [draws, draws, draw_rep hround hinv fuel hs]
    cases hd : round.draw fuel s with
    | none => rfl
    | some r =>
      rw [Option.map_some, Option.bind_some, Option.bind_some, ih (draw_inv hinv (a := r.1) hd),
        Option.map_map, Option.map_map]
      rfl

end Representation

/-- Rounds from a state: the values accepted on the way, the newest last, and the state they lead
to. -/
inductive Run (round : Round S A) (s : S) : List A → S → Prop where
  | start : Run round s [] s
  | reject {as : List A} {t u : S} : Run round s as t → round t = some (none, u) → Run round s as u
  | accept {as : List A} {a : A} {t u : S} : Run round s as t → round t = some (some a, u) →
    Run round s (as ++ [a]) u

/-- A draw that begins with rejected rounds. -/
lemma Run.draw_of_nil (h : Run round s [] t) (hdraw : round.draw fuel t = some (a, u)) :
    ∃ fuel', round.draw fuel' s = some (a, u) := by
  generalize hnil : [] = as at h
  induction h generalizing fuel with
  | start => exact ⟨fuel, hdraw⟩
  | reject _ hround ih => exact ih ((draw_of_reject hround fuel).trans hdraw) hnil
  | accept => simp at hnil

/-- The values accepted on the way are those of so many draws: they end in a state from which only
rejected rounds lead on. -/
theorem Run.draws (h : Run round s as t) :
    ∃ fuel u, round.draws fuel as.length s = some (as, u) ∧ Run round u [] t := by
  induction h with
  | start => exact ⟨0, s, rfl, .start⟩
  | reject _ hround ih =>
    obtain ⟨fuel, u, hdraws, hrest⟩ := ih
    exact ⟨fuel, u, hdraws, hrest.reject hround⟩
  | @accept as t a v _ hround ih =>
    obtain ⟨fuel, u, hdraws, hrest⟩ := ih
    obtain ⟨fuel', hdraw⟩ := hrest.draw_of_nil (draw_of_accept hround 0)
    refine ⟨fuel + fuel', v, ?_, .start⟩
    rw [List.length_append, List.length_singleton]
    exact draws_snoc (draws_add hdraws fuel') (Nat.add_comm fuel' fuel ▸ draw_add hdraw fuel)

end Round

end RespBench.Lib
