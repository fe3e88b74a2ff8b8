import Mathlib

/-!
# Runs that may fail

A finite family of runs, made one after the other: `collect` gathers their outputs, and fails as
soon as one of them does, as `mapM` does over a list.
-/

namespace RespBench.Lib.Runs

/-- A result is passed on. -/
lemma ok_bind {ε α β : Type} (a : α) (f : α → Except ε β) : (Except.ok a >>= f) = f a := rfl

/-- A result is passed through a function. -/
lemma toOption_map {ε α β : Type} (f : α → β) (a : Except ε α) :
    (a.map f).toOption = a.toOption.map f := by
  cases a <;> rfl

/-- A successful `mapM` relates every element to its result. -/
lemma forall₂_of_mapM {α β : Type} {f : α → Option β} {l : List α} {bs : List β}
    (h : l.mapM f = some bs) :
    List.Forall₂ (fun a b => f a = some b) l bs := by
  induction l generalizing bs with
  | nil =>
    cases h
    exact .nil
  | cons a l ih =>
    rw [List.mapM_cons] at h
    obtain ⟨b, hb, h⟩ := Option.bind_eq_some_iff.mp h
    obtain ⟨rest, hrest, h⟩ := Option.bind_eq_some_iff.mp h
    cases h
    exact .cons hb (ih hrest)

/-- A map of functions that return returns. -/
lemma exists_mapM {α β : Type} {f : α → Option β} {l : List α} (h : ∀ a ∈ l, (f a).isSome) :
    ∃ bs, l.mapM f = some bs := by
  induction l with
  | nil => exact ⟨[], rfl⟩
  | cons a l ih =>
    obtain ⟨ha, hl⟩ := List.forall_mem_cons.mp h
    obtain ⟨b, hb⟩ := Option.isSome_iff_exists.mp ha
    obtain ⟨bs, hbs⟩ := ih hl
    exact ⟨b :: bs, by rw [List.mapM_cons, hb, hbs]; rfl⟩

/-- A map of functions with known results. -/
lemma mapM_eq_map {α β : Type} {f : α → Option β} {g : α → β} {l : List α}
    (h : ∀ a ∈ l, f a = some (g a)) :
    l.mapM f = some (l.map g) := by
  induction l with
  | nil => rfl
  | cons a l ih =>
    obtain ⟨ha, hl⟩ := List.forall_mem_cons.mp h
    rw [List.mapM_cons, ha, ih hl]
    rfl

/-- The results of functions that return, with those that do not left out. -/
lemma filterMap_of_forall₂ {α β : Type} {f : α → Option β} {l : List α} {bs : List β}
    (h : List.Forall₂ (fun a b => f a = some b) l bs) : l.filterMap f = bs := by
  induction h with
  | nil => rfl
  | cons hb _ ih => rw [List.filterMap_cons_some hb, ih]

/-- The outputs of the runs `0 … n - 1`, in their order. -/
def collect {ε α : Type} (run : ℕ → Except ε (List α)) : ℕ → Except ε (List α)
  | 0 => .ok []
  | n + 1 => do
    let before ← collect run n
    let last ← run n
    return before ++ last

/-- The results of runs that all return. -/
lemma collect_ok {ε α : Type} {run : ℕ → Except ε (List α)} {out : ℕ → List α} {n : ℕ}
    (h : ∀ i < n, run i = .ok (out i)) : collect run n = .ok ((List.range n).flatMap out) := by
  induction n with
  | zero => rfl
  | succ n ih =>
    rw [collect, ih fun i hi => h i (by omega), ok_bind, h n (by omega), ok_bind, List.range_succ,
      List.flatMap_append, List.flatMap_singleton]
    rfl

/-- The collected outputs, as a multiset, are the sum of the outputs. -/
lemma coe_flatMap_range {α : Type} (out : ℕ → List α) (n : ℕ) :
    (((List.range n).flatMap out : List α) : Multiset α)
      = ∑ i ∈ Finset.range n, (out i : Multiset α) := by
  induction n with
  | zero => rfl
  | succ n ih =>
    rw [List.range_succ, List.flatMap_append, List.flatMap_singleton, ← Multiset.coe_add, ih,
      Finset.sum_range_succ]

end RespBench.Lib.Runs
