import Mathlib

/-!
# Fail-fast array lists

`java.util.ArrayList` with its iterator: every structural change of the list is counted, and
an iterator whose list was changed behind its back fails at its next access. `next_of_fresh`
and `remove_of_next` are the behaviour of an iterator that is up to date, `next_of_stale`
that of one that is not.
-/

namespace RespBench.Lib

/-- The elements of a list and the number of its structural changes. -/
structure ArrayList (α : Type*) where
  elems : List α
  modCount : ℕ
deriving DecidableEq

namespace ArrayList

/-- The exceptions of an iterator. -/
inductive Failure where
  | concurrentModification
  | noSuchElement
  | illegalState
deriving DecidableEq

/-- An iterator: its position, the element that it returned last, and the changes that it knows
of. -/
structure Itr where
  cursor : ℕ
  lastRet : Option ℕ
  expectedModCount : ℕ
deriving DecidableEq

variable {α : Type*}

/-- `new ArrayList<>()`. -/
def empty : ArrayList α := ⟨[], 0⟩

/-- `size()`. -/
def size (l : ArrayList α) : ℕ := l.elems.length

/-- `isEmpty()`. -/
def isEmpty (l : ArrayList α) : Bool := l.elems.isEmpty

/-- `add(a)`. -/
def add (l : ArrayList α) (a : α) : ArrayList α := ⟨l.elems ++ [a], l.modCount + 1⟩

/-- `iterator()`. -/
def iterator (l : ArrayList α) : Itr := ⟨0, none, l.modCount⟩

/-- `hasNext()`. -/
def hasNext (l : ArrayList α) (it : Itr) : Bool := it.cursor ≠ l.size

/-- `next()`. -/
def next (l : ArrayList α) (it : Itr) : Except Failure (α × Itr) :=
  if l.modCount ≠ it.expectedModCount then .error .concurrentModification
  else match l.elems[it.cursor]? with
    | none => .error .noSuchElement
    | some a => .ok (a, ⟨it.cursor + 1, some it.cursor, it.expectedModCount⟩)

/-- `remove()` of an iterator. -/
def remove (l : ArrayList α) (it : Itr) : Except Failure (ArrayList α × Itr) :=
  match it.lastRet with
  | none => .error .illegalState
  | some i =>
    if l.modCount ≠ it.expectedModCount then .error .concurrentModification
    else .ok (⟨l.elems.eraseIdx i, l.modCount + 1⟩, ⟨i, none, l.modCount + 1⟩)

/-- An iterator that knows of all changes of its list. -/
def Fresh (l : ArrayList α) (it : Itr) : Prop :=
  it.expectedModCount = l.modCount ∧ it.cursor ≤ l.size

variable {l : ArrayList α} {it : Itr}

/-- An added element stands at the end. -/
@[simp] lemma add_elems (l : ArrayList α) (a : α) : (l.add a).elems = l.elems ++ [a] := rfl

/-- An added element makes the list longer by one. -/
@[simp] lemma add_size (l : ArrayList α) (a : α) : (l.add a).size = l.size + 1 := by simp [size]

/-- An iterator that was just made is fresh. -/
lemma fresh_iterator (l : ArrayList α) : l.Fresh l.iterator := ⟨rfl, Nat.zero_le _⟩

/-- A fresh iterator that has a next element returns it. -/
lemma next_of_fresh (h : l.Fresh it) (hnext : l.hasNext it) :
    ∃ a it', l.next it = .ok (a, it') := by
  have hne : it.cursor ≠ l.size := by simpa [hasNext] using hnext
  have hlt : it.cursor < l.elems.length := lt_of_le_of_ne h.2 hne
  refine ⟨l.elems[it.cursor], ⟨it.cursor + 1, some it.cursor, it.expectedModCount⟩, ?_⟩
  rw [next, if_neg (not_not.mpr h.1.symm), List.getElem?_eq_getElem hlt]

/-- An iterator that returned an element is fresh, and removes this element. -/
lemma remove_of_next {it' : Itr} {a : α} (h : l.next it = .ok (a, it')) :
    l.Fresh it' ∧ ∃ l' it'', l.remove it' = .ok (l', it'') ∧ l.elems.Perm (a :: l'.elems) ∧
      l'.Fresh it'' := by
  unfold next at h
  split at h
  · cases h
  next hcount =>
  have hcount : l.modCount = it.expectedModCount := not_not.mp hcount
  split at h
  · cases h
  next hget =>
  obtain ⟨hlt, rfl⟩ := List.getElem?_eq_some_iff.mp hget
  cases h
  refine ⟨⟨hcount.symm, hlt⟩, ⟨l.elems.eraseIdx it.cursor, l.modCount + 1⟩,
    ⟨it.cursor, none, l.modCount + 1⟩, if_neg (not_not.mpr hcount), ?_, rfl, ?_⟩
  · exact (List.getElem_cons_eraseIdx_perm hlt).symm
  · unfold size
    rw [List.length_eraseIdx, if_pos hlt]
    dsimp only
    omega

/-- The removal of an element that was returned makes a list one shorter. -/
lemma size_of_remove {l' : ArrayList α} {it' it'' : Itr} {a : α} (hnext : l.next it = .ok (a, it'))
    (hremove : l.remove it' = .ok (l', it'')) : l'.size + 1 = l.size := by
  obtain ⟨-, _, _, hremove', hperm, -⟩ := remove_of_next hnext
  cases hremove.symm.trans hremove'
  exact hperm.length_eq.symm

/-- An iterator whose list was changed fails. -/
lemma next_of_stale (h : l.modCount ≠ it.expectedModCount) :
    l.next it = .error .concurrentModification :=
  if_pos h

/-- Adding an element makes a fresh iterator stale, and gives it a next element to fail at. -/
lemma add_stale (h : l.Fresh it) (a : α) :
    (l.add a).hasNext it ∧ (l.add a).next it = .error .concurrentModification := by
  refine ⟨?_, next_of_stale ?_⟩
  · have := h.2
    simp only [hasNext, add_size, ne_eq, decide_eq_true_eq]
    omega
  · rw [h.1]
    exact Nat.succ_ne_self _

end ArrayList

end RespBench.Lib
