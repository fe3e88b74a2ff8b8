import Mathlib

/-!
# Text

Characters, the three ways in which programming languages count them (code points, units of UTF-16,
bytes of UTF-8), texts joined by separators, and decimal numbers padded with zeros. A padded number
determines the number, whatever the width (`pad_injective`); the padded zero determines the width as
well (`pad_zero_injective`).
-/

namespace RespBench.Lib.Text

/-- The bytes of a text in UTF-8. -/
def utf8 (s : List Char) : List UInt8 := s.flatMap String.utf8EncodeChar

/-- The number of units of a text in UTF-16. -/
def utf16Length (s : List Char) : ℕ := (s.map fun c => if c.toNat < 0x10000 then 1 else 2).sum

/-- No characters, no bytes. -/
@[simp] lemma utf8_nil : utf8 [] = [] := rfl

/-- The bytes of two texts are those of each. -/
@[simp] lemma utf8_append (s t : List Char) : utf8 (s ++ t) = utf8 s ++ utf8 t :=
  List.flatMap_append

/-- The bytes of the first character come first. -/
lemma utf8_cons (c : Char) (s : List Char) : utf8 (c :: s) = String.utf8EncodeChar c ++ utf8 s :=
  List.flatMap_cons

/-- The bytes determine the text. -/
theorem utf8_injective {s t : List Char} (h : utf8 s = utf8 t) : s = t := by
  have hbytes : (String.ofList s).toByteArray = (String.ofList t).toByteArray := by
    rw [String.toByteArray_ofList, String.toByteArray_ofList]
    exact congrArg List.toByteArray h
  simpa using congrArg String.toList (String.toByteArray_inj.mp hbytes)

/-- A character has at least as many bytes as UTF-16 units. -/
lemma units_le (c : Char) : (if c.toNat < 0x10000 then 1 else 2) ≤ c.utf8Size := by
  have hpos := c.utf8Size_pos
  split
  · exact hpos
  · next h =>
    by_contra hlt
    have hone : c.utf8Size = 1 := by omega
    rw [Char.utf8Size_eq_one_iff, UInt32.le_iff_toNat_le] at hone
    exact h (hone.trans_lt (by decide))

/-- A text has no more code points than units of UTF-16, and no more of these than bytes. -/
lemma lengths (s : List Char) : s.length ≤ utf16Length s ∧ utf16Length s ≤ (utf8 s).length := by
  induction s with
  | nil => exact ⟨le_rfl, le_rfl⟩
  | cons c s ih =>
    obtain ⟨h1, h2⟩ := ih
    have hunits := units_le c
    have hone : 1 ≤ if c.toNat < 0x10000 then 1 else 2 := by split <;> omega
    simp only [utf16Length] at h1 h2 ⊢
    rw [List.map_cons, List.sum_cons, utf8_cons, List.length_append, String.length_utf8EncodeChar,
      List.length_cons]
    omega

/-! ## Separators -/

/-- What is joined by a separator that it does not contain can be told apart again. -/
theorem join_injective {sep : Char} {xs ys : List (List Char)} (hx : ∀ x ∈ xs, sep ∉ x)
    (hy : ∀ y ∈ ys, sep ∉ y) (hxs : xs ≠ []) (hys : ys ≠ [])
    (h : [sep].intercalate xs = [sep].intercalate ys) : xs = ys := by
  rw [← List.splitOn_intercalate sep hx hxs, h, List.splitOn_intercalate sep hy hys]

/-- What stands before the first separator can be told from what follows it. -/
theorem cut_injective {sep : Char} {a b s t : List Char} (ha : sep ∉ a) (hb : sep ∉ b)
    (h : a ++ sep :: s = b ++ sep :: t) : a = b ∧ s = t := by
  induction a generalizing b with
  | nil =>
    cases b with
    | nil => exact ⟨rfl, List.tail_eq_of_cons_eq h⟩
    | cons c b =>
      obtain ⟨rfl, -⟩ := List.cons.inj h
      exact absurd List.mem_cons_self hb
  | cons c a ih =>
    cases b with
    | nil =>
      obtain ⟨rfl, -⟩ := List.cons.inj h
      exact absurd List.mem_cons_self ha
    | cons d b =>
      obtain ⟨rfl, hrest⟩ := List.cons.inj h
      obtain ⟨rfl, hst⟩ :=
        ih (fun h => ha (List.mem_cons_of_mem _ h)) (fun h => hb (List.mem_cons_of_mem _ h)) hrest
      exact ⟨rfl, hst⟩

/-! ## Padded numbers -/

/-- A number in decimal, padded with zeros to a width. -/
def pad (width n : ℕ) : List Char := List.leftpad width '0' (Nat.toDigits 10 n)

/-- A padded number is zeros and its digits. -/
lemma pad_eq (width n : ℕ) :
    pad width n = List.replicate (width - (Nat.toDigits 10 n).length) '0' ++
    Nat.toDigits 10 n := rfl

/-- A padded number determines the number. -/
theorem pad_injective {width width' n n' : ℕ} (h : pad width n = pad width' n') : n = n' := by
  have hvalue : ∀ w m, Nat.ofDigitChars 10 (pad w m) 0 = m := by
    intro w m
    rw [pad_eq, Nat.ofDigitChars_append, Nat.ofDigitChars_replicate_zero, mul_zero,
      Nat.ofDigitChars_toDigits (by norm_num) le_rfl]
  rw [← hvalue width n, h, hvalue]

/-- The padded zero consists of as many zeros as the width, and of one at least. -/
lemma pad_zero {width : ℕ} (h : 1 ≤ width) : pad width 0 = List.replicate width '0' := by
  rw [pad_eq, Nat.toDigits_zero]
  change List.replicate (width - 1) '0' ++ List.replicate 1 '0' = _
  rw [List.replicate_append_replicate, Nat.sub_add_cancel h]

/-- The padded zero shows the width. -/
lemma pad_zero_injective {width width' : ℕ} (h : 1 ≤ width) (h' : 1 ≤ width')
    (heq : pad width 0 = pad width' 0) :
    width = width' := by
  rw [pad_zero h, pad_zero h'] at heq
  simpa using congrArg List.length heq

/-- A padded number begins with a digit. -/
lemma pad_head (width n : ℕ) : ∃ c s, pad width n = c :: s ∧ c.isDigit := by
  have hdigits : ∀ c ∈ pad width n, c.isDigit := by
    intro c hc
    rw [pad_eq, List.mem_append, List.mem_replicate] at hc
    rcases hc with ⟨-, rfl⟩ | hc
    · decide
    · exact Nat.isDigit_of_mem_toDigits (by norm_num) le_rfl hc
  cases hpad : pad width n with
  | nil =>
    rw [pad_eq, List.append_eq_nil_iff] at hpad
    exact absurd hpad.2 Nat.toDigits_ne_nil
  | cons c s =>
    rw [hpad] at hdigits
    exact ⟨c, s, rfl, hdigits c List.mem_cons_self⟩

end RespBench.Lib.Text
