import TestWatch.Number.Decimal
import TestWatch.Proofs.Text.Clean
import Mathlib.Algebra.Group.Nat.Defs

/-!
# Runs of digits

Numbers are read from the digits at the front of a text. A run of digits is read in full where no
digit follows it, and a padded number is read as that number.
-/

namespace TestWatch

theorem ne_of_isDigit {c d : Char} (h : c.isDigit = true) (hd : d.isDigit = false) : c ≠ d := by
  rintro rfl
  simp [h] at hd

theorem not_blank_of_isDigit {c : Char} (h : c.isDigit = true) : isBlank c = false := by
  have := Text.toNat_of_isDigit h
  simp only [isBlank, Bool.or_eq_false_iff, Bool.and_eq_false_iff, decide_eq_false_iff_not,
    beq_eq_false_iff_ne]
  omega

/-- What follows begins with no digit. -/
def NoDigit (rest : List Char) : Prop := ∀ c ∈ rest.head?, c.isDigit = false

theorem NoDigit.cons {c : Char} (h : c.isDigit = false) (rest : List Char) :
    NoDigit (c :: rest) := by
  rintro _ ⟨⟩
  exact h

/-- All digits up to there are taken, and no more. -/
theorem takeWhile_digits {ds rest : List Char} (digits : ∀ c ∈ ds, c.isDigit = true)
    (ends : NoDigit rest) :
    (ds ++ rest).takeWhile Char.isDigit = ds ∧ (ds ++ rest).dropWhile Char.isDigit = rest := by
  rw [List.takeWhile_append_of_pos digits, List.dropWhile_append_of_pos digits]
  cases rest with
  | nil => simp
  | cons c rest => simp [ends c rfl]

theorem digitsValue_replicate_zero (k : Nat) (ds : List Char) :
    digitsValue (List.replicate k '0' ++ ds) = digitsValue ds := by
  induction k with
  | zero => rfl
  | succ k ih =>
    rw [List.replicate_succ, List.cons_append]
    exact ih

theorem digitsValue_decimal (n : Nat) : digitsValue (decimal n) = n := by
  have same (ds : List Char) (init : Nat) :
      ds.foldl (fun n c => n * 10 + digitValue c) init = Nat.ofDigitChars 10 ds init := by
    induction ds generalizing init with
    | nil => rfl
    | cons d ds ih => rw [List.foldl_cons, ih, Nat.ofDigitChars_cons, digitValue, Nat.mul_comm]
  rw [digitsValue, same]
  exact Nat.ofDigitChars_toDigits (by decide) (by decide)

section Padded

variable {width n : Nat}

theorem isDigit_of_mem_paddedDecimal {c : Char} (h : c ∈ paddedDecimal width n) :
    c.isDigit = true := by
  simp only [paddedDecimal, List.mem_append, List.mem_replicate] at h
  rcases h with ⟨-, rfl⟩ | h
  · decide
  · exact isDigit_of_mem_decimal h

theorem digitsValue_paddedDecimal : digitsValue (paddedDecimal width n) = n := by
  rw [paddedDecimal, digitsValue_replicate_zero, digitsValue_decimal]

theorem length_paddedDecimal (positive : 0 < width) (h : n < 10 ^ width) :
    (paddedDecimal width n).length = width := by
  have fits : (decimal n).length ≤ width :=
    (Nat.length_toDigits_le_iff (by decide) positive).2 h
  rw [paddedDecimal, List.length_append, List.length_replicate]
  omega

theorem paddedDecimal_eq_cons (positive : 0 < width) (h : n < 10 ^ width) :
    ∃ d ds, paddedDecimal width n = d :: ds ∧ d.isDigit = true := by
  have long := length_paddedDecimal positive h
  obtain ⟨d, ds, eq⟩ := List.exists_cons_of_length_pos (long ▸ positive)
  exact ⟨d, ds, eq, isDigit_of_mem_paddedDecimal (eq ▸ List.mem_cons_self ..)⟩

end Padded

end TestWatch
