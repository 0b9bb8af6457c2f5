import Mathlib.Algebra.Group.Nat.Defs
import Timeline.Number.Written
import Timeline.Proofs.Text.Digits

/-! Digits of naturals: no zeros in front, and the natural can be read off them. -/
namespace Timeline.Number

open Text (digitsValue isDigit)

theorem isDigit_of_mem_digitChars {n : Nat} {c : Char} (h : c ∈ digitChars n) : isDigit c = true := by
  have hd := Nat.isDigit_of_mem_toDigits (by omega) (by omega) h
  simpa [isDigit, Char.isDigit, Char.le_def] using hd

theorem digitChars_ne_nil (n : Nat) : digitChars n ≠ [] := Nat.toDigits_ne_nil

/-- The first digit of a natural that is not zero is not zero. -/
theorem head?_digitChars (n : Nat) (hn : n ≠ 0) : (digitChars n).head? ≠ some '0' := by
  induction n using Nat.strongRecOn with
  | ind n ih =>
    rw [digitChars, Nat.toDigits_eq_if (by omega)]
    split
    · rename_i hlt
      simpa using hn
    · rename_i hge
      have hmore := ih (n / 10) (by omega) (by omega)
      obtain ⟨c, cs, hc⟩ := List.exists_cons_of_ne_nil (digitChars_ne_nil (n / 10))
      rw [hc] at hmore
      rw [← digitChars, hc]
      exact hmore

theorem digitsValue_digitChars (n : Nat) : digitsValue (digitChars n) = n := Nat.ofDigitChars_ten_toDigits

theorem digitsValue_append_zeros (cs : List Char) (k : Nat) :
    digitsValue (cs ++ List.replicate k '0') = 10 ^ k * digitsValue cs :=
  (Nat.ofDigitChars_append 0).trans Nat.ofDigitChars_replicate_zero

theorem digitsValue_zeros_append (k : Nat) (cs : List Char) :
    digitsValue (List.replicate k '0' ++ cs) = digitsValue cs := by
  refine (Nat.ofDigitChars_append 0).trans ?_
  rw [Nat.ofDigitChars_replicate_zero, Nat.mul_zero]
  rfl

end Timeline.Number
