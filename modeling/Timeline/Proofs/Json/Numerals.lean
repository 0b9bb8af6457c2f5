import Timeline.Number.Numeral
import Timeline.Proofs.Json.Layouts
import Timeline.Proofs.Number.Shortest
import Timeline.Proofs.Number.Written

/-! Numerals of JSON.

A numeral is put together from a sign, digits, a fraction and an exponent. It is a number of JSON
(`isNumber_text`), and it is taken apart again into the same pieces (`split?_text`). What is written for an
integer and for a decimal is a numeral that says as much (`magnitude`). -/
namespace Timeline.Json

open Number
open Text

/-! ### Numerals of JSON -/

/-- A fraction: none, or digits behind a point. -/
inductive IsFraction : Option (List Char) → Prop
  | none : IsFraction none
  | digits {ds : List Char} (hd : ∀ c ∈ ds, isDigit c = true) (hne : ds ≠ []) : IsFraction (some ds)

/-- An exponent: none, or its mark, a sign and digits. -/
inductive IsExponent : List Char → Prop
  | none : IsExponent []
  | digits {sign : Char} {ds : List Char} (hs : sign = '+' ∨ sign = '-') (hd : ∀ c ∈ ds, isDigit c = true)
    (hne : ds ≠ []) : IsExponent ('e' :: sign :: ds)

structure IsNumeral (n : Numeral) : Prop where
  sign : n.sign = [] ∨ n.sign = ['-']
  plain : isPlain n.whole = true
  whole : ∀ c ∈ n.whole, isDigit c = true
  fraction : IsFraction n.fraction
  exponent : IsExponent n.exponent

variable {fraction : Option (List Char)} {exponent : List Char}

theorem IsExponent.splitExponent_eq (h : IsExponent exponent) : splitExponent exponent = (exponent, []) := by
  cases h with
  | none => rfl
  | digits hs hd hne => simpa using splitExponent_of_digits hs hd hne (show startsDigit [] = false from rfl)

theorem IsExponent.startsDigit_eq (h : IsExponent exponent) : startsDigit exponent = false := by
  cases h <;> rfl

theorem IsFraction.startsDigit_eq (h : IsFraction fraction) (he : IsExponent exponent) :
    startsDigit (fraction.elim [] ('.' :: ·) ++ exponent) = false := by
  cases h with
  | none => exact he.startsDigit_eq
  | digits => rfl

theorem IsFraction.splitFraction_eq (h : IsFraction fraction) (he : IsExponent exponent) :
    splitFraction (fraction.elim [] ('.' :: ·) ++ exponent) = (fraction.elim [] ('.' :: ·), exponent) := by
  cases h with
  | none => cases he <;> rfl
  | digits hd hne => exact splitFraction_of_digits hd hne he.startsDigit_eq

theorem IsFraction.splitPoint_eq (h : IsFraction fraction) (he : IsExponent exponent) (whole : List Char) :
    Numeral.splitPoint whole (fraction.elim [] ('.' :: ·) ++ exponent) = (fraction, exponent) := by
  cases h with
  | none => cases he <;> rfl
  | @digits ds hd hne =>
    show Numeral.splitPoint whole ('.' :: (ds ++ exponent)) = _
    rw [Numeral.splitPoint, splitDigits_of_digits hd he.startsDigit_eq]
    exact if_neg fun h => hne h.2

namespace IsNumeral

variable {n : Numeral} (h : IsNumeral n)

include h

theorem whole_ne_nil : n.whole ≠ [] := by
  intro hnil
  have hp := h.plain
  rw [hnil] at hp
  cases hp

theorem splitDigits_eq : splitDigits (n.whole ++ (n.fraction.elim [] ('.' :: ·) ++ n.exponent)) =
    (n.whole, n.fraction.elim [] ('.' :: ·) ++ n.exponent) :=
  splitDigits_of_digits h.whole (h.fraction.startsDigit_eq h.exponent)

theorem isUnsigned_eq : isUnsigned (n.whole ++ (n.fraction.elim [] ('.' :: ·) ++ n.exponent)) = true := by
  rw [isUnsigned, h.splitDigits_eq]
  simp only [h.fraction.splitFraction_eq h.exponent, h.exponent.splitExponent_eq, h.plain, List.isEmpty_nil,
    Bool.and_self]

/-- Digits have no sign of their own. -/
theorem head_isDigit : ∃ c cs, n.whole = c :: cs ∧ isDigit c = true := by
  obtain ⟨c, cs, hw⟩ := List.exists_cons_of_ne_nil h.whole_ne_nil
  exact ⟨c, cs, hw, h.whole c (by rw [hw]; exact List.mem_cons_self)⟩

/-- A numeral is a number of JSON. -/
theorem isNumber_text : isNumber n.text = true := by
  have hu := h.isUnsigned_eq
  obtain ⟨c, cs, hw, hc⟩ := h.head_isDigit
  rw [Numeral.text]
  rcases h.sign with hs | hs
  · rw [hs, List.nil_append]
    rw [hw] at hu ⊢
    unfold isNumber
    split
    · rename_i heq
      obtain rfl : c = '-' := (List.cons.inj heq).1
      cases hc
    · exact hu
  · rw [hs]
    exact hu

/-- A numeral is read as what it was put together from. -/
theorem split?_text : Numeral.split? n.text = some (n, []) := by
  have hsign : splitSign n.text = (n.sign, n.whole ++ (n.fraction.elim [] ('.' :: ·) ++ n.exponent)) := by
    obtain ⟨c, cs, hw, hc⟩ := h.head_isDigit
    rw [Numeral.text]
    rcases h.sign with hs | hs
    · have hplus := ne_of_class hc '+' rfl
      have hminus := ne_of_class hc '-' rfl
      rw [hs, hw]
      simp [splitSign, hplus, hminus]
    · rw [hs]
      rfl
  rw [Numeral.split?, hsign]
  simp only [h.splitDigits_eq, h.fraction.splitPoint_eq h.exponent, h.exponent.splitExponent_eq]
  rw [if_neg fun hnone => h.whole_ne_nil hnone.1]

end IsNumeral

/-! ### Whole numbers -/

theorem isPlain_of_head? {cs : List Char} (hne : cs ≠ []) (h : cs.head? ≠ some '0') : isPlain cs = true := by
  obtain ⟨c, cs, rfl⟩ := List.exists_cons_of_ne_nil hne
  have hc : c ≠ '0' := by simpa using h
  simp [isPlain, hc]

theorem isPlain_digitChars (n : Nat) : isPlain (digitChars n) = true := by
  by_cases hn : n = 0
  · rw [hn]
    rfl
  · exact isPlain_of_head? (digitChars_ne_nil n) (head?_digitChars n hn)

theorem forall_isDigit_digitChars (n : Nat) : ∀ c ∈ digitChars n, isDigit c = true :=
  fun _ => isDigit_of_mem_digitChars

def integerNumeral (n : Int) : Numeral := ⟨if n < 0 then ['-'] else [], digitChars n.natAbs, none, []⟩

theorem text_integerNumeral (n : Int) : (integerNumeral n).text = integerLiteral n := by
  cases n with
  | ofNat n => simp [integerNumeral, Numeral.text, integerLiteral]
  | negSucc n => simp [integerNumeral, Numeral.text, integerLiteral, Int.negSucc_lt_zero]

theorem isNumeral_integerNumeral (n : Int) : IsNumeral (integerNumeral n) where
  sign := by
    unfold integerNumeral
    split
    · exact .inr rfl
    · exact .inl rfl
  plain := isPlain_digitChars _
  whole := forall_isDigit_digitChars _
  fraction := .none
  exponent := .none

theorem integerLiteral_eq (n : Int) : integerLiteral n = (toString n).toList := by
  cases n with
  | ofNat n => exact Nat.toList_repr.symm
  | negSucc n =>
    show _ = ("-" ++ (n + 1).repr).toList
    rw [String.toList_append, Nat.toList_repr]
    rfl

/-! ### Decimals -/

/-- A minus sign, if there is to be one. -/
def minus (negative : Bool) : List Char := if negative then ['-'] else []

/-- With all digits in their places. -/
def positionalNumeral (negative : Bool) (d : Decimal) : Numeral :=
  ⟨minus negative, d.positional.1, some (if d.positional.2.isEmpty then ['0'] else d.positional.2), []⟩

/-- With an exponent. -/
def scientificNumeral (negative : Bool) (d : Decimal) : Numeral :=
  let (first, others, exponent) := d.scientific
  ⟨minus negative, [first], if others.isEmpty then none else some others,
    'e' :: (if exponent < 0 then '-' else '+') :: digitChars exponent.natAbs⟩

def decimalNumeral (negative : Bool) (d : Decimal) : Numeral :=
  if isScientific d then scientificNumeral negative d else positionalNumeral negative d

theorem text_decimalNumeral (negative : Bool) (d : Decimal) :
    (decimalNumeral negative d).text = if negative then '-' :: decimalLiteral d else decimalLiteral d := by
  unfold decimalNumeral decimalLiteral
  by_cases h : isScientific d
  · by_cases ho : d.scientific.2.1 = [] <;> cases negative <;> simp [h, ho, Numeral.text, scientificNumeral, minus]
  · cases negative <;> simp [h, Numeral.text, positionalNumeral, minus]

theorem isSign_minus (negative : Bool) : minus negative = [] ∨ minus negative = ['-'] := by
  cases negative
  · exact .inl rfl
  · exact .inr rfl

theorem isDigit_replicate_zero (n : Nat) : ∀ c ∈ List.replicate n '0', isDigit c = true := by
  intro c hc
  rw [List.eq_of_mem_replicate hc]
  rfl

/-- The digits before the point have no zeros in front. For the decimal zero an exponent would add some. -/
theorem isPlain_positional {d : Decimal} (h : d.digits = 0 → d.exponent ≤ 0) : isPlain d.positional.1 = true := by
  have hplain := isPlain_digitChars d.digits
  have hne := digitChars_ne_nil d.digits
  have hhead := head?_digitChars d.digits
  unfold Decimal.positional
  simp only
  split
  · rename_i hexponent
    by_cases hzero : d.digits = 0
    · have hnone : d.exponent.toNat = 0 := by have := h hzero; omega
      rw [hnone]
      simpa using hplain
    · refine isPlain_of_head? (by simp [hne]) ?_
      rw [List.head?_append, List.head?_eq_some_head hne, Option.some_or, ← List.head?_eq_some_head hne]
      exact hhead hzero
  split
  · rename_i hexponent hpoint
    have hzero : d.digits ≠ 0 := by
      intro hzero
      have hone : (digitChars d.digits).length = 1 := by rw [hzero]; rfl
      rw [Decimal.point, hone] at hpoint
      omega
    obtain ⟨k, hk⟩ : ∃ k, d.point.toNat = k + 1 := ⟨d.point.toNat - 1, by omega⟩
    obtain ⟨c, cs, hc⟩ := List.exists_cons_of_ne_nil hne
    rw [hk, hc]
    rw [hc] at hhead
    exact isPlain_of_head? (by simp) (hhead hzero)
  · rfl

theorem isDigit_positional (d : Decimal) :
    (∀ c ∈ d.positional.1, isDigit c = true) ∧ ∀ c ∈ d.positional.2, isDigit c = true := by
  have hdigits := forall_isDigit_digitChars d.digits
  unfold Decimal.positional
  simp only
  split
  · exact ⟨List.forall_mem_append.mpr ⟨hdigits, isDigit_replicate_zero _⟩, by simp⟩
  split
  · exact ⟨fun c hc => hdigits c (List.mem_of_mem_take hc), fun c hc => hdigits c (List.mem_of_mem_drop hc)⟩
  · exact ⟨List.forall_mem_singleton.mpr rfl, List.forall_mem_append.mpr ⟨isDigit_replicate_zero _, hdigits⟩⟩

/-- The digits on both sides of the point, counted in the last place. -/
theorem value_positional (d : Decimal) :
    (digitsValue (d.positional.1 ++ d.positional.2) : ℚ) * 10 ^ (-(d.positional.2.length : Int)) = d.value := by
  have hlength := Decimal.point.eq_1 d
  unfold Decimal.positional
  simp only
  split
  · rename_i hexponent
    rw [List.append_nil, digitsValue_append_zeros, digitsValue_digitChars, Decimal.value]
    push_cast
    rw [pow_toNat 10 hexponent]
    simp [mul_comm]
  split
  · rename_i hexponent hpoint
    rw [List.take_append_drop, digitsValue_digitChars, List.length_drop, Decimal.value]
    congr 2
    omega
  · rename_i hexponent hpoint
    have hzeros : digitsValue (['0'] ++ (List.replicate (-d.point).toNat '0' ++ digitChars d.digits)) = d.digits := by
      rw [← List.append_assoc, ← List.replicate_one, List.replicate_append_replicate, digitsValue_zeros_append,
        digitsValue_digitChars]
    rw [hzeros, List.length_append, List.length_replicate, Decimal.value]
    congr 2
    omega

/-- The digits, the first and the others, and where the point goes. -/
theorem scientific_spec (d : Decimal) : ∃ first others,
    d.scientific = (first, others, d.point - 1) ∧ digitChars d.digits = first :: others := by
  obtain ⟨c, cs, hc⟩ := List.exists_cons_of_ne_nil (digitChars_ne_nil d.digits)
  exact ⟨c, cs, by rw [Decimal.scientific, hc], hc⟩

theorem isExponent (exponent : Int) :
    IsExponent ('e' :: (if exponent < 0 then '-' else '+') :: digitChars exponent.natAbs) := by
  refine .digits ?_ (forall_isDigit_digitChars _) (digitChars_ne_nil _)
  split
  · exact .inr rfl
  · exact .inl rfl

theorem exponentValue_eq (exponent : Int) :
    Numeral.exponentValue ('e' :: (if exponent < 0 then '-' else '+') :: digitChars exponent.natAbs) = exponent := by
  have hsign : ∀ (c : Char) (ds : List Char), c = '+' ∨ c = '-' → splitSign (c :: ds) = ([c], ds) := by
    rintro c ds (rfl | rfl) <;> rfl
  split
  · rename_i h
    rw [Numeral.exponentValue, hsign _ _ (.inr rfl)]
    simp only [digitsValue_digitChars, if_true]
    omega
  · rename_i h
    rw [Numeral.exponentValue, hsign _ _ (.inl rfl)]
    simp only [digitsValue_digitChars]
    rw [if_neg (by decide)]
    omega

theorem isNumeral_positionalNumeral (negative : Bool) {d : Decimal} (h : d.digits = 0 → d.exponent ≤ 0) :
    IsNumeral (positionalNumeral negative d) where
  sign := isSign_minus negative
  plain := isPlain_positional h
  whole := (isDigit_positional d).1
  fraction := by
    unfold positionalNumeral
    simp only
    split
    · exact .digits (List.forall_mem_singleton.mpr rfl) (by decide)
    · rename_i hne
      exact .digits (isDigit_positional d).2 (by simpa using hne)
  exponent := .none

theorem isNumeral_scientificNumeral (negative : Bool) (d : Decimal) : IsNumeral (scientificNumeral negative d) := by
  obtain ⟨first, others, hs, hd⟩ := scientific_spec d
  have hdigits := forall_isDigit_digitChars d.digits
  rw [hd, List.forall_mem_cons] at hdigits
  rw [scientificNumeral, hs]
  refine ⟨isSign_minus negative, by simp [isPlain], List.forall_mem_singleton.mpr hdigits.1, ?_, isExponent _⟩
  simp only
  split
  · exact .none
  · rename_i hne
    exact .digits hdigits.2 (by simpa using hne)

theorem isNumeral_decimalNumeral (negative : Bool) {d : Decimal} (h : d.digits = 0 → d.exponent ≤ 0) :
    IsNumeral (decimalNumeral negative d) := by
  unfold decimalNumeral
  split
  · exact isNumeral_scientificNumeral negative d
  · exact isNumeral_positionalNumeral negative h

/-! ### What numerals say -/

/-- What a numeral says, without its sign. -/
def magnitude (n : Numeral) : ℚ :=
  digitsValue (n.whole ++ n.fraction.getD []) * 10 ^ (Numeral.exponentValue n.exponent - (n.fraction.getD []).length)

theorem magnitude_integerNumeral (n : Int) : magnitude (integerNumeral n) = n.natAbs := by
  simp [magnitude, integerNumeral, digitsValue_digitChars, Numeral.exponentValue]

theorem magnitude_positionalNumeral (negative : Bool) (d : Decimal) :
    magnitude (positionalNumeral negative d) = d.value := by
  have hvalue := value_positional d
  rw [magnitude, positionalNumeral]
  simp only [Option.getD_some, Numeral.exponentValue, zero_sub]
  split
  · rename_i hnone
    have hempty : d.positional.2 = [] := by simpa using hnone
    rw [hempty, List.append_nil] at hvalue
    rw [← hvalue, ← List.replicate_one, digitsValue_append_zeros]
    push_cast
    simp
    ring
  · exact hvalue

theorem magnitude_scientificNumeral (negative : Bool) (d : Decimal) :
    magnitude (scientificNumeral negative d) = d.value := by
  obtain ⟨first, others, hs, hd⟩ := scientific_spec d
  have hlength : (digitChars d.digits).length = others.length + 1 := by rw [hd]; rfl
  have hfraction : (if others.isEmpty then none else some others).getD [] = others := by
    cases others <;> rfl
  have hpoint := Decimal.point.eq_1 d
  rw [magnitude, scientificNumeral, hs]
  simp only [hfraction, exponentValue_eq]
  rw [← List.singleton_append (l := others)] at hd
  rw [← hd, digitsValue_digitChars, Decimal.value]
  congr 2
  omega

theorem magnitude_decimalNumeral (negative : Bool) (d : Decimal) :
    magnitude (decimalNumeral negative d) = d.value := by
  unfold decimalNumeral
  split
  · exact magnitude_scientificNumeral negative d
  · exact magnitude_positionalNumeral negative d

end Timeline.Json
