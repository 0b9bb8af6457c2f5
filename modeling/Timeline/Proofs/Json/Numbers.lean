import Timeline.Proofs.Json.Numerals
import Timeline.Proofs.Number.Value

/-! Numbers of double precision in JSON.

The numeral for a number is read back as this number, but for the sign of zero (`value_numeral`): a whole
number of moderate size has all of its digits, and any other has its shortest decimal, which lies in its
interval. So numbers are written alike exactly if they have the same value (`ofDouble_eq_iff`). -/
namespace Timeline.Json

open Number

/-! ### Reading back -/

/-- A numeral is read as the number in whose interval it lies. -/
theorem value_of_contains {n : Numeral} {significand : Nat} {exponent : Int}
    (hc : Double.Canonical significand exponent) (hs : 0 < significand)
    (h : (Interval.around significand exponent).Contains (magnitude n)) :
    n.value = .finite (n.sign = ['-']) significand exponent :=
  Double.ofDecimal_of_contains _ hc hs h

theorem value_integerNumeral {significand m : Nat} {exponent : Int} (hc : Double.Canonical significand exponent)
    (hs : 0 < significand) (negative : Bool) (hm : (significand * 2 ^ exponent : ℚ) = m) :
    (integerNumeral (if negative then -(m : Int) else m)).value = .finite negative significand exponent := by
  have hmagnitude : magnitude (integerNumeral (if negative then -(m : Int) else m)) = significand * 2 ^ exponent := by
    rw [magnitude_integerNumeral, hm]
    cases negative <;> simp
  have hpos : 0 < m := by
    have := Double.two_zpow_pos exponent
    have : (0 : ℚ) < m := by
      rw [← hm]
      positivity
    exact_mod_cast this
  rw [value_of_contains hc hs (by rw [hmagnitude]; exact Interval.contains_around hs exponent)]
  congr 1
  cases negative <;> simp [integerNumeral, hpos]

theorem value_decimalNumeral {significand : Nat} {exponent : Int} (hc : Double.Canonical significand exponent)
    (hs : 0 < significand) (negative : Bool) :
    (decimalNumeral negative (shortest significand exponent)).value = .finite negative significand exponent := by
  have hsign : (decimalNumeral negative (shortest significand exponent)).sign = minus negative := by
    unfold decimalNumeral
    split <;> rfl
  rw [value_of_contains hc hs (by rw [magnitude_decimalNumeral]; exact shortest_contains hc hs), hsign]
  cases negative <;> rfl

/-! ### Writing -/

/-- The numeral for a number, if it is finite. -/
def numeral? (x : Double) : Option Numeral :=
  match x with
  | .finite negative significand exponent =>
    match x.toInt?.filter (·.natAbs ≤ greatestExact) with
    | some n => some (integerNumeral n)
    | none => some (decimalNumeral negative (shortest significand exponent))
  | _ => none

theorem ofDouble_eq (x : Double) : ofDouble x = (numeral? x).elim .null fun n => .number n.text := by
  cases x with
  | nan => rfl
  | infinite negative => rfl
  | finite negative significand exponent =>
    rw [ofDouble, numeral?]
    cases (Double.toInt? (.finite negative significand exponent)).filter (·.natAbs ≤ greatestExact) with
    | some n => exact congrArg Value.number (text_integerNumeral n).symm
    | none => exact congrArg Value.number (text_decimalNumeral negative _).symm

theorem isNumeral_of_numeral? {x : Double} {n : Numeral} (h : numeral? x = some n) : IsNumeral n := by
  cases x with
  | nan => cases h
  | infinite negative => cases h
  | finite negative significand exponent =>
    rw [numeral?] at h
    split at h
    · cases h
      exact isNumeral_integerNumeral _
    · rename_i hnone
      cases h
      have hs : 0 < significand := by
        rcases Nat.eq_zero_or_pos significand with rfl | hpos
        · cases negative <;> simp [Double.toInt?, Double.magnitude?] at hnone
        · exact hpos
      refine isNumeral_decimalNumeral _ fun hzero => ?_
      rcases digits_shortest hs exponent with hpos | hnone
      · omega
      · rw [hnone]

theorem isWritable_ofDouble (x : Double) : (ofDouble x).IsWritable := by
  rw [ofDouble_eq]
  cases h : numeral? x with
  | none => trivial
  | some n => exact (isNumeral_of_numeral? h).isNumber_text

/-- What is written for a number is read back as the number, but for the sign of zero. -/
theorem value_numeral {x : Double} {n : Numeral} (hx : x.IsCanonical) (h : numeral? x = some n) :
    n.value = x ∨ x = .zero true ∧ n.value = .zero false := by
  cases x with
  | nan => cases h
  | infinite negative => cases h
  | finite negative significand exponent =>
    rcases Nat.eq_zero_or_pos significand with rfl | hs
    · obtain rfl : exponent = Double.leastExponent := hx.normal.resolve_right (by omega)
      cases negative
      · cases h
        exact .inl rfl
      · cases h
        exact .inr ⟨rfl, rfl⟩
    · rw [numeral?] at h
      split at h
      · rename_i k hk
        cases h
        obtain ⟨hk, -⟩ := Option.filter_eq_some_iff.mp hk
        obtain ⟨m, hm, rfl⟩ := Option.map_eq_some_iff.mp hk
        exact .inl (value_integerNumeral hx hs negative ((Double.magnitude?_eq_some_iff _ _ _).mp hm))
      · cases h
        exact .inl (value_decimalNumeral hx hs negative)

/-- The number that a text stands for, if it is a numeral and nothing else. -/
def number? (text : List Char) : Option Double :=
  match Numeral.split? text with
  | some (n, []) => some n.value
  | _ => none

/-- How a number is written. -/
structure Writes (x : Double) (v : Value) : Prop where
  null_iff : v = .null ↔ x.value? = none
  whole : ∀ n : Int, x.value? = some (n : ℚ) → n.natAbs ≤ 2 ^ 53 → v = .number (toString n).toList
  other : ∀ negative significand exponent, x = .finite negative significand exponent →
    (∀ n : Int, x.value? = some (n : ℚ) → 2 ^ 53 < n.natAbs) →
    v = .number ((if negative then ['-'] else []) ++ decimalLiteral (shortest significand exponent))
  /-- The number can be read back; zero has no sign. -/
  back : ∀ text, v = .number text → number? text = some x ∨ x = .zero true ∧ number? text = some (.zero false)

theorem writes_ofDouble {x : Double} (hx : x.IsCanonical) : Writes x (ofDouble x) where
  null_iff := by
    rw [ofDouble_eq]
    cases x with
    | nan => simp [numeral?, Double.value?]
    | infinite negative => simp [numeral?, Double.value?]
    | finite negative significand exponent =>
      rw [numeral?]
      split <;> simp [Double.value?]
  whole n hn hle := by
    have hsome : x.toInt?.filter (·.natAbs ≤ greatestExact) = some n := by
      rw [(x.toInt?_eq_some_iff n).mpr hn, Option.filter_eq_some_iff]
      exact ⟨rfl, decide_eq_true hle⟩
    cases x with
    | nan => cases hn
    | infinite negative => cases hn
    | finite negative significand exponent =>
      rw [ofDouble, hsome]
      exact congrArg Value.number (integerLiteral_eq n)
  other negative significand exponent he hlarge := by
    subst he
    have hnone : (Double.toInt? (.finite negative significand exponent)).filter (·.natAbs ≤ greatestExact) = none := by
      rw [Option.filter_eq_none_iff]
      intro n hn
      have hn := hlarge n ((Double.toInt?_eq_some_iff _ n).mp hn)
      have hgreatest : greatestExact = 2 ^ 53 := rfl
      simpa [hgreatest] using hn
    rw [ofDouble, hnone]
    cases negative <;> rfl
  back text htext := by
    rw [ofDouble_eq] at htext
    cases h : numeral? x with
    | none =>
      rw [h] at htext
      cases htext
    | some n =>
      rw [h] at htext
      obtain rfl : n.text = text := Value.number.inj htext
      rw [number?, (isNumeral_of_numeral? h).split?_text]
      exact (value_numeral hx h).imp (congrArg some) (And.imp_right (congrArg some))

/-- Numbers are written alike if they have the same value, or no value at all. -/
theorem ofDouble_eq_iff {x y : Double} (hx : x.IsCanonical) (hy : y.IsCanonical) :
    ofDouble x = ofDouble y ↔ x.value? = y.value? := by
  have hwx := writes_ofDouble hx
  have hwy := writes_ofDouble hy
  constructor
  · intro h
    cases hn : numeral? x with
    | none =>
      have hnull : ofDouble x = .null := by rw [ofDouble_eq, hn]; rfl
      rw [hwx.null_iff.mp hnull, hwy.null_iff.mp (h.symm.trans hnull)]
    | some n =>
      have htext : ofDouble x = .number n.text := by rw [ofDouble_eq, hn]; rfl
      have hzero : (Double.zero true).value? = (Double.zero false).value? := by simp [Double.zero, Double.value?]
      rcases hwx.back _ htext with hxn | ⟨rfl, hxn⟩ <;> rcases hwy.back _ (h.symm.trans htext) with hyn | ⟨rfl, hyn⟩
      · rw [Option.some.inj (hxn.symm.trans hyn)]
      · rw [Option.some.inj (hxn.symm.trans hyn), hzero]
      · rw [hzero, Option.some.inj (hxn.symm.trans hyn)]
      · rfl
  · intro h
    cases hv : x.value? with
    | none => rw [hwx.null_iff.mpr hv, hwy.null_iff.mpr (h.symm.trans hv)]
    | some v =>
      by_cases hzero : v = 0
      · have hx0 : x.value? = some ((0 : Int) : ℚ) := by rw [hv, hzero, Int.cast_zero]
        rw [hwx.whole 0 hx0 (by decide), hwy.whole 0 (h.symm.trans hx0) (by decide)]
      · rw [Double.eq_of_value? hx hy hzero hv (h.symm.trans hv)]

end Timeline.Json
