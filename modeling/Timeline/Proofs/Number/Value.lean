import Mathlib.Algebra.Order.Field.Power
import Mathlib.Data.Rat.Cast.Order
import Mathlib.Tactic.Linarith
import Mathlib.Tactic.Positivity
import Timeline.Proofs.Number.Interval

/-! The exact value of a number. But for zero, which has two signs, a number is told by its value. -/
namespace Timeline.Number.Double

/-- The value of a finite number. Zero has one value, whatever its sign. -/
def value? : Double → Option ℚ
  | finite negative significand exponent =>
    some ((if negative then -1 else 1) * (significand * (2 : ℚ) ^ exponent))
  | _ => none

/-- A magnitude is whole exactly if shifting its significand loses nothing. -/
theorem magnitude?_eq_some_iff (significand : Nat) (exponent : Int) (m : Nat) :
    magnitude? significand exponent = some m ↔ significand * (2 : ℚ) ^ exponent = m := by
  by_cases hzero : significand = 0
  · subst hzero
    simp [magnitude?, eq_comm]
  by_cases hexponent : 0 ≤ exponent
  · obtain ⟨k, rfl⟩ := Int.eq_ofNat_of_zero_le hexponent
    simp only [magnitude?, hzero, hexponent, if_false, if_true, Int.toNat_natCast, zpow_natCast, Option.some.injEq,
      Nat.pow_eq]
    norm_cast
  · obtain ⟨k, hk⟩ := Int.eq_ofNat_of_zero_le (show 0 ≤ -exponent by omega)
    obtain rfl : exponent = -(k : Int) := by omega
    have hpos : 0 < 2 ^ k := Nat.two_pow_pos k
    have hvalue : (significand : ℚ) * 2 ^ (-(k : Int)) = m ↔ significand = m * 2 ^ k := by
      rw [zpow_neg, zpow_natCast, mul_inv_eq_iff_eq_mul₀ (by positivity)]
      norm_cast
    rw [hvalue]
    simp only [magnitude?, hzero, hexponent, if_false, neg_neg, Int.toNat_natCast, Nat.pow_eq]
    split
    · rename_i hmod
      rw [Option.some.injEq, Nat.div_eq_iff_eq_mul_left hpos (Nat.dvd_of_mod_eq_zero hmod)]
    · rename_i hmod
      refine iff_of_false (by simp) fun h => hmod ?_
      rw [h, Nat.mul_mod_left]

/-- A number is whole if its value is an integer, which is then the one that is given. -/
theorem toInt?_eq_some_iff (x : Double) (n : Int) : x.toInt? = some n ↔ x.value? = some (n : ℚ) := by
  cases x with
  | nan => simp [toInt?, value?]
  | infinite negative => simp [toInt?, value?]
  | finite negative significand exponent =>
    simp only [toInt?, value?, Option.map_eq_some_iff, magnitude?_eq_some_iff, Option.some.injEq]
    have hnonneg : (0 : ℚ) ≤ significand * 2 ^ exponent := by positivity
    generalize (significand : ℚ) * 2 ^ exponent = magnitude at hnonneg ⊢
    constructor
    · rintro ⟨m, rfl, rfl⟩
      cases negative <;> simp
    · intro h
      cases negative with
      | false =>
        have h : magnitude = n := by simpa using h
        rw [h] at hnonneg
        have hn : 0 ≤ n := by exact_mod_cast hnonneg
        refine ⟨n.natAbs, ?_, by simpa using hn⟩
        rw [h, Nat.cast_natAbs, abs_of_nonneg hn]
      | true =>
        have h : magnitude = -n := by linarith [show -1 * magnitude = n from h]
        rw [h] at hnonneg
        have hn : n ≤ 0 := by exact_mod_cast neg_nonneg.mp hnonneg
        refine ⟨n.natAbs, ?_, by simp [abs_of_nonpos hn]⟩
        rw [h, Nat.cast_natAbs, abs_of_nonpos hn, Int.cast_neg]

/-- Numbers of the same value are the same, if it is not zero. -/
theorem eq_of_value? {x y : Double} (hx : x.IsCanonical) (hy : y.IsCanonical) {v : ℚ} (hv : v ≠ 0)
    (hxv : x.value? = some v) (hyv : y.value? = some v) : x = y := by
  cases x with
  | nan => cases hxv
  | infinite => cases hxv
  | finite negative significand exponent =>
    cases y with
    | nan => cases hyv
    | infinite => cases hyv
    | finite negative' significand' exponent' =>
      simp only [value?, Option.some.injEq] at hxv hyv
      have hpos : ∀ {s : Nat} {e : Int} {c : ℚ}, c * (s * 2 ^ e : ℚ) = v → 0 < s := by
        rintro s e c rfl
        refine Nat.pos_of_ne_zero fun hzero => hv ?_
        rw [hzero, Nat.cast_zero, zero_mul, mul_zero]
      have hs := hpos hxv
      have hs' := hpos hyv
      have hmagnitude : (0 : ℚ) < significand * 2 ^ exponent := by
        have := two_zpow_pos exponent
        positivity
      have hmagnitude' : (0 : ℚ) < significand' * 2 ^ exponent' := by
        have := two_zpow_pos exponent'
        positivity
      rw [← hyv] at hxv
      obtain rfl : negative = negative' := by
        cases negative <;> cases negative' <;> simp at hxv <;> first | rfl | linarith
      have hsame : (significand * 2 ^ exponent : ℚ) = significand' * 2 ^ exponent' := by
        cases negative <;> simpa using hxv
      obtain ⟨rfl, rfl⟩ := Canonical.eq_of_magnitude hx hy hs hs' hsame
      rfl

end Timeline.Number.Double
