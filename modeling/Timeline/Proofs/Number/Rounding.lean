import Mathlib.Algebra.Order.Field.Power
import Mathlib.Tactic.Linarith
import Mathlib.Tactic.Positivity
import Mathlib.Tactic.Ring
import Mathlib.Tactic.SplitIfs
import Timeline.Number.Double

/-! Rounding to the nearest number.

A quotient gets the exponent with which its significand has 53 binary digits, or the least exponent
(`exponentOf_spec`), and a significand at most half a unit away (`roundDiv_eq`). So every number that is read has
the one form that numbers have (`canonical_ofDecimal`). -/
namespace Timeline.Number

/-! ### Quotients -/

/-- A quotient at most half a unit from a natural is rounded to it, if the natural is even or the quotient is
nearer than that. -/
theorem roundDiv_eq {n d m : Nat} (hd : 0 < d) (hlow : 2 * (m * d) ≤ 2 * n + d) (hhigh : 2 * n ≤ 2 * (m * d) + d)
    (htie : m % 2 = 0 ∨ 2 * (m * d) < 2 * n + d ∧ 2 * n < 2 * (m * d) + d) : roundDiv n d = m := by
  have h := Nat.div_add_mod' n d
  have hr := Nat.mod_lt n hd
  unfold roundDiv
  simp only
  generalize n / d = q at *
  generalize n % d = r at *
  subst h
  have hsucc : (q + 1) * d = q * d + d := Nat.succ_mul q d
  have hge : q ≤ m := by
    by_contra hlt
    have hle : (m + 1) * d ≤ q * d := Nat.mul_le_mul_right d (by omega)
    rw [Nat.succ_mul] at hle
    omega
  have hle : m ≤ q + 1 := by
    by_contra hlt
    have hle : (q + 1 + 1) * d ≤ m * d := Nat.mul_le_mul_right d (by omega)
    rw [Nat.succ_mul, hsucc] at hle
    omega
  obtain rfl | rfl : m = q ∨ m = q + 1 := by omega
  · rw [if_neg (by omega)]
  · rw [if_pos (by omega)]

/-- The same for the quotient as a rational. -/
theorem roundDiv_of_quotient {n d m : Nat} {q : ℚ} (hd : 0 < d) (hq : (n : ℚ) / d = q) (hlow : m - 1 / 2 ≤ q)
    (hhigh : q ≤ m + 1 / 2) (htie : m % 2 = 0 ∨ m - 1 / 2 < q ∧ q < m + 1 / 2) : roundDiv n d = m := by
  have hpos : (0 : ℚ) < d := by exact_mod_cast hd
  have hn : (n : ℚ) = q * d := (div_eq_iff hpos.ne').mp hq
  have hmid : ((m : ℚ) - 1 / 2) * d = m * d - d / 2 := by ring
  have hmid' : ((m : ℚ) + 1 / 2) * d = m * d + d / 2 := by ring
  have hlow := mul_le_mul_of_nonneg_right hlow hpos.le
  have hhigh := mul_le_mul_of_nonneg_right hhigh hpos.le
  rw [hmid, ← hn] at hlow
  rw [hmid', ← hn] at hhigh
  refine roundDiv_eq hd ?_ ?_ (htie.imp id fun ⟨hl, hh⟩ => ?_)
  · have : (2 * (m * d) : ℚ) ≤ 2 * n + d := by linarith
    exact_mod_cast this
  · have : (2 * n : ℚ) ≤ 2 * (m * d) + d := by linarith
    exact_mod_cast this
  · have hl := mul_lt_mul_of_pos_right hl hpos
    have hh := mul_lt_mul_of_pos_right hh hpos
    rw [hmid, ← hn] at hl
    rw [hmid', ← hn] at hh
    have hl : (2 * (m * d) : ℚ) < 2 * n + d := by linarith
    have hh : (2 * n : ℚ) < 2 * (m * d) + d := by linarith
    exact ⟨by exact_mod_cast hl, by exact_mod_cast hh⟩

theorem roundDiv_le {n d m : Nat} (hd : 0 < d) (h : n < m * d) : roundDiv n d ≤ m := by
  have hnear := (roundDiv_nearest n d hd).2
  by_contra hgt
  have hle : (m + 1) * d ≤ roundDiv n d * d := Nat.mul_le_mul_right d (by omega)
  rw [Nat.succ_mul] at hle
  omega

theorem le_roundDiv {n d m : Nat} (hd : 0 < d) (h : m * d ≤ n) : m ≤ roundDiv n d := by
  have hnear := (roundDiv_nearest n d hd).1
  by_contra hlt
  have hle : (roundDiv n d + 1) * d ≤ m * d := Nat.mul_le_mul_right d (by omega)
  rw [Nat.succ_mul] at hle
  omega

namespace Double

variable {significand : Nat} {exponent : Int} {n d : Nat}

/-! ### Scaling -/

theorem two_zpow_pos (e : Int) : (0 : ℚ) < 2 ^ e := by positivity

theorem zpow_lt_iff {a b : Int} : (2 : ℚ) ^ a < 2 ^ b ↔ a < b := zpow_lt_zpow_iff_right₀ (by norm_num)

theorem zpow_eq {a e : Int} (k : Nat) (h : a = e + k) : (2 : ℚ) ^ a = 2 ^ k * 2 ^ e := by
  rw [h, zpow_add₀ (by norm_num), zpow_natCast, mul_comm]

theorem scale_spec (n : Nat) {d : Nat} (hd : 0 < d) (e : Int) :
    0 < (scale n d e).2 ∧ ((scale n d e).1 : ℚ) / (scale n d e).2 = (n / d : ℚ) / 2 ^ e := by
  unfold scale
  split
  · rename_i he
    obtain ⟨k, rfl⟩ := Int.eq_ofNat_of_zero_le he
    refine ⟨Nat.mul_pos hd (Nat.two_pow_pos k), ?_⟩
    simp only [Int.toNat_natCast, Nat.pow_eq, zpow_natCast]
    push_cast
    rw [div_div]
  · rename_i he
    obtain ⟨k, rfl⟩ : ∃ k : Nat, e = -(k : Int) := ⟨(-e).toNat, by omega⟩
    refine ⟨hd, ?_⟩
    simp only [neg_neg, Int.toNat_natCast, Nat.pow_eq, zpow_neg, zpow_natCast]
    push_cast
    rw [div_inv_eq_mul, mul_div_right_comm]

/-- The binary length of a quotient, up to one. -/
theorem quotient_between {n d : Nat} (hn : 0 < n) (hd : 0 < d) :
    (2 : ℚ) ^ ((n.log2 : Int) - d.log2 - 1) < n / d ∧ (n / d : ℚ) < 2 ^ ((n.log2 : Int) - d.log2 + 1) := by
  have hpos : (0 : ℚ) < d := by exact_mod_cast hd
  have hnlow : (2 : ℚ) ^ n.log2 ≤ n := by exact_mod_cast Nat.log2_self_le hn.ne'
  have hnhigh : (n : ℚ) < 2 ^ (n.log2 + 1) := by exact_mod_cast Nat.lt_log2_self
  have hdlow : (2 : ℚ) ^ d.log2 ≤ d := by exact_mod_cast Nat.log2_self_le hd.ne'
  have hdhigh : (d : ℚ) < 2 ^ (d.log2 + 1) := by exact_mod_cast Nat.lt_log2_self
  have hlow : (2 : ℚ) ^ ((n.log2 : Int) - d.log2 - 1) * 2 ^ (d.log2 + 1) = 2 ^ n.log2 := by
    rw [← zpow_natCast, ← zpow_natCast, ← zpow_add₀ (by norm_num)]
    congr 1
    push_cast
    ring
  have hhigh : (2 : ℚ) ^ ((n.log2 : Int) - d.log2 + 1) * 2 ^ d.log2 = 2 ^ (n.log2 + 1) := by
    rw [← zpow_natCast, ← zpow_natCast, ← zpow_add₀ (by norm_num)]
    congr 1
    push_cast
    ring
  constructor
  · rw [lt_div_iff₀ hpos]
    calc (2 : ℚ) ^ ((n.log2 : Int) - d.log2 - 1) * d
        < 2 ^ ((n.log2 : Int) - d.log2 - 1) * 2 ^ (d.log2 + 1) := by gcongr
      _ ≤ n := hlow.trans_le hnlow
  · rw [div_lt_iff₀ hpos]
    calc (n : ℚ) < 2 ^ ((n.log2 : Int) - d.log2 + 1) * 2 ^ d.log2 := hnhigh.trans_eq hhigh.symm
      _ ≤ 2 ^ ((n.log2 : Int) - d.log2 + 1) * d := by gcongr

/-- The exponent is the one with which the significand has 53 binary digits, or the least. -/
theorem exponentOf_spec {n d : Nat} (hn : 0 < n) (hd : 0 < d) :
    ∃ k : Int, exponentOf n d = max leastExponent k ∧ 2 ^ (k + 52) ≤ (n / d : ℚ) ∧ (n / d : ℚ) < 2 ^ (k + 53) := by
  obtain ⟨hlow, hhigh⟩ := quotient_between hn hd
  obtain ⟨hscale, hquotient⟩ := scale_spec n hd ((n.log2 : Int) - d.log2 - 53)
  unfold exponentOf
  simp only
  generalize (n.log2 : Int) - d.log2 = l at *
  generalize scale n d (l - 53) = ab at hscale hquotient
  obtain ⟨a, b⟩ := ab
  have hb : (0 : ℚ) < b := by exact_mod_cast hscale
  have hiff : a < Nat.pow 2 53 * b ↔ (n / d : ℚ) < 2 ^ l := by
    have hpow : (2 : ℚ) ^ l = 2 ^ (53 : Nat) * 2 ^ (l - 53) := by
      rw [← zpow_natCast, ← zpow_add₀ (by norm_num)]
      congr 1
      omega
    rw [hpow, ← div_lt_iff₀ (two_zpow_pos _), ← hquotient, div_lt_iff₀ hb]
    exact_mod_cast Iff.rfl
  split
  · rename_i h
    refine ⟨l - 53, rfl, ?_, ?_⟩
    · rw [show l - 53 + 52 = l - 1 by omega]
      exact hlow.le
    · rw [sub_add_cancel]
      exact hiff.mp h
  · rename_i h
    refine ⟨l - 53 + 1, rfl, ?_, ?_⟩
    · rw [show l - 53 + 1 + 52 = l by omega]
      exact not_lt.mp fun hlt => h (hiff.mpr hlt)
    · rw [show l - 53 + 1 + 53 = l + 1 by omega]
      exact hhigh

/-- The significand of a quotient at most half a unit away. -/
theorem roundDiv_scale {m : Nat} (hd : 0 < d) (hlow : (m - 1 / 2 : ℚ) * 2 ^ exponent ≤ n / d)
    (hhigh : (n / d : ℚ) ≤ (m + 1 / 2) * 2 ^ exponent)
    (htie : m % 2 = 0 ∨ (m - 1 / 2 : ℚ) * 2 ^ exponent < n / d ∧ (n / d : ℚ) < (m + 1 / 2) * 2 ^ exponent) :
    roundDiv (scale n d exponent).1 (scale n d exponent).2 = m := by
  have hpos := two_zpow_pos exponent
  obtain ⟨hscale, hquotient⟩ := scale_spec n hd exponent
  refine roundDiv_of_quotient hscale hquotient ?_ ?_ (htie.imp id fun ⟨hl, hh⟩ => ⟨?_, ?_⟩)
  · rwa [le_div_iff₀ hpos]
  · rwa [div_le_iff₀ hpos]
  · rwa [lt_div_iff₀ hpos]
  · rwa [div_lt_iff₀ hpos]

/-! ### Canonical numbers -/

/-- A significand and an exponent in the one form that numbers have. -/
structure Canonical (significand : Nat) (exponent : Int) : Prop where
  lt : significand < 2 ^ 53
  least_le : leastExponent ≤ exponent
  le_greatest : exponent ≤ greatestExponent
  normal : exponent = leastExponent ∨ 2 ^ 52 ≤ significand

def IsCanonical : Double → Prop
  | finite _ significand exponent => Canonical significand exponent
  | _ => True

theorem canonical_zero (negative : Bool) : (zero negative).IsCanonical :=
  ⟨by decide, le_rfl, by decide, .inl rfl⟩

theorem canonical_ofQuotient (negative : Bool) (n : Nat) (hd : 0 < d) : (ofQuotient negative n d).IsCanonical := by
  rw [ofQuotient]
  split
  · exact canonical_zero negative
  rename_i hn
  obtain ⟨k, hk, hlow, hhigh⟩ := exponentOf_spec (Nat.pos_of_ne_zero hn) hd
  have hleast : leastExponent ≤ exponentOf n d := by omega
  obtain ⟨hscale, hquotient⟩ := scale_spec n hd (exponentOf n d)
  have hb : (0 : ℚ) < (scale n d (exponentOf n d)).2 := by exact_mod_cast hscale
  have hpos := two_zpow_pos (exponentOf n d)
  have hle : roundDiv (scale n d (exponentOf n d)).1 (scale n d (exponentOf n d)).2 ≤ 2 ^ 53 := by
    refine roundDiv_le hscale ?_
    have hpow : (2 : ℚ) ^ (exponentOf n d + 53) = 2 ^ 53 * 2 ^ exponentOf n d := zpow_eq 53 rfl
    have hlt : (n / d : ℚ) / 2 ^ exponentOf n d < 2 ^ 53 := by
      rw [div_lt_iff₀ hpos, ← hpow]
      exact hhigh.trans_le (zpow_le_zpow_right₀ (by norm_num) (by omega))
    rw [← hquotient, div_lt_iff₀ hb] at hlt
    exact_mod_cast hlt
  have hnormal : exponentOf n d = leastExponent ∨
      2 ^ 52 ≤ roundDiv (scale n d (exponentOf n d)).1 (scale n d (exponentOf n d)).2 := by
    refine or_iff_not_imp_left.mpr fun hne => le_roundDiv hscale ?_
    have heq : exponentOf n d = k := by omega
    have hpow : (2 : ℚ) ^ (k + 52) = 2 ^ 52 * 2 ^ k := zpow_eq 52 rfl
    have hge : (2 : ℚ) ^ 52 ≤ (n / d : ℚ) / 2 ^ exponentOf n d := by
      rw [le_div_iff₀ hpos, heq, ← hpow]
      exact hlow
    rw [← hquotient, le_div_iff₀ hb] at hge
    exact_mod_cast hge
  -- Rounding up may reach 2^53, which is 2^52 under the next exponent.
  simp only [Nat.pow_eq]
  generalize roundDiv _ _ = m at hle hnormal
  generalize exponentOf n d = e at hleast hnormal
  by_cases hm : m = 2 ^ 53
  · simp only [hm, if_true]
    split
    · trivial
    · exact ⟨by decide, by omega, by omega, .inr le_rfl⟩
  · simp only [hm, if_false]
    split
    · trivial
    · exact ⟨by omega, hleast, by omega, hnormal⟩

theorem canonical_ofDecimal (negative : Bool) (digits : Nat) (power : Int) :
    (ofDecimal negative digits power).IsCanonical := by
  rw [ofDecimal]
  split_ifs
  · exact canonical_zero negative
  · trivial
  · exact canonical_ofQuotient negative _ one_pos
  · exact canonical_zero negative
  · exact canonical_ofQuotient negative _ (Nat.pow_pos (by omega))

end Double

end Timeline.Number
