import Timeline.Number.Shortest
import Timeline.Proofs.Number.Rounding

/-! Intervals of numbers.

Around each number that is not zero lies an interval of reals. Whatever lies in it, as a quotient of
naturals or as a decimal, is rounded to this number (`ofQuotient_of_contains`, `ofDecimal_of_contains`), so
that numbers of the same magnitude are the same. -/
namespace Timeline.Number

open Double

namespace Interval

def Contains (i : Interval) (v : ℚ) : Prop :=
  i.low * 2 ^ i.exponent < v ∧ v < i.high * 2 ^ i.exponent ∨
    i.closed = true ∧ i.low * 2 ^ i.exponent ≤ v ∧ v ≤ i.high * 2 ^ i.exponent

variable {significand : Nat} {exponent : Int} {v : ℚ}

theorem Contains.between {i : Interval} (h : i.Contains v) :
    i.low * 2 ^ i.exponent ≤ v ∧ v ≤ i.high * 2 ^ i.exponent := by
  rcases h with ⟨hlow, hhigh⟩ | ⟨-, h⟩
  · exact ⟨hlow.le, hhigh.le⟩
  · exact h

/-- A quarter of the last place. -/
theorem quarter (exponent : Int) : (2 : ℚ) ^ (exponent - 2) = 2 ^ exponent / 4 := by
  rw [zpow_sub₀ (by norm_num)]
  norm_num

theorem high_around (significand : Nat) (exponent : Int) :
    ((around significand exponent).high : ℚ) * 2 ^ (around significand exponent).exponent =
      (significand + 1 / 2) * 2 ^ exponent := by
  simp only [around, quarter]
  push_cast
  ring

theorem low_around (hs : 0 < significand) (exponent : Int) :
    ((around significand exponent).low : ℚ) * 2 ^ (around significand exponent).exponent =
      (significand - if significand = 2 ^ 52 ∧ leastExponent < exponent then 1 / 4 else 1 / 2) * 2 ^ exponent := by
  simp only [around, quarter, Nat.pow_eq]
  split
  · rw [Nat.cast_sub (by omega)]
    push_cast
    ring
  · rw [Nat.cast_sub (by omega)]
    push_cast
    ring

/-- Half a unit away at most, counted in the last place, and below a power of two half as far. Exactly half a
unit away is near only if the significand is even. -/
structure Near (significand : Nat) (exponent : Int) (v : ℚ) : Prop where
  low : (significand - 1 / 2 : ℚ) * 2 ^ exponent ≤ v
  high : v ≤ (significand + 1 / 2) * 2 ^ exponent
  power : significand = 2 ^ 52 → leastExponent < exponent → (significand - 1 / 4 : ℚ) * 2 ^ exponent ≤ v
  tie : significand % 2 = 0 ∨ (significand - 1 / 2 : ℚ) * 2 ^ exponent < v ∧ v < (significand + 1 / 2) * 2 ^ exponent

theorem Contains.near (hs : 0 < significand) (h : (around significand exponent).Contains v) :
    Near significand exponent v := by
  have hpos := two_zpow_pos exponent
  have hmore : (significand - 1 / 2 : ℚ) * 2 ^ exponent ≤
      (significand - if significand = 2 ^ 52 ∧ leastExponent < exponent then 1 / 4 else 1 / 2) * 2 ^ exponent := by
    gcongr
    split <;> norm_num
  have hbetween := h.between
  rw [low_around hs, high_around] at hbetween
  refine ⟨hmore.trans hbetween.1, hbetween.2, fun hp he => ?_, ?_⟩
  · have hlow := hbetween.1
    rwa [if_pos ⟨hp, he⟩] at hlow
  · rcases h with h | ⟨heven, -⟩
    · rw [low_around hs, high_around] at h
      exact .inr ⟨hmore.trans_lt h.1, h.2⟩
    · exact .inl (by simpa [Interval.around] using heven)

/-- A number lies in its interval. -/
theorem contains_around (hs : 0 < significand) (exponent : Int) :
    (around significand exponent).Contains (significand * 2 ^ exponent) := by
  have hpos := two_zpow_pos exponent
  refine .inl ⟨?_, ?_⟩
  · rw [low_around hs]
    gcongr
    split <;> norm_num
  · rw [high_around]
    gcongr
    norm_num

end Interval

namespace Double

variable {significand : Nat} {exponent : Int} {n d : Nat} {v : ℚ}

/-! ### Rounding within an interval -/

/-- Nothing near a number needs a longer significand. -/
theorem lt_of_near (hc : Canonical significand exponent) (h : Interval.Near significand exponent v) :
    v < 2 ^ (exponent + 53) := by
  have hpos := two_zpow_pos exponent
  have hsig : (significand : ℚ) + 1 ≤ 2 ^ 53 := by exact_mod_cast hc.lt
  have hpow : (2 : ℚ) ^ (exponent + 53) = 2 ^ 53 * 2 ^ exponent := zpow_eq 53 rfl
  rw [hpow]
  refine h.high.trans_lt ?_
  gcongr
  linarith

/-- Only near a power of two a shorter significand is needed, and then only one that is shorter by one digit. -/
theorem power_of_near (hc : Canonical significand exponent) (h : Interval.Near significand exponent v)
    (hleast : leastExponent < exponent) (hbelow : v < 2 ^ (exponent + 52)) :
    significand = 2 ^ 52 ∧ 2 ^ (exponent + 51) ≤ v := by
  have hpos := two_zpow_pos exponent
  have hbottom : (2 : ℚ) ^ (exponent + 52) = 2 ^ 52 * 2 ^ exponent := zpow_eq 52 rfl
  obtain rfl : significand = 2 ^ 52 := by
    rcases hc.normal with he | hge
    · omega
    by_contra hne
    have hgt : (2 : ℚ) ^ 52 + 1 ≤ significand := by exact_mod_cast (show 2 ^ 52 + 1 ≤ significand by omega)
    have hle : (2 : ℚ) ^ 52 * 2 ^ exponent ≤ (significand - 1 / 2) * 2 ^ exponent := by
      gcongr
      linarith
    linarith [h.low]
  refine ⟨rfl, ?_⟩
  have hpow : (2 : ℚ) ^ (exponent + 51) = 2 ^ 51 * 2 ^ exponent := zpow_eq 51 rfl
  rw [hpow]
  refine le_trans ?_ h.low
  gcongr
  norm_num

/-- Where the units are those of the number, its significand is the nearest. -/
theorem ofQuotient_of_exponent (negative : Bool) (hc : Canonical significand exponent) (hn : 0 < n) (hd : 0 < d)
    (h : Interval.Near significand exponent (n / d)) (he : exponentOf n d = exponent) :
    ofQuotient negative n d = finite negative significand exponent := by
  have hlt := hc.lt
  have hle := hc.le_greatest
  rw [ofQuotient, if_neg hn.ne', he]
  simp only [roundDiv_scale hd h.low h.high h.tie, Nat.pow_eq, if_neg (show ¬ significand = 2 ^ 53 by omega)]
  exact if_neg (by omega)

/-- Below a power of two the units are half as large, and the nearest significand is one too long. -/
theorem ofQuotient_below_power (negative : Bool) (hc : Canonical (2 ^ 52) exponent) (hn : 0 < n) (hd : 0 < d)
    (h : Interval.Near (2 ^ 52) exponent (n / d)) (hleast : leastExponent < exponent)
    (hbelow : (n / d : ℚ) < 2 ^ (exponent + 52)) (he : exponentOf n d = exponent - 1) :
    ofQuotient negative n d = finite negative (2 ^ 52) exponent := by
  have hle := hc.le_greatest
  have hpos := two_zpow_pos (exponent - 1)
  have hlow := h.power rfl hleast
  have hhalf : (2 : ℚ) ^ exponent = 2 ^ 1 * 2 ^ (exponent - 1) := zpow_eq 1 (by omega)
  have hround : roundDiv (scale n d (exponent - 1)).1 (scale n d (exponent - 1)).2 = 2 ^ 53 := by
    refine roundDiv_scale hd ?_ ?_ (.inl rfl)
    · rw [hhalf] at hlow
      push_cast at hlow ⊢
      linarith
    · have hpow : (2 : ℚ) ^ (exponent + 52) = 2 ^ 53 * 2 ^ (exponent - 1) := zpow_eq 53 (by omega)
      rw [hpow] at hbelow
      push_cast at hbelow ⊢
      linarith
  rw [ofQuotient, if_neg hn.ne', he]
  simp only [hround, Nat.pow_eq, if_true, sub_add_cancel]
  exact if_neg (by omega)

/-- **A quotient in the interval of a number is rounded to it.** -/
theorem ofQuotient_of_contains (negative : Bool) (hc : Canonical significand exponent) (hs : 0 < significand)
    (hn : 0 < n) (hd : 0 < d) (h : (Interval.around significand exponent).Contains (n / d)) :
    ofQuotient negative n d = finite negative significand exponent := by
  have hnear := h.near hs
  have hleast := hc.least_le
  obtain ⟨k, hk, hlow, hhigh⟩ := exponentOf_spec hn hd
  have hle := zpow_lt_iff.mp (hlow.trans_lt (lt_of_near hc hnear))
  -- Below the least significand the quotient gets the next smaller exponent, if there is one.
  by_cases hbelow : leastExponent < exponent ∧ (n / d : ℚ) < 2 ^ (exponent + 52)
  · obtain ⟨hlt, hbelow⟩ := hbelow
    obtain ⟨rfl, hge⟩ := power_of_near hc hnear hlt hbelow
    have hkexponent := zpow_lt_iff.mp (hlow.trans_lt hbelow)
    have hexponentk := zpow_lt_iff.mp (hge.trans_lt hhigh)
    exact ofQuotient_below_power negative hc hn hd hnear hlt hbelow (by omega)
  · refine ofQuotient_of_exponent negative hc hn hd hnear ?_
    by_cases heq : exponent = leastExponent
    · omega
    have hge : (2 : ℚ) ^ (exponent + 52) ≤ n / d := not_lt.mp fun hlt => hbelow ⟨by omega, hlt⟩
    have hexponentk := zpow_lt_iff.mp (hge.trans_lt hhigh)
    omega

/-- Numbers of the same magnitude have the same form. -/
theorem Canonical.eq_of_magnitude {significand' : Nat} {exponent' : Int} (hc : Canonical significand exponent)
    (hc' : Canonical significand' exponent') (hs : 0 < significand) (hs' : 0 < significand')
    (h : (significand * 2 ^ exponent : ℚ) = significand' * 2 ^ exponent') :
    significand = significand' ∧ exponent = exponent' := by
  have hpos := two_zpow_pos exponent
  have hvalue : (0 : ℚ) < significand * 2 ^ exponent := by positivity
  obtain ⟨n, d, hn, hd, hquotient⟩ : ∃ n d : Nat, 0 < n ∧ 0 < d ∧ (n / d : ℚ) = significand * 2 ^ exponent := by
    generalize (significand * 2 ^ exponent : ℚ) = v at hvalue
    have hnum : 0 < v.num := Rat.num_pos.mpr hvalue
    refine ⟨v.num.toNat, v.den, by omega, v.den_pos, ?_⟩
    have hcast : (v.num.toNat : ℚ) = v.num := by exact_mod_cast Int.toNat_of_nonneg hnum.le
    rw [hcast, Rat.num_div_den]
  have hfirst := ofQuotient_of_contains false hc hs hn hd
    (by rw [hquotient]; exact Interval.contains_around hs exponent)
  have hsecond := ofQuotient_of_contains false hc' hs' hn hd
    (by rw [hquotient, h]; exact Interval.contains_around hs' exponent')
  have hsame := hfirst.symm.trans hsecond
  exact ⟨(finite.inj hsame).2.1, (finite.inj hsame).2.2⟩

theorem pos_of_contains (hs : 0 < significand) {v : ℚ} (h : (Interval.around significand exponent).Contains v) :
    0 < v := by
  refine lt_of_lt_of_le ?_ (h.near hs).low
  have hone : (1 : ℚ) ≤ significand := by exact_mod_cast hs
  have hpos := two_zpow_pos exponent
  have : (0 : ℚ) < significand - 1 / 2 := by linarith
  positivity

/-- No number is so great that its interval reaches the decimals that are not formed. -/
theorem lt_of_contains (hc : Canonical significand exponent) (hs : 0 < significand) {v : ℚ}
    (h : (Interval.around significand exponent).Contains v) : v < 10 ^ 310 := by
  have hsig : (significand : ℚ) + 1 ≤ 2 ^ 53 := by exact_mod_cast hc.lt
  have hle : (2 : ℚ) ^ exponent ≤ 2 ^ (971 : Int) := zpow_le_zpow_right₀ (by norm_num) hc.le_greatest
  have hpos := two_zpow_pos exponent
  have hten : (2 : ℕ) ^ 53 * 2 ^ 971 ≤ 10 ^ 310 := by decide +kernel
  calc v ≤ (significand + 1 / 2) * 2 ^ exponent := (h.near hs).high
    _ < 2 ^ 53 * 2 ^ exponent := by
        gcongr
        linarith
    _ ≤ 2 ^ 53 * 2 ^ (971 : Int) := by gcongr
    _ ≤ 10 ^ 310 := by exact_mod_cast hten

/-- No number but zero is so small that its interval reaches the decimals that are not formed. -/
theorem gt_of_contains (hc : Canonical significand exponent) (hs : 0 < significand) {v : ℚ}
    (h : (Interval.around significand exponent).Contains v) : (2 : ℚ) ^ (-1075 : Int) ≤ v := by
  have hone : (1 : ℚ) ≤ significand := by exact_mod_cast hs
  have hle : (2 : ℚ) ^ (-1074 : Int) ≤ 2 ^ exponent := zpow_le_zpow_right₀ (by norm_num) hc.least_le
  calc (2 : ℚ) ^ (-1075 : Int) = 1 / 2 * 2 ^ (-1074 : Int) := by
        rw [show (-1075 : Int) = -1 + -1074 by norm_num, zpow_add₀ (by norm_num)]
        norm_num
    _ ≤ 1 / 2 * 2 ^ exponent := by gcongr
    _ ≤ (significand - 1 / 2) * 2 ^ exponent := by
        gcongr
        linarith
    _ ≤ v := (h.near hs).low

/-- A decimal so small that it is not formed: 8 is less than 10. -/
theorem lt_of_log2 {digits k : Nat} (h : (digits.log2 : Int) + 1 - 3 * k ≤ -1075) :
    (digits : ℚ) * 10 ^ (-(k : Int)) < 2 ^ (-1075 : Int) := by
  have hdigits : (digits : ℚ) < 2 ^ ((digits.log2 : Int) + 1) := by
    exact_mod_cast (Nat.lt_log2_self : digits < 2 ^ (digits.log2 + 1))
  have hten : (10 : ℚ) ^ (-(k : Int)) ≤ 2 ^ (-(3 * k : Int)) := by
    have hpow : (2 : ℚ) ^ (3 * k) ≤ 10 ^ k := by
      rw [pow_mul]
      gcongr
      norm_num
    rw [zpow_neg, zpow_neg, zpow_natCast, show (3 * k : Int) = ((3 * k : Nat) : Int) by push_cast; rfl, zpow_natCast]
    gcongr
  calc (digits : ℚ) * 10 ^ (-(k : Int)) < 2 ^ ((digits.log2 : Int) + 1) * 10 ^ (-(k : Int)) := by gcongr
    _ ≤ 2 ^ ((digits.log2 : Int) + 1) * 2 ^ (-(3 * k : Int)) := by gcongr
    _ = 2 ^ ((digits.log2 : Int) + 1 - 3 * k) := by
        rw [← zpow_add₀ (by norm_num)]
        congr 1
    _ ≤ 2 ^ (-1075 : Int) := zpow_le_zpow_right₀ (by norm_num) h

/-- **A decimal in the interval of a number is read as this number.** -/
theorem ofDecimal_of_contains (negative : Bool) (hc : Canonical significand exponent) (hs : 0 < significand)
    {digits : Nat} {power : Int} (h : (Interval.around significand exponent).Contains (digits * 10 ^ power)) :
    ofDecimal negative digits power = finite negative significand exponent := by
  have hdigits : 0 < digits := by
    refine Nat.pos_of_ne_zero fun hzero => ?_
    have hpos := pos_of_contains hs h
    rw [hzero, Nat.cast_zero, zero_mul] at hpos
    exact hpos.false
  have hone : (1 : ℚ) ≤ digits := by exact_mod_cast hdigits
  rw [ofDecimal, if_neg hdigits.ne']
  split
  · rename_i hpower
    obtain ⟨k, rfl⟩ := Int.eq_ofNat_of_zero_le hpower
    rw [zpow_natCast] at h
    have hlt : ¬ 310 ≤ (k : Int) := by
      intro hle
      have hten : (10 : ℚ) ^ 310 ≤ 10 ^ k := pow_le_pow_right₀ (by norm_num) (by omega)
      have hmore : (10 : ℚ) ^ k ≤ digits * 10 ^ k := le_mul_of_one_le_left (by positivity) hone
      exact absurd (hten.trans hmore) (not_le.mpr (lt_of_contains hc hs h))
    rw [if_neg hlt, Int.toNat_natCast, Nat.pow_eq]
    refine ofQuotient_of_contains negative hc hs (by positivity) one_pos ?_
    push_cast
    rwa [div_one]
  · rename_i hpower
    obtain ⟨k, rfl⟩ : ∃ k : Nat, power = -(k : Int) := ⟨(-power).toNat, by omega⟩
    have hlt : ¬ (digits.log2 : Int) + 1 + 3 * -(k : Int) ≤ -1075 := by
      intro hle
      exact absurd (lt_of_log2 (by omega)) (not_lt.mpr (gt_of_contains hc hs h))
    rw [if_neg hlt, neg_neg, Int.toNat_natCast, Nat.pow_eq]
    refine ofQuotient_of_contains negative hc hs hdigits (by positivity) ?_
    push_cast
    rwa [div_eq_mul_inv, ← zpow_natCast, ← zpow_neg]

end Double

end Timeline.Number
