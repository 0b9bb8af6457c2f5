import Timeline.Proofs.Number.Interval

/-! Shortest decimals.

A grid whose units are smaller than an interval has a point in it, next to the middle. Eighteen
digits give such a grid, also where the decimal point is guessed one place too far in front. So the
search finds a decimal, and this decimal lies in the interval that it was searched for
(`shortest_contains`). -/
namespace Timeline.Number

def Decimal.value (d : Decimal) : ℚ := d.digits * 10 ^ d.exponent

theorem Decimal.value_normal (d : Decimal) : d.normal.value = d.value := by
  fun_induction Decimal.normal d with
  | case1 d h ih =>
    have hdigits : d.digits = 10 * (d.digits / 10) := by omega
    have hcast : (d.digits : ℚ) = 10 * (d.digits / 10 : Nat) := by exact_mod_cast hdigits
    rw [ih, value, value, zpow_add_one₀ (by norm_num), hcast]
    ring
  | case2 => rfl

/-! ### Grids -/

theorem pow_toNat (b : ℚ) {e : Int} (he : 0 ≤ e) : b ^ e.toNat = b ^ e := by
  rw [← zpow_natCast, Int.toNat_of_nonneg he]

theorem pow_toNat_neg {b : ℚ} (hb : b ≠ 0) {e : Int} (he : ¬ 0 ≤ e) : b ^ (-e).toNat * b ^ e = 1 := by
  rw [pow_toNat b (by omega), ← zpow_add₀ hb, neg_add_cancel, zpow_zero]

theorem gridFactors_spec (quarter grid : Int) : ∃ f : ℚ, 0 < f ∧
    ((gridFactors quarter grid).1 : ℚ) = f * 2 ^ quarter ∧ ((gridFactors quarter grid).2 : ℚ) = f * 10 ^ grid := by
  unfold gridFactors
  by_cases hq : 0 ≤ quarter <;> by_cases hg : 0 ≤ grid <;>
    simp only [hq, hg, if_true, if_false, Nat.pow_eq, Nat.cast_mul, Nat.cast_pow, Nat.cast_one, Nat.cast_ofNat,
      one_mul]
  · exact ⟨1, one_pos, by rw [one_mul, pow_toNat 2 hq], by rw [one_mul, pow_toNat 10 hg]⟩
  · refine ⟨10 ^ (-grid).toNat, by positivity, ?_, (pow_toNat_neg (by norm_num) hg).symm⟩
    rw [pow_toNat 2 hq, mul_comm]
  · exact ⟨2 ^ (-quarter).toNat, by positivity, (pow_toNat_neg (by norm_num) hq).symm, by rw [pow_toNat 10 hg]⟩
  · refine ⟨2 ^ (-quarter).toNat * 10 ^ (-grid).toNat, by positivity, ?_, ?_⟩
    · rw [mul_right_comm, pow_toNat_neg (by norm_num) hq, one_mul]
    · rw [mul_assoc, pow_toNat_neg (by norm_num) hg, mul_one]

theorem gridFactors_pos (quarter grid : Int) :
    0 < (gridFactors quarter grid).1 ∧ 0 < (gridFactors quarter grid).2 := by
  obtain ⟨f, hf, ha, hb⟩ := gridFactors_spec quarter grid
  constructor
  · rw [← Nat.cast_pos (α := ℚ), ha]
    positivity
  · rw [← Nat.cast_pos (α := ℚ), hb]
    positivity

/-- Quarters and points of a grid are compared as they are counted in their common units. -/
theorem compare_gridFactors (quarter grid : Int) (q d : Nat) :
    (q * (gridFactors quarter grid).1 ≤ d * (gridFactors quarter grid).2 ↔
        (q : ℚ) * 2 ^ quarter ≤ d * 10 ^ grid) ∧
      (d * (gridFactors quarter grid).2 ≤ q * (gridFactors quarter grid).1 ↔
        (d : ℚ) * 10 ^ grid ≤ q * 2 ^ quarter) := by
  obtain ⟨f, hf, ha, hb⟩ := gridFactors_spec quarter grid
  generalize gridFactors quarter grid = factors at ha hb
  have hq : ((q * factors.1 : Nat) : ℚ) = f * (q * 2 ^ quarter) := by
    push_cast
    rw [ha]
    ring
  have hd : ((d * factors.2 : Nat) : ℚ) = f * (d * 10 ^ grid) := by
    push_cast
    rw [hb]
    ring
  constructor
  · rw [← Nat.cast_le (α := ℚ), hq, hd, mul_le_mul_iff_right₀ hf]
  · rw [← Nat.cast_le (α := ℚ), hq, hd, mul_le_mul_iff_right₀ hf]

namespace Interval

variable {i : Interval} {grid : Int} {d : Nat}

/-- What is tested for a point of a grid. -/
theorem inside_iff (i : Interval) (grid : Int) (d : Nat) :
    (if i.closed then
        decide (i.low * (gridFactors i.exponent grid).1 ≤ d * (gridFactors i.exponent grid).2) &&
          decide (d * (gridFactors i.exponent grid).2 ≤ i.high * (gridFactors i.exponent grid).1)
      else
        decide (i.low * (gridFactors i.exponent grid).1 < d * (gridFactors i.exponent grid).2) &&
          decide (d * (gridFactors i.exponent grid).2 < i.high * (gridFactors i.exponent grid).1)) = true ↔
      i.Contains (d * 10 ^ grid) := by
  obtain ⟨hlow, hlow'⟩ := compare_gridFactors i.exponent grid i.low d
  obtain ⟨hhigh', hhigh⟩ := compare_gridFactors i.exponent grid i.high d
  rw [Contains]
  split
  · rename_i hclosed
    rw [Bool.and_eq_true, decide_eq_true_eq, decide_eq_true_eq, hlow, hhigh]
    refine ⟨fun h => .inr ⟨hclosed, h⟩, ?_⟩
    rintro (⟨hl, hh⟩ | ⟨-, h⟩)
    · exact ⟨hl.le, hh.le⟩
    · exact h
  · rename_i hopen
    rw [Bool.and_eq_true, decide_eq_true_eq, decide_eq_true_eq, ← not_le, ← not_le, hlow', hhigh', not_le, not_le]
    refine ⟨.inl, ?_⟩
    rintro (h | ⟨hclosed, -⟩)
    · exact h
    · exact absurd hclosed hopen

/-- A neighbour that is found lies in the interval. -/
theorem contains_onGrid? (h : i.onGrid? grid = some d) : i.Contains (d * 10 ^ grid) := by
  have hinside := inside_iff i grid
  unfold onGrid? at h
  generalize gridFactors i.exponent grid = factors at h hinside
  obtain ⟨a, b⟩ := factors
  simp only at h hinside
  split at h
  · rename_i hbelow habove
    obtain rfl := Option.some.inj h
    rw [hinside] at hbelow habove
    split_ifs
    · exact hbelow
    · exact habove
    · exact hbelow
    · exact habove
  · rename_i hbelow _
    obtain rfl := Option.some.inj h
    exact (hinside _).mp hbelow
  · rename_i _ habove
    obtain rfl := Option.some.inj h
    exact (hinside _).mp habove
  · cases h

/-- On a grid that is finer than an interval a neighbour of the middle lies in it. -/
theorem contains_neighbour {below : Nat} (hlow : (i.low : ℚ) ≤ i.middle) (hhigh : (i.middle : ℚ) < i.high)
    (hwide : (10 : ℚ) ^ grid < i.high * 2 ^ i.exponent - i.low * 2 ^ i.exponent)
    (hbelow : below * 10 ^ grid ≤ (i.middle : ℚ) * 2 ^ i.exponent)
    (habove : (i.middle : ℚ) * 2 ^ i.exponent < (below + 1 : Nat) * 10 ^ grid) :
    i.Contains (below * 10 ^ grid) ∨ i.Contains ((below + 1 : Nat) * 10 ^ grid) := by
  have hunit := Double.two_zpow_pos i.exponent
  have hlow := mul_le_mul_of_nonneg_right hlow hunit.le
  have hhigh := mul_lt_mul_of_pos_right hhigh hunit
  by_cases h : i.low * 2 ^ i.exponent < (below : ℚ) * 10 ^ grid
  · exact .inl (.inl ⟨h, hbelow.trans_lt hhigh⟩)
  · refine .inr (.inl ⟨hlow.trans_lt habove, ?_⟩)
    push_cast
    linarith

theorem isSome_onGrid? (hlow : (i.low : ℚ) ≤ i.middle) (hhigh : (i.middle : ℚ) < i.high)
    (hwide : (10 : ℚ) ^ grid < i.high * 2 ^ i.exponent - i.low * 2 ^ i.exponent) : (i.onGrid? grid).isSome := by
  have hinside := inside_iff i grid
  have hcompare := compare_gridFactors i.exponent grid i.middle
  have hb := (gridFactors_pos i.exponent grid).2
  unfold onGrid?
  generalize gridFactors i.exponent grid = factors at hinside hcompare hb
  obtain ⟨a, b⟩ := factors
  simp only at hinside hcompare hb ⊢
  have hbelow := (hcompare _).2.mp (Nat.div_mul_le_self (i.middle * a) b)
  have habove : (i.middle : ℚ) * 2 ^ i.exponent < (i.middle * a / b + 1 : Nat) * 10 ^ grid :=
    not_le.mp fun h => (Nat.lt_mul_of_div_lt (Nat.lt_succ_self _) hb).not_ge ((hcompare _).2.mpr h)
  have hfound := contains_neighbour hlow hhigh hwide hbelow habove
  rw [← hinside, ← hinside] at hfound
  split
  · rfl
  · rfl
  · rfl
  · rename_i hfalse hfalse'
    rcases hfound with h | h
    · cases hfalse.symm.trans h
    · cases hfalse'.symm.trans h

end Interval

/-! ### Digits in front of the point -/

/-- A power of ten is at most a power of two if its exponent is less by three than three tenths of the
other, in a range where this much is lost between 10^3 and 2^10, and between 2^53 and 10^16. -/
theorem ten_zpow_le {s : Int} (hlow : -1082 ≤ s) (hhigh : s ≤ 1080) :
    (10 : ℚ) ^ ((s + 2) * 30103 / 100000 - 3) ≤ 2 ^ s := by
  generalize hp : (s + 2) * 30103 / 100000 - 3 = p
  by_cases hsign : 0 ≤ p
  · obtain ⟨k, j, hj, hkj⟩ : ∃ k j : Nat, j < 3 ∧ p = 3 * k + j := ⟨p.toNat / 3, p.toNat % 3, by omega, by omega⟩
    have hten : (10 : ℚ) ^ p = (10 ^ 3) ^ k * 10 ^ j := by
      rw [hkj, ← pow_mul, ← pow_add, ← zpow_natCast]
      congr 1
    calc (10 : ℚ) ^ p = (10 ^ 3) ^ k * 10 ^ j := hten
      _ ≤ (2 ^ 10) ^ k * (2 ^ 4) ^ j := by gcongr <;> norm_num
      _ = 2 ^ (10 * k + 4 * j : Int) := by
          rw [← pow_mul, ← pow_mul, ← pow_add, ← zpow_natCast]
          congr 1
      _ ≤ 2 ^ s := zpow_le_zpow_right₀ (by norm_num) (by omega)
  · obtain ⟨k, j, hj, hkj⟩ : ∃ k j : Nat, j < 16 ∧ -p = 16 * k + j :=
      ⟨(-p).toNat / 16, (-p).toNat % 16, by omega, by omega⟩
    have hten : (10 : ℚ) ^ (-p) = (10 ^ 16) ^ k * 10 ^ j := by
      rw [hkj, ← pow_mul, ← pow_add, ← zpow_natCast]
      congr 1
    have hle : (2 : ℚ) ^ (-s) ≤ 10 ^ (-p) := by
      calc (2 : ℚ) ^ (-s) ≤ 2 ^ (53 * k + 3 * j : Int) := zpow_le_zpow_right₀ (by norm_num) (by omega)
        _ = (2 ^ 53) ^ k * (2 ^ 3) ^ j := by
            rw [← pow_mul, ← pow_mul, ← pow_add, ← zpow_natCast]
            congr 1
        _ ≤ (10 ^ 16) ^ k * 10 ^ j := by gcongr <;> norm_num
        _ = 10 ^ (-p) := hten.symm
    rw [← neg_neg p, ← neg_neg s, zpow_neg, zpow_neg _ (-s)]
    gcongr

/-- What is tested for a power of ten. -/
theorem small_iff (n : Nat) {d : Nat} (hd : 0 < d) (p : Int) :
    (if 0 ≤ p then decide (n < d * Nat.pow 10 p.toNat) else decide (n * Nat.pow 10 (-p).toNat < d)) = true ↔
      (n / d : ℚ) < 10 ^ p := by
  have hpos : (0 : ℚ) < d := by exact_mod_cast hd
  rw [div_lt_iff₀ hpos]
  split
  · rename_i hp
    rw [decide_eq_true_eq, ← pow_toNat 10 hp, mul_comm]
    exact_mod_cast Iff.rfl
  · rename_i hp
    have hten : (0 : ℚ) < 10 ^ (-p).toNat := by positivity
    have hone : (10 : ℚ) ^ p * d * 10 ^ (-p).toNat = d := by
      rw [mul_right_comm, mul_comm ((10 : ℚ) ^ p), pow_toNat_neg (by norm_num) hp, one_mul]
    rw [decide_eq_true_eq, ← mul_lt_mul_iff_of_pos_right hten, hone]
    exact_mod_cast Iff.rfl

/-- The point is guessed at most one place too far in front. -/
theorem le_pointOf {n d : Nat} (hn : 0 < n) (hd : 0 < d) (hlow : (2 : ℚ) ^ (-1080 : Int) ≤ n / d)
    (hhigh : (n / d : ℚ) < 2 ^ (1080 : Int)) : (10 : ℚ) ^ (pointOf n d - 2) ≤ n / d := by
  obtain ⟨hgt, hlt⟩ := Double.quotient_between hn hd
  have hguess : (10 : ℚ) ^ (((n.log2 : Int) - d.log2 + 1) * 30103 / 100000 + 1 - 2 - 2) ≤ n / d := by
    have hs := Double.zpow_lt_iff.mp (hlow.trans_lt hlt)
    have hs' := Double.zpow_lt_iff.mp (hgt.trans hhigh)
    have hten := ten_zpow_le (s := (n.log2 : Int) - d.log2 - 1) (by omega) (by omega)
    refine le_trans (le_of_eq ?_) (hten.trans hgt.le)
    congr 1
    omega
  have hmore : ∀ {p q : Int}, ¬ (n / d : ℚ) < 10 ^ p → q ≤ p → (10 : ℚ) ^ q ≤ n / d := by
    intro p q hp hq
    exact (zpow_le_zpow_right₀ (by norm_num) hq).trans (not_lt.mp hp)
  -- Every later answer has the test before it as its lower bound; the first one has the guess.
  unfold pointOf
  simp only [small_iff n hd]
  generalize ((n.log2 : Int) - d.log2 + 1) * 30103 / 100000 + 1 = guess at hguess
  split_ifs with h2 h1 h0
  · exact hguess
  · exact hmore h2 (by omega)
  · exact hmore h1 (by omega)
  · exact hmore h0 (by omega)

/-! ### The search -/

theorem contains_shortestFrom {i : Interval} {point : Int} {tried : Nat} (htried : tried ≤ 17)
    (h : (i.onGrid? (point - 18)).isSome) : i.Contains (shortestFrom i point tried).value := by
  fun_induction shortestFrom i point tried with
  | case1 tried grid d hd =>
    rw [Decimal.value_normal]
    exact Interval.contains_onGrid? hd
  | case2 tried grid hnone hlt ih => exact ih (by omega)
  | case3 tried grid hnone hge =>
    have hgrid : grid = point - 18 := by omega
    rw [← hgrid, hnone] at h
    cases h

/-- A decimal that was found has a digit that is not zero, if zero is not in the interval. -/
theorem pos_digits_shortestFrom (i : Interval) (hi : 0 < i.low) (point : Int) (tried : Nat) :
    0 < (shortestFrom i point tried).digits ∨ shortestFrom i point tried = ⟨0, 0⟩ := by
  fun_induction shortestFrom i point tried with
  | case1 tried grid d hd =>
    refine .inl (Nat.pos_of_ne_zero fun hzero => ?_)
    have hlow := (Interval.contains_onGrid? hd).between.1
    have hvalue := Decimal.value_normal ⟨d, grid⟩
    rw [Decimal.value, hzero, Nat.cast_zero, zero_mul] at hvalue
    change _ ≤ Decimal.value ⟨d, grid⟩ at hlow
    rw [← hvalue] at hlow
    have hi : (0 : ℚ) < i.low := by exact_mod_cast hi
    exact hlow.not_gt (by positivity)
  | case2 tried grid hd htried ih => exact ih
  | case3 => exact .inr rfl

theorem digits_shortest {significand : Nat} (hs : 0 < significand) (exponent : Int) :
    0 < (shortest significand exponent).digits ∨ shortest significand exponent = ⟨0, 0⟩ := by
  apply pos_digits_shortestFrom
  unfold Interval.around
  simp only
  split <;> omega

variable {significand : Nat} {exponent : Int}

/-- The last grid is finer than the interval. -/
theorem wide_around (hc : Double.Canonical significand exponent) (hs : 0 < significand) {point : Int}
    (h : (10 : ℚ) ^ (point - 2) ≤ significand * 2 ^ exponent) :
    (10 : ℚ) ^ (point - 18) <
      (Interval.around significand exponent).high * 2 ^ (Interval.around significand exponent).exponent -
        (Interval.around significand exponent).low * 2 ^ (Interval.around significand exponent).exponent := by
  have hpos := Double.two_zpow_pos exponent
  have hgrid : (10 : ℚ) ^ (point - 2) = 10 ^ 16 * 10 ^ (point - 18) := by
    rw [show point - 2 = (16 : Nat) + (point - 18) by push_cast; omega, zpow_add₀ (by norm_num), zpow_natCast]
  rw [hgrid] at h
  rw [Interval.high_around, Interval.low_around hs]
  -- The significand is less than 2^53, which is less than 10^16, and 2^52 where the interval is shorter.
  split
  · rename_i hpower
    rw [hpower.1] at h ⊢
    push_cast at h ⊢
    linarith
  · have hsig : (significand : ℚ) < 2 ^ 53 := by exact_mod_cast hc.lt
    have hlt : significand * 2 ^ exponent < (2 : ℚ) ^ 53 * 2 ^ exponent := by gcongr
    linarith

theorem low_le_middle (significand : Nat) (exponent : Int) :
    (Interval.around significand exponent).low ≤ (Interval.around significand exponent).middle := by
  unfold Interval.around
  simp only
  split <;> omega

/-- The middle of the interval of a number is the number. -/
theorem middle_around (significand : Nat) (exponent : Int) :
    let i := Interval.around significand exponent
    ((i.middle * (gridFactors i.exponent 0).1 : Nat) : ℚ) / (gridFactors i.exponent 0).2 =
      significand * 2 ^ exponent := by
  intro i
  obtain ⟨f, hf, ha, hb⟩ := gridFactors_spec i.exponent 0
  have hunit : (2 : ℚ) ^ i.exponent = 2 ^ exponent / 4 := Interval.quarter exponent
  have hmiddle : (i.middle : ℚ) = 4 * significand := by simp [i, Interval.around]
  rw [Nat.cast_mul, ha, hb, hunit, hmiddle, zpow_zero, mul_one, div_eq_iff hf.ne']
  ring

theorem magnitude_between (hc : Double.Canonical significand exponent) (hs : 0 < significand) :
    (2 : ℚ) ^ (-1080 : Int) ≤ significand * 2 ^ exponent ∧ (significand * 2 ^ exponent : ℚ) < 2 ^ (1080 : Int) := by
  have hone : (1 : ℚ) ≤ significand := by exact_mod_cast hs
  have hsig : (significand : ℚ) < 2 ^ 53 := by exact_mod_cast hc.lt
  have hpos := Double.two_zpow_pos exponent
  constructor
  · have hleast := hc.least_le
    calc (2 : ℚ) ^ (-1080 : Int) ≤ 2 ^ exponent :=
          zpow_le_zpow_right₀ (by norm_num) (le_trans (by decide) hleast)
      _ ≤ significand * 2 ^ exponent := le_mul_of_one_le_left hpos.le hone
  · have hgreatest : exponent ≤ 971 := hc.le_greatest
    calc (significand * 2 ^ exponent : ℚ) < 2 ^ 53 * 2 ^ exponent := by gcongr
      _ = 2 ^ (exponent + 53) := (Double.zpow_eq 53 rfl).symm
      _ ≤ 2 ^ (1080 : Int) := zpow_le_zpow_right₀ (by norm_num) (by omega)

/-- **The shortest decimal for a number lies in its interval.** -/
theorem shortest_contains (hc : Double.Canonical significand exponent) (hs : 0 < significand) :
    (Interval.around significand exponent).Contains (shortest significand exponent).value := by
  obtain ⟨hlow, hhigh⟩ := magnitude_between hc hs
  have hmiddle := middle_around significand exponent
  have hfactors := gridFactors_pos (Interval.around significand exponent).exponent 0
  have hpos : 0 < (Interval.around significand exponent).middle := by
    simp only [Interval.around]
    omega
  have hpoint := le_pointOf (Nat.mul_pos hpos hfactors.1) hfactors.2 (hlow.trans_eq hmiddle.symm)
    (hmiddle.trans_lt hhigh)
  rw [hmiddle] at hpoint
  refine contains_shortestFrom (by omega) (Interval.isSome_onGrid? ?_ ?_ (wide_around hc hs hpoint))
  · exact_mod_cast low_le_middle significand exponent
  · have : (Interval.around significand exponent).middle < (Interval.around significand exponent).high := by
      simp only [Interval.around]
      omega
    exact_mod_cast this

end Timeline.Number
