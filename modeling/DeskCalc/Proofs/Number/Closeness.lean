import DeskCalc.Number.Double
import DeskCalc.Proofs.Number.Decimals

/-!
# How far a rounded number lies from what was rounded

Rounding to so many binary digits changes a number by at most its part of that many binary places. A
double is as close, except near zero, where doubles are multiples of one smallest number and lie
half of it away at most; beyond the greatest of them there is none.
-/

namespace DeskCalc

section dyadic

theorem toRat_ofOdd (n k : Int) (hn : n % 2 = 1) :
    (Dyadic.ofOdd n k hn).toRat = n * 2 ^ (-k) := by
  rw [Dyadic.ofOdd_eq_ofIntWithPrec, Dyadic.toRat_ofIntWithPrec_eq_mul_two_pow]

private theorem abs_sign_mul_sub {n : Int} (hn : n ≠ 0) (a b : ℚ) :
    |n.sign * a - n * b| = |a - n.natAbs * b| := by
  have hsign : |(n.sign : ℚ)| = 1 := by
    rw [← Int.cast_abs, ← Nat.cast_natAbs, Int.natAbs_sign_of_ne_zero hn, Nat.cast_one]
  have hn' : (n : ℚ) = n.sign * n.natAbs := by
    rw [← Int.cast_natCast n.natAbs, ← Int.cast_mul, Int.sign_mul_natAbs]
  rw [hn', mul_assoc, ← mul_sub, abs_mul, hsign, one_mul]

private theorem divNearestScaled_two_close {d : Nat} (hd : 0 < d) (e : Int) (n : Nat) :
    |(divNearestScaled 2 e n d : ℚ) * 2 ^ e - n / d| ≤ 2 ^ e / 2 := by
  have hpos : (0 : ℚ) < 2 ^ e := by positivity
  have hclose := divNearestScaled_close (by norm_num : 0 < 2) hd e n
  rw [Nat.cast_ofNat] at hclose
  have hscale : (divNearestScaled 2 e n d : ℚ) * 2 ^ e - n / d =
      (divNearestScaled 2 e n d - n / d / 2 ^ e) * 2 ^ e := by
    field_simp
  rw [hscale, abs_mul, abs_of_pos hpos]
  calc _ ≤ 1 / 2 * 2 ^ e := mul_le_mul_of_nonneg_right hclose hpos.le
    _ = 2 ^ e / 2 := by ring

/-- A quotient rounded to some binary digits. -/
theorem nearestDyadic_close (bits : Nat) {den : Nat} (num : Int) (hden : 0 < den) :
    |(nearestDyadic bits num den).toRat - num / den| ≤ |(num : ℚ) / den| / 2 ^ bits := by
  by_cases hnum : num = 0
  · rw [nearestDyadic, if_pos hnum, hnum]
    simp [Dyadic.toRat_zero]
  obtain ⟨e, he⟩ : ∃ e, binaryExponent num.natAbs den - bits + 1 = e := ⟨_, rfl⟩
  have hpos := Int.natAbs_pos.mpr hnum
  have hvalue : (nearestDyadic bits num den).toRat =
      num.sign * (divNearestScaled 2 e num.natAbs den * 2 ^ e) := by
    rw [nearestDyadic, if_neg hnum]
    dsimp only
    rw [he, Dyadic.toRat_ofIntWithPrec_eq_mul_two_pow, neg_neg]
    push_cast
    ring
  rw [hvalue, div_eq_mul_inv (num : ℚ), abs_sign_mul_sub hnum, abs_mul, ← Int.cast_abs,
    ← Nat.cast_natAbs, abs_of_nonneg (by positivity : (0 : ℚ) ≤ (den : ℚ)⁻¹), ← div_eq_mul_inv]
  refine (divNearestScaled_two_close hden e num.natAbs).trans ?_
  have hhalf : (2 : ℚ) ^ e / 2 = 2 ^ binaryExponent num.natAbs den / 2 ^ bits := by
    rw [← he, zpow_add_one₀ (by norm_num), zpow_sub₀ (by norm_num), zpow_natCast]
    ring
  rw [hhalf]
  exact div_le_div_of_nonneg_right (binaryExponent_spec hpos hden).1 (by positivity)

/-- A number rounded to some binary digits. -/
theorem roundTo_close (bits : Nat) (x : Dyadic) :
    |(x.roundTo bits).toRat - x.toRat| ≤ |x.toRat| / 2 ^ bits := by
  cases x with
  | zero => simp [Dyadic.roundTo, Dyadic.toRat_zero]
  | ofOdd n k hn =>
    by_cases hshort : n.natAbs.log2 < bits
    · rw [Dyadic.roundTo, if_pos hshort, sub_self, abs_zero]
      positivity
    have hne : n ≠ 0 := by omega
    obtain ⟨drop, hdrop⟩ : ∃ drop, n.natAbs.log2 + 1 - bits = drop := ⟨_, rfl⟩
    have hvalue : ((Dyadic.ofOdd n k hn).roundTo bits).toRat =
        n.sign * (divNearestScaled 2 drop n.natAbs 1 * 2 ^ (drop : Int) * 2 ^ (-k)) := by
      have hnearest : divNearestScaled 2 drop n.natAbs 1 = divNearest n.natAbs (2 ^ drop) := by
        show divNearest n.natAbs (1 * 2 ^ drop) = _
        rw [Nat.one_mul]
      rw [Dyadic.roundTo, if_neg hshort, nearestDyadicShifted, if_neg (by omega), hdrop,
        Dyadic.toRat_ofIntWithPrec_eq_mul_two_pow, hnearest, neg_sub, sub_eq_add_neg,
        zpow_add₀ (by norm_num)]
      push_cast
      ring
    have hpower : |(2 : ℚ) ^ (-k)| = 2 ^ (-k) := abs_of_pos (by positivity)
    rw [hvalue, toRat_ofOdd, abs_sign_mul_sub hne, ← sub_mul, abs_mul, abs_mul, ← Int.cast_abs,
      ← Nat.cast_natAbs, hpower, mul_div_right_comm]
    refine mul_le_mul_of_nonneg_right ?_ (by positivity)
    have hclose := divNearestScaled_two_close Nat.one_pos drop n.natAbs
    rw [Nat.cast_one, div_one] at hclose
    refine hclose.trans ?_
    have hhalf : (2 : ℚ) ^ (drop : Int) / 2 = 2 ^ n.natAbs.log2 / 2 ^ bits := by
      rw [div_eq_div_iff (by norm_num) (by positivity), zpow_natCast, ← pow_add, ← pow_succ]
      congr 1
      omega
    have hlog : (2 : ℚ) ^ n.natAbs.log2 ≤ n.natAbs := by
      exact_mod_cast Nat.log2_self_le (Int.natAbs_ne_zero.mpr hne)
    rw [hhalf]
    exact div_le_div_of_nonneg_right hlog (by positivity)

end dyadic

namespace Double

theorem ratio_value (m : Nat) (e : Int) :
    0 < (ratio m e).2 ∧ ((ratio m e).1 : ℚ) / (ratio m e).2 = m * 2 ^ e := by
  cases e with
  | ofNat e =>
    refine ⟨Nat.one_pos, ?_⟩
    simp only [ratio, Nat.shiftLeft_eq, Int.ofNat_eq_natCast, zpow_natCast]
    push_cast
    ring
  | negSucc e =>
    refine ⟨Nat.two_pow_pos _, ?_⟩
    rw [zpow_negSucc, ← div_eq_mul_inv]
    simp only [ratio]
    push_cast
    rfl

section ofRatio

variable {n d : Nat}

/-- A quotient rounded to a double: the nearest one of its place, or none within the range. -/
theorem ofRatio_spec (negative : Bool) (hn : 0 < n) (hd : 0 < d) :
    (ofRatio negative n d = .infinite negative ∧ (2 : ℚ) ^ (1023 : Int) ≤ n / d) ∨
      ∃ m e, ofRatio negative n d = .finite negative m e ∧ -1074 ≤ e ∧
        |(m : ℚ) * 2 ^ e - n / d| ≤ max ((n : ℚ) / d / 2 ^ 53) (2 ^ (-1075 : Int)) := by
  obtain ⟨hlow, -⟩ := binaryExponent_spec hn hd
  obtain ⟨e, he⟩ : ∃ e, max (binaryExponent n d - 52) (-1074) = e := ⟨_, rfl⟩
  have hvalue : ofRatio negative n d =
      if 971 ≤ e ∧ 2 ^ (53 : Nat) ≤ divNearestScaled 2 e n d ∨ 971 < e then .infinite negative
      else .finite negative (divNearestScaled 2 e n d) e := by
    rw [ofRatio, if_neg hn.ne']
    dsimp only
    rw [he]
  rw [hvalue]
  split
  · refine .inl ⟨rfl, (zpow_le_zpow_right₀ (by norm_num) ?_).trans hlow⟩
    omega
  · refine .inr ⟨_, e, rfl, by omega, (divNearestScaled_two_close hd e n).trans ?_⟩
    rcases max_choice (binaryExponent n d - 52) (-1074) with h | h
    · refine le_max_of_le_left ?_
      have hhalf : (2 : ℚ) ^ e / 2 = 2 ^ binaryExponent n d / 2 ^ 53 := by
        rw [← he, h, zpow_sub₀ (by norm_num), zpow_ofNat, div_div, ← pow_succ]
      rw [hhalf]
      exact div_le_div_of_nonneg_right hlow (by positivity)
    · refine le_max_of_le_right (le_of_eq ?_)
      rw [← he, h, show (-1074 : Int) = -1075 + 1 by norm_num, zpow_add_one₀ (by norm_num)]
      ring

end ofRatio

end Double

end DeskCalc
