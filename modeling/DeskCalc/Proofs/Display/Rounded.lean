import DeskCalc.Proofs.Number.Closeness

/-!
# The digits shown for a double

A number is shown through the nearest double. Fifteen digits that were shown for a double are shown
again for every number close to what they stand for: the double nearest to that number may be
another one, but it has the same digits. Doubles near zero stand so far apart that it is the same
double.
-/

namespace DeskCalc.Display

/-- The smallest double above zero. -/
def smallest : ℚ := 2 ^ (-1074 : Int)

/-- A quotient that is the double nearest a number, or the number itself if there is none. -/
structure IsDouble (z : Dyadic) (n d : Nat) : Prop where
  pos : 0 < d
  close : |(n : ℚ) / d - (|z.toRat|)| ≤ max (|z.toRat| / 2 ^ 53) (smallest / 2)
  multiple : (∃ m : Nat, (n : ℚ) / d = m * smallest) ∨ (2 : ℚ) ^ (1023 : Int) ≤ n / d

section rounded

theorem half_smallest : smallest / 2 = 2 ^ (-1075 : Int) := by
  rw [smallest, show (-1074 : Int) = -1075 + 1 by norm_num, zpow_add_one₀ (by norm_num)]
  ring

private theorem ratio_scientific {n d : Nat} (negative : Bool) (hn : 0 < n) (hd : 0 < d)
    (h : (10 : ℚ) ^ (15 : Int) ≤ n / d) :
    ratio scientific negative n d = ratio layout negative n d := by
  have htop : 15 ≤ decimalExponent n d := by
    have hlt := (zpow_lt_zpow_iff_right₀ (by norm_num : (1 : ℚ) < 10)).mp
      (h.trans_lt (decimalExponent_spec hn hd).2)
    omega
  have hplace : 15 ≤ (fifteen n d).2 := by
    unfold fifteen
    dsimp only
    split <;> dsimp only <;> omega
  have hwrite : ∀ digits, scientific.write digits (fifteen n d).2 =
      layout.write digits (fifteen n d).2 := by
    intro digits
    rw [Double.Layout.write, if_neg (by simp only [scientific]; omega), Double.Layout.write,
      if_neg (by simp only [layout]; omega)]
  rw [ratio_eq _ _ hn, ratio_eq _ _ hn, hwrite]

private theorem ten_le_two : (10 : ℚ) ^ (15 : Int) ≤ 2 ^ (1023 : Int) :=
  calc (10 : ℚ) ^ (15 : Int) ≤ 2 ^ (50 : Int) := by norm_num
    _ ≤ 2 ^ (1023 : Int) := zpow_le_zpow_right₀ (by norm_num) (by norm_num)

private theorem abs_ofOdd_bounds (n k : Int) (hn : n % 2 = 1) :
    (2 : ℚ) ^ ((n.natAbs.log2 : Int) - k) ≤ |(Dyadic.ofOdd n k hn).toRat| ∧
      |(Dyadic.ofOdd n k hn).toRat| < 2 ^ ((n.natAbs.log2 : Int) - k + 1) := by
  have hne : n.natAbs ≠ 0 := by omega
  have hpos : (0 : ℚ) < 2 ^ (-k) := by positivity
  have hlow : (2 : ℚ) ^ (n.natAbs.log2 : Int) ≤ n.natAbs := by
    exact_mod_cast Nat.log2_self_le hne
  have hhigh : (n.natAbs : ℚ) < 2 ^ ((n.natAbs.log2 : Int) + 1) := by
    exact_mod_cast (Nat.log2_lt hne).mp (Nat.lt_succ_self _)
  rw [toRat_ofOdd, abs_mul, abs_of_pos hpos, ← Int.cast_abs, ← Nat.cast_natAbs,
    show (n.natAbs.log2 : Int) - k + 1 = n.natAbs.log2 + 1 + -k by omega, sub_eq_add_neg,
    zpow_add₀ (by norm_num), zpow_add₀ (by norm_num)]
  exact ⟨mul_le_mul_of_nonneg_right hlow hpos.le, mul_lt_mul_of_pos_right hhigh hpos⟩

private theorem exists_multiple {e : Int} (he : -1074 ≤ e) (m : Nat) :
    ∃ i : Nat, (m : ℚ) * 2 ^ e = i * smallest := by
  refine ⟨m * 2 ^ (e + 1074).toNat, ?_⟩
  rw [Nat.cast_mul, Nat.cast_pow, Nat.cast_ofNat, ← zpow_natCast (2 : ℚ),
    Int.toNat_of_nonneg (by omega), mul_assoc, smallest, ← zpow_add₀ (by norm_num)]
  congr 2
  omega

private theorem exists_ratio (n k : Int) (hn : n % 2 = 1) :
    ∃ p q : Nat, 0 < p ∧ 0 < q ∧ (p : ℚ) / q = |(Dyadic.ofOdd n k hn).toRat| ∧
      (∀ layout, dyadic layout (.ofOdd n k hn) = ratio layout (n < 0) p q) ∧
      Double.ofDyadic (.ofOdd n k hn) =
        if 1024 < (n.natAbs.log2 : Int) - k then .infinite (n < 0)
        else if (n.natAbs.log2 : Int) - k < -1080 then .finite (n < 0) 0 0
        else .ofRatio (n < 0) p q := by
  have hpos : 0 < n.natAbs := by omega
  have hvalue : |(Dyadic.ofOdd n k hn).toRat| = n.natAbs * 2 ^ (-k) := by
    rw [toRat_ofOdd, abs_mul, ← Int.cast_abs, ← Nat.cast_natAbs,
      abs_of_pos (by positivity : (0 : ℚ) < 2 ^ (-k))]
  cases k with
  | ofNat k =>
    refine ⟨n.natAbs, 2 ^ k, hpos, Nat.two_pow_pos k, ?_, fun _ => rfl, rfl⟩
    rw [hvalue, Int.ofNat_eq_natCast, zpow_neg, zpow_natCast, ← div_eq_mul_inv]
    norm_cast
  | negSucc k =>
    refine ⟨n.natAbs <<< (k + 1), 1, ?_, Nat.one_pos, ?_, fun _ => rfl, rfl⟩
    · rw [Nat.shiftLeft_eq]
      exact Nat.mul_pos hpos (Nat.two_pow_pos _)
    · rw [hvalue, Nat.shiftLeft_eq, Int.neg_negSucc, zpow_natCast]
      push_cast
      rw [div_one]

private theorem smallest_pos : 0 < smallest := by
  unfold smallest
  positivity

namespace IsDouble

variable {z : Dyadic} {p q : Nat}

private theorem of_large (hq : 0 < q) (hvalue : (p : ℚ) / q = |z.toRat|)
    (hlarge : (2 : ℚ) ^ (1023 : Int) ≤ p / q) : IsDouble z p q := by
  refine ⟨hq, ?_, .inr hlarge⟩
  rw [hvalue, sub_self, abs_zero]
  exact le_max_of_le_right (half_pos smallest_pos).le

private theorem of_small (hsmall : |z.toRat| ≤ smallest / 2) : IsDouble z 0 1 := by
  refine ⟨Nat.one_pos, ?_, .inl ⟨0, by simp⟩⟩
  rw [Nat.cast_zero, zero_div, zero_sub, abs_neg, abs_abs]
  exact le_max_of_le_right hsmall

private theorem of_finite {m : Nat} {e : Int} (hvalue : (p : ℚ) / q = |z.toRat|) (he : -1074 ≤ e)
    (hclose : |(m : ℚ) * 2 ^ e - p / q| ≤ max ((p : ℚ) / q / 2 ^ 53) (2 ^ (-1075 : Int))) :
    IsDouble z (Double.ratio m e).1 (Double.ratio m e).2 := by
  obtain ⟨hpos, hratio⟩ := Double.ratio_value m e
  refine ⟨hpos, ?_, .inl ?_⟩
  · rw [hratio, ← hvalue, half_smallest]
    exact hclose
  · rw [hratio]
    exact exists_multiple he m

end IsDouble

/-- A rounded number is shown as a double. -/
theorem rounded_eq (z : Dyadic) :
    ∃ n d, IsDouble z n d ∧ rounded z = ratio layout (decide (z.toRat < 0)) n d := by
  cases z with
  | zero =>
    refine ⟨0, 1, .of_small ?_, rfl⟩
    show |(0 : Dyadic).toRat| ≤ smallest / 2
    rw [Dyadic.toRat_zero, abs_zero]
    exact (half_pos smallest_pos).le
  | ofOdd n k hn =>
    obtain ⟨p, q, hp, hq, hvalue, hdyadic, hdouble⟩ := exists_ratio n k hn
    obtain ⟨hlow, hhigh⟩ := abs_ofOdd_bounds n k hn
    have hnegative : decide ((Dyadic.ofOdd n k hn).toRat < 0) = decide (n < 0) := by
      have hpos : (0 : ℚ) < 2 ^ (-k) := by positivity
      rw [toRat_ofOdd, decide_eq_decide, ← zero_mul ((2 : ℚ) ^ (-k)), mul_lt_mul_iff_left₀ hpos,
        Int.cast_lt_zero]
    have hbeyond : (2 : ℚ) ^ (1023 : Int) ≤ p / q →
        dyadic scientific (.ofOdd n k hn) = ratio layout (decide (n < 0)) p q := fun hlarge => by
      rw [hdyadic, ratio_scientific _ hp hq (ten_le_two.trans hlarge)]
    rw [hnegative]
    -- the rounding leaves early where the number is far too large or far too small
    by_cases hlarge : 1024 < (n.natAbs.log2 : Int) - k
    · have hlarge' : (2 : ℚ) ^ (1023 : Int) ≤ p / q := by
        rw [hvalue]
        exact (zpow_le_zpow_right₀ (by norm_num) (by omega)).trans hlow
      refine ⟨p, q, .of_large hq hvalue hlarge', ?_⟩
      rw [rounded, hdouble, if_pos hlarge]
      exact hbeyond hlarge'
    rw [if_neg hlarge] at hdouble
    by_cases hsmall : (n.natAbs.log2 : Int) - k < -1080
    · refine ⟨0, 1, .of_small ?_, ?_⟩
      · rw [half_smallest]
        exact hhigh.le.trans (zpow_le_zpow_right₀ (by norm_num) (by omega))
      · rw [rounded, hdouble, if_pos hsmall]
        rfl
    rw [if_neg hsmall] at hdouble
    rcases Double.ofRatio_spec (decide (n < 0)) hp hq with
      ⟨hinfinite, hlarge'⟩ | ⟨m, e, hfinite, he, hclose⟩
    · refine ⟨p, q, .of_large hq hvalue hlarge', ?_⟩
      rw [rounded, hdouble, hinfinite]
      exact hbeyond hlarge'
    · refine ⟨_, _, .of_finite hvalue he hclose, ?_⟩
      rw [rounded, hdouble, hfinite]

end rounded

section again

variable {n d n' d' k : Nat} {t : Int} {z : Dyadic}

theorem num_pos (h : (0 : ℚ) < n / d) : 0 < n := by
  refine Nat.pos_of_ne_zero ?_
  rintro rfl
  simp at h

/-- A number as close to its digits as two roundings leave it. -/
def IsNear (z : Dyadic) (D : ℚ) : Prop := |(|z.toRat|) - D| * (4 * 10 ^ 15) ≤ D

theorem value_bounds (hlow : 10 ^ 14 ≤ k) (hhigh : k < 10 ^ 15) :
    10 ^ 14 * (10 : ℚ) ^ (t - 14) ≤ value k t ∧ value k t < 10 ^ 15 * 10 ^ (t - 14) := by
  have hpos : (0 : ℚ) < 10 ^ (t - 14) := by positivity
  have hlow' : (10 ^ 14 : ℚ) ≤ k := by exact_mod_cast hlow
  have hhigh' : (k : ℚ) < 10 ^ 15 := by exact_mod_cast hhigh
  exact ⟨mul_le_mul_of_nonneg_right hlow' hpos.le, mul_lt_mul_of_pos_right hhigh' hpos⟩

theorem value_pos (hlow : 10 ^ 14 ≤ k) (t : Int) : 0 < value k t := by
  have hk : (0 : ℚ) < k := by
    exact_mod_cast Nat.lt_of_lt_of_le (by norm_num) hlow
  exact mul_pos hk (by positivity)

/-- How far the double nearest a number lies from its digits: only where doubles stand far apart is
it the distance between these that counts. -/
theorem IsDouble.close_of_near (h : IsDouble z n d) {D : ℚ} (hpos : 0 < D) (hz : IsNear z D) :
    |(n : ℚ) / d - D| < 3 * D / (8 * 10 ^ 15) ∨
      |(n : ℚ) / d - D| ≤ smallest / 2 + D / (4 * 10 ^ 15) := by
  have hclose := h.close
  unfold IsNear at hz
  obtain ⟨y, hy⟩ : ∃ y, |z.toRat| = y := ⟨_, rfl⟩
  rw [hy] at hz hclose
  have htriangle := abs_sub_le ((n : ℚ) / d) y D
  have hnear : |y - D| ≤ D / (4 * 10 ^ 15) := by
    rwa [le_div_iff₀ (by norm_num)]
  rcases le_max_iff.mp hclose with hrelative | habsolute
  · have hsize := (abs_le.mp hnear).2
    left
    linarith
  · right
    linarith

end again

end DeskCalc.Display
