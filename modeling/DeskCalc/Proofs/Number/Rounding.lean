import DeskCalc.Number.Binary
import Mathlib.Algebra.Order.Field.Power
import Mathlib.Data.Rat.Cast.Order
import Mathlib.Tactic.FieldSimp
import Mathlib.Tactic.Linarith
import Mathlib.Tactic.Positivity
import Mathlib.Tactic.Ring

/-!
# Rounding twice

A quotient that is cut off after a few digits more than are wanted and then rounded is rounded as if
only once, unless it is cut off exactly half way between two results. Then the digits that were cut
off are missed, and of the two results it is the even one that comes out.
-/

namespace DeskCalc

section divNearest

private theorem divNearest_scale {c : Nat} (hc : 0 < c) (n d : Nat) :
    divNearest (c * n) (c * d) = divNearest n d := by
  have hlt : ∀ a b, 2 * (c * a) < c * b ↔ 2 * a < b := fun a b => by
    rw [Nat.mul_left_comm]
    exact Nat.mul_lt_mul_left hc
  have hgt : ∀ a b, c * b < 2 * (c * a) ↔ b < 2 * a := fun a b => by
    rw [Nat.mul_left_comm]
    exact Nat.mul_lt_mul_left hc
  simp only [divNearest, Nat.mul_div_mul_left _ _ hc, Nat.mul_mod_mul_left, hlt, hgt]

/-- Only the quotient counts. -/
theorem divNearest_congr {n d n' d' : Nat} (hd : 0 < d) (hd' : 0 < d') (h : n * d' = n' * d) :
    divNearest n d = divNearest n' d' := by
  rw [← divNearest_scale hd' n d, ← divNearest_scale hd n' d', Nat.mul_comm d' n, h,
    Nat.mul_comm n' d, Nat.mul_comm d' d]

/-- Rounding to a sixteenth of the digits after cutting off: right unless exactly one half is left
over where more has been cut off, and the result below is even. -/
theorem divNearest_div {n d : Nat} (hd : 0 < d) (h : n / d % 32 = 8 → n % d = 0) :
    divNearest (n / d) 16 = divNearest n (16 * d) := by
  have hquotient : n / (16 * d) = n / d / 16 := by
    rw [Nat.div_div_eq_div_mul, Nat.mul_comm]
  have hremainder : n % (16 * d) = n % d + d * (n / d % 16) := by
    rw [Nat.mul_comm, Nat.mod_mul]
  have hlt : n % d < d := Nat.mod_lt n hd
  have hsixteen : n / d % 16 < 16 := Nat.mod_lt _ (by decide)
  simp only [divNearest, hquotient, hremainder]
  rcases Nat.lt_trichotomy (n / d % 16) 8 with hlow | hhalf | hhigh
  · have hle : d * (n / d % 16) ≤ d * 7 := Nat.mul_le_mul_left d (by omega)
    rw [if_pos (by omega), if_pos (by omega)]
  · rw [hhalf]
    by_cases hzero : n % d = 0
    · simp only [hzero, Nat.zero_add]
      rw [if_neg (by omega), if_neg (by omega), if_neg (by omega), if_neg (by omega)]
    · have hodd : n / d / 16 % 2 = 1 := by
        have hne := mt h hzero
        omega
      rw [if_neg (by omega), if_neg (by omega), if_neg (by omega), if_pos (by omega), hodd]
  · have hle : d * 9 ≤ d * (n / d % 16) := Nat.mul_le_mul_left d (by omega)
    rw [if_neg (by omega), if_pos (by omega), if_neg (by omega), if_pos (by omega)]

end divNearest

section scaled

/-- The quotient `n / d` over `2 ^ e`, as a numerator and a denominator. -/
def scaled (e : Int) (n d : Nat) : Nat × Nat :=
  match e with
  | .ofNat k => (n, d * 2 ^ k)
  | .negSucc k => (n * 2 ^ (k + 1), d)

variable {n d : Nat}

private theorem divNearestScaled_eq (e : Int) (n d : Nat) :
    divNearestScaled 2 e n d = divNearest (scaled e n d).1 (scaled e n d).2 := by
  cases e <;> rfl

private theorem divFloorScaled_eq (e : Int) (n d : Nat) :
    divFloorScaled 2 e n d = (scaled e n d).1 / (scaled e n d).2 := by
  cases e <;> rfl

private theorem scaled_pos (e : Int) (n : Nat) (hd : 0 < d) : 0 < (scaled e n d).2 := by
  cases e with
  | ofNat k => exact Nat.mul_pos hd (Nat.two_pow_pos k)
  | negSucc k => exact hd

private theorem scaled_ratio (e : Int) (n : Nat) (hd : 0 < d) :
    ((scaled e n d).1 : ℚ) / (scaled e n d).2 = n / d / 2 ^ e := by
  have hd' : (d : ℚ) ≠ 0 := by exact_mod_cast hd.ne'
  cases e with
  | ofNat k =>
    simp only [scaled, Int.ofNat_eq_natCast, zpow_natCast]
    push_cast
    field_simp
  | negSucc k =>
    simp only [scaled, zpow_negSucc]
    push_cast
    field_simp

private theorem le_ratio_iff (b : Nat) (e : Int) (n : Nat) (hd : 0 < d) :
    b * (scaled e n d).2 ≤ (scaled e n d).1 ↔ (b : ℚ) * 2 ^ e ≤ n / d := by
  have hpos : (0 : ℚ) < (scaled e n d).2 := by exact_mod_cast scaled_pos e n hd
  have htwo : (0 : ℚ) < 2 ^ e := by positivity
  rw [← le_div_iff₀ htwo, ← scaled_ratio e n hd, le_div_iff₀ hpos]
  norm_cast

private theorem binaryExponent_eq (n d : Nat) :
    binaryExponent n d =
      if (scaled (n.log2 - d.log2) n d).2 ≤ (scaled (n.log2 - d.log2) n d).1 then
        (n.log2 : Int) - d.log2
      else n.log2 - d.log2 - 1 := by
  unfold binaryExponent
  dsimp only
  cases (n.log2 : Int) - d.log2 <;> simp only [scaled, Nat.shiftLeft_eq, decide_eq_true_eq] <;>
    exact if_congr Iff.rfl rfl rfl

/-- The binary exponent lies below the quotient by less than a factor of two. -/
theorem binaryExponent_spec (hn : 0 < n) (hd : 0 < d) :
    (2 : ℚ) ^ binaryExponent n d ≤ n / d ∧ (n : ℚ) / d < 2 ^ (binaryExponent n d + 1) := by
  have hd' : (0 : ℚ) < d := by exact_mod_cast hd
  have hnlow : (2 : ℚ) ^ (n.log2 : Int) ≤ n := by exact_mod_cast Nat.log2_self_le hn.ne'
  have hnhigh : (n : ℚ) < 2 ^ ((n.log2 : Int) + 1) := by
    exact_mod_cast (Nat.log2_lt hn.ne').mp (Nat.lt_succ_self _)
  have hdlow : (2 : ℚ) ^ (d.log2 : Int) ≤ d := by exact_mod_cast Nat.log2_self_le hd.ne'
  have hdhigh : (d : ℚ) < 2 ^ ((d.log2 : Int) + 1) := by
    exact_mod_cast (Nat.log2_lt hd.ne').mp (Nat.lt_succ_self _)
  have htwo : (2 : ℚ) ≠ 0 := by norm_num
  have hfits := le_ratio_iff 1 ((n.log2 : Int) - d.log2) n hd
  rw [Nat.one_mul, Nat.cast_one, one_mul] at hfits
  have hupper : (n : ℚ) / d < 2 ^ ((n.log2 : Int) - d.log2 + 1) := by
    rw [div_lt_iff₀ hd']
    calc (n : ℚ) < 2 ^ ((n.log2 : Int) + 1) := hnhigh
      _ = 2 ^ ((n.log2 : Int) - d.log2 + 1) * 2 ^ (d.log2 : Int) := by
        rw [← zpow_add₀ htwo]
        congr 1
        omega
      _ ≤ 2 ^ ((n.log2 : Int) - d.log2 + 1) * d := by gcongr
  have hlower : (2 : ℚ) ^ ((n.log2 : Int) - d.log2 - 1) ≤ n / d := by
    rw [le_div_iff₀ hd']
    calc (2 : ℚ) ^ ((n.log2 : Int) - d.log2 - 1) * d
        ≤ 2 ^ ((n.log2 : Int) - d.log2 - 1) * 2 ^ ((d.log2 : Int) + 1) := by gcongr
      _ = 2 ^ (n.log2 : Int) := by
        rw [← zpow_add₀ htwo]
        congr 1
        omega
      _ ≤ n := hnlow
  rw [binaryExponent_eq]
  split
  · next h => exact ⟨hfits.mp h, hupper⟩
  · next h =>
    refine ⟨hlower, ?_⟩
    rw [Int.sub_add_cancel]
    exact not_le.mp (mt hfits.mpr h)

private theorem divFloorScaled_bounds (hn : 0 < n) (hd : 0 < d) (bits : Nat) :
    2 ^ bits ≤ divFloorScaled 2 (binaryExponent n d - bits) n d ∧
      divFloorScaled 2 (binaryExponent n d - bits) n d < 2 ^ (bits + 1) := by
  have htwo : (2 : ℚ) ≠ 0 := by norm_num
  have hpos := scaled_pos (binaryExponent n d - bits) n hd
  obtain ⟨hlow, hhigh⟩ := binaryExponent_spec hn hd
  have hle := le_ratio_iff (2 ^ bits) (binaryExponent n d - bits) n hd
  have hlt := le_ratio_iff (2 ^ (bits + 1)) (binaryExponent n d - bits) n hd
  have hscale : ∀ k : Nat, ((2 ^ k : Nat) : ℚ) * 2 ^ (binaryExponent n d - bits) =
      2 ^ (binaryExponent n d - bits + k) := by
    intro k
    rw [zpow_add₀ htwo, zpow_natCast, mul_comm]
    norm_cast
  rw [hscale, Int.sub_add_cancel] at hle
  have hnext : binaryExponent n d - bits + ((bits + 1 : Nat) : Int) = binaryExponent n d + 1 := by
    push_cast
    omega
  rw [hscale, hnext] at hlt
  rw [divFloorScaled_eq, Nat.le_div_iff_mul_le hpos, Nat.div_lt_iff_lt_mul hpos]
  exact ⟨hle.mpr hlow, Nat.lt_of_not_le (mt hlt.mp (not_le.mpr hhigh))⟩

private theorem scaled_add (e : Int) (n : Nat) (hd : 0 < d) :
    (scaled (e + 4) n d).1 * (16 * (scaled e n d).2) =
      (scaled e n d).1 * (scaled (e + 4) n d).2 := by
  have hne : ((scaled e n d).2 : ℚ) ≠ 0 := by exact_mod_cast (scaled_pos e n hd).ne'
  have hne' : ((scaled (e + 4) n d).2 : ℚ) ≠ 0 := by exact_mod_cast (scaled_pos (e + 4) n hd).ne'
  have hpow : (2 : ℚ) ^ (e + 4) = 2 ^ e * 16 := by
    rw [zpow_add₀ (by norm_num)]
    norm_num
  have hratio : ((scaled (e + 4) n d).1 : ℚ) / (scaled (e + 4) n d).2 =
      (scaled e n d).1 / (scaled e n d).2 / 16 := by
    rw [scaled_ratio (e + 4) n hd, scaled_ratio e n hd, hpow]
    ring
  rw [div_div, div_eq_div_iff hne' (by positivity)] at hratio
  have hcast : ((scaled (e + 4) n d).1 : ℚ) * (16 * (scaled e n d).2) =
      (scaled e n d).1 * (scaled (e + 4) n d).2 := by
    rw [← hratio]
    ring
  exact_mod_cast hcast

private theorem divNearestScaled_add (e : Int) (n : Nat) (hd : 0 < d) :
    divNearestScaled 2 (e + 4) n d = divNearest (scaled e n d).1 (16 * (scaled e n d).2) := by
  have hpos := scaled_pos e n hd
  rw [divNearestScaled_eq]
  exact divNearest_congr (scaled_pos (e + 4) n hd) (by omega) (scaled_add e n hd)

private theorem divFloorScaled_add (e : Int) (n : Nat) (hd : 0 < d) :
    divFloorScaled 2 (e + 4) n d = divFloorScaled 2 e n d / 16 := by
  have hpos : 0 < 16 * (scaled e n d).2 := Nat.mul_pos (by decide) (scaled_pos e n hd)
  rw [divFloorScaled_eq, divFloorScaled_eq, Nat.div_div_eq_div_mul, Nat.mul_comm _ 16,
    ← Nat.mul_div_mul_right _ _ hpos, scaled_add e n hd, Nat.mul_comm (scaled (e + 4) n d).2,
    Nat.mul_div_mul_right _ _ (scaled_pos (e + 4) n hd)]

end scaled

section roundTo

theorem ofIntWithPrec_scale (n k : Int) (t : Nat) :
    Dyadic.ofIntWithPrec (n * 2 ^ t) (k + t) = .ofIntWithPrec n k := by
  rw [← Int.shiftLeft_eq, Dyadic.ofIntWithPrec_shiftLeft_add]

private theorem log2_mul_two_pow {n : Nat} (hn : n ≠ 0) (t : Nat) :
    (n * 2 ^ t).log2 = n.log2 + t := by
  induction t with
  | zero => simp
  | succ t ih =>
    have hne : n * 2 ^ t ≠ 0 := Nat.mul_ne_zero hn (Nat.two_pow_pos t).ne'
    rw [Nat.pow_succ, ← Nat.mul_assoc, Nat.mul_comm, Nat.log2_two_mul hne, ih]
    omega

private theorem nearestDyadicShifted_scale (bits : Nat) {n : Int} (hn : n ≠ 0) (k : Int) (t : Nat) :
    nearestDyadicShifted bits (n * 2 ^ t) (k + t) = nearestDyadicShifted bits n k := by
  have habs : (n * 2 ^ t).natAbs = n.natAbs * 2 ^ t := by
    rw [Int.natAbs_mul, Int.natAbs_pow]
    rfl
  have hsign : (n * 2 ^ t).sign = n.sign := by
    rw [Int.sign_mul, Int.sign_eq_one_of_pos (by positivity : (0 : Int) < 2 ^ t), Int.mul_one]
  have hlog := log2_mul_two_pow (Int.natAbs_ne_zero.mpr hn) t
  simp only [nearestDyadicShifted, habs, hsign, hlog]
  by_cases hlong : n.natAbs.log2 + 1 ≤ bits
  · rw [if_pos hlong]
    by_cases hlong' : n.natAbs.log2 + t + 1 ≤ bits
    · rw [if_pos hlong', ofIntWithPrec_scale]
    · -- only zeros are dropped
      obtain ⟨drop, hdrop⟩ : ∃ drop, n.natAbs.log2 + t + 1 - bits = drop := ⟨_, rfl⟩
      obtain ⟨rest, rfl⟩ : ∃ rest, t = rest + drop := ⟨t - drop, by omega⟩
      have hnearest :
          divNearest (n.natAbs * 2 ^ (rest + drop)) (2 ^ drop) = n.natAbs * 2 ^ rest := by
        rw [Nat.pow_add, ← Nat.mul_assoc, divNearest_mul _ _ (Nat.two_pow_pos drop)]
      rw [if_neg hlong', hdrop, hnearest]
      have hvalue : n.sign * ((n.natAbs * 2 ^ rest : Nat) : Int) = n * 2 ^ rest := by
        rw [Nat.cast_mul, ← Int.mul_assoc, Int.sign_mul_natAbs, Nat.cast_pow]
        rfl
      have hprec : k + ((rest + drop : Nat) : Int) - drop = k + rest := by omega
      rw [hvalue, hprec, ofIntWithPrec_scale]
  · have hdrop : n.natAbs.log2 + t + 1 - bits = n.natAbs.log2 + 1 - bits + t := by omega
    have hnearest : divNearest (n.natAbs * 2 ^ t) (2 ^ (n.natAbs.log2 + 1 - bits + t)) =
        divNearest n.natAbs (2 ^ (n.natAbs.log2 + 1 - bits)) := by
      rw [Nat.pow_add, Nat.mul_comm n.natAbs, Nat.mul_comm (2 ^ (n.natAbs.log2 + 1 - bits)),
        divNearest_scale (Nat.two_pow_pos t)]
    have hprec : k + t - ((n.natAbs.log2 + 1 - bits + t : Nat) : Int) =
        k - (n.natAbs.log2 + 1 - bits : Nat) := by omega
    rw [if_neg hlong, if_neg (by omega), hdrop, hnearest, hprec]

theorem roundTo_ofIntWithPrec (bits : Nat) {n : Int} (hn : n ≠ 0) (k : Int) :
    (Dyadic.ofIntWithPrec n k).roundTo bits = nearestDyadicShifted bits n k := by
  have hodd := Int.shiftRight_trailingZeros_mod_two hn
  have hvalue : n >>> n.trailingZeros * 2 ^ n.trailingZeros = n := by
    rw [Int.shiftRight_eq_div_pow]
    exact Int.ediv_mul_cancel (by exact_mod_cast Int.two_pow_trailingZeros_dvd hn)
  have hne : n >>> n.trailingZeros ≠ 0 := by
    intro h
    rw [h] at hodd
    exact absurd hodd (by decide)
  have hscale := nearestDyadicShifted_scale bits hne (k - n.trailingZeros) n.trailingZeros
  rw [hvalue, Int.sub_add_cancel] at hscale
  rw [hscale, Dyadic.ofIntWithPrec, dif_neg hn, Dyadic.roundTo]
  split
  · next h =>
    rw [nearestDyadicShifted, if_pos (by exact h), Dyadic.ofOdd_eq_ofIntWithPrec]
  · rfl

private theorem divNearest_le {n d b : Nat} (hd : 0 < d) (h : n < b * d) : divNearest n d ≤ b := by
  have hlt : n / d < b := (Nat.div_lt_iff_lt_mul hd).mpr h
  unfold divNearest
  dsimp only
  split
  · omega
  · split
    · omega
    · have hparity := Nat.mod_lt (n / d) (by decide : 2 > 0)
      omega

private theorem le_divNearest {n d b : Nat} (hd : 0 < d) (h : b * d ≤ n) : b ≤ divNearest n d := by
  have hle : b ≤ n / d := (Nat.le_div_iff_mul_le hd).mpr h
  unfold divNearest
  dsimp only
  split
  · omega
  · split <;> omega

private theorem roundTo_ofIntWithPrec_of_le {bits : Nat} (hbits : 0 < bits) {n : Int} (hn : n ≠ 0)
    (hle : n.natAbs ≤ 2 ^ bits) (k : Int) :
    (Dyadic.ofIntWithPrec n k).roundTo bits = .ofIntWithPrec n k := by
  rw [roundTo_ofIntWithPrec bits hn]
  rcases Nat.lt_or_eq_of_le hle with hlt | heq
  · have hlog : n.natAbs.log2 + 1 ≤ bits := (Nat.log2_lt (Int.natAbs_ne_zero.mpr hn)).mpr hlt
    rw [nearestDyadicShifted, if_pos hlog]
  · -- a power of two, of one digit more, is also written with a single one
    have hsign : n.sign ≠ 0 := by simpa using hn
    have hvalue : n = n.sign * 2 ^ bits := by
      conv_lhs => rw [← Int.sign_mul_natAbs n, heq]
      rw [Nat.cast_pow]
      rfl
    have hone : n.sign.natAbs.log2 + 1 ≤ bits := by
      rw [Int.natAbs_sign_of_ne_zero hn]
      exact hbits
    have hscale := nearestDyadicShifted_scale bits hsign (k - bits) bits
    rw [Int.sub_add_cancel, ← hvalue] at hscale
    rw [hscale, nearestDyadicShifted, if_pos hone, ← ofIntWithPrec_scale _ _ bits,
      Int.sub_add_cancel, ← hvalue]

/-- Rounding to the same number of digits again changes nothing. -/
theorem roundTo_roundTo {bits : Nat} (hbits : 0 < bits) (x : Dyadic) :
    (x.roundTo bits).roundTo bits = x.roundTo bits := by
  cases x with
  | zero => rfl
  | ofOdd n k hn =>
    by_cases hshort : n.natAbs.log2 < bits
    · have hround : (Dyadic.ofOdd n k hn).roundTo bits = .ofOdd n k hn := by
        rw [Dyadic.roundTo, if_pos hshort]
      rw [hround, hround]
    · have hne : n ≠ 0 := by
        rintro rfl
        exact absurd hn (by decide)
      obtain ⟨drop, hdrop⟩ : ∃ drop, n.natAbs.log2 + 1 - bits = drop := ⟨_, rfl⟩
      have hlow : 2 ^ (bits - 1) * 2 ^ drop ≤ n.natAbs := by
        rw [← Nat.pow_add, show bits - 1 + drop = n.natAbs.log2 by omega]
        exact Nat.log2_self_le (Int.natAbs_ne_zero.mpr hne)
      have hhigh : n.natAbs < 2 ^ bits * 2 ^ drop := by
        rw [← Nat.pow_add, show bits + drop = n.natAbs.log2 + 1 by omega]
        exact (Nat.log2_lt (Int.natAbs_ne_zero.mpr hne)).mp (Nat.lt_succ_self _)
      have hpos := Nat.lt_of_lt_of_le (Nat.two_pow_pos (bits - 1))
        (le_divNearest (Nat.two_pow_pos drop) hlow)
      have hle := divNearest_le (Nat.two_pow_pos drop) hhigh
      have hround : (Dyadic.ofOdd n k hn).roundTo bits =
          .ofIntWithPrec (n.sign * divNearest n.natAbs (2 ^ drop)) (k - drop) := by
        rw [Dyadic.roundTo, if_neg hshort, nearestDyadicShifted, if_neg (by omega), hdrop]
      have hvalue : n.sign * (divNearest n.natAbs (2 ^ drop) : Int) ≠ 0 :=
        Int.mul_ne_zero (by simpa using hne) (by omega)
      have hsize : (n.sign * (divNearest n.natAbs (2 ^ drop) : Int)).natAbs ≤ 2 ^ bits := by
        rwa [Int.natAbs_mul, Int.natAbs_sign_of_ne_zero hne, Nat.one_mul, Int.natAbs_natCast]
      rw [hround, roundTo_ofIntWithPrec_of_le hbits hvalue hsize]

/-- Whether a fraction, cut off after four digits more than are wanted, lies half way above an even
number of so many digits while something has been cut off. -/
def EndsHalfway (bits : Nat) (num : Int) (den : Nat) : Prop :=
  let (n, d) := scaled (binaryExponent num.natAbs den - (bits + 3 : Nat)) num.natAbs den
  n / d % 32 = 8 ∧ n % d ≠ 0

instance (bits : Nat) (num : Int) (den : Nat) : Decidable (EndsHalfway bits num den) :=
  inferInstanceAs (Decidable (_ ∧ _))

variable {bits den : Nat} {num : Int}

private theorem truncatedDyadic_roundTo_eq (hnum : num ≠ 0) (hden : 0 < den) :
    let e := binaryExponent num.natAbs den - (bits + 3 : Nat)
    (truncatedDyadic (bits + 4) num den).roundTo bits =
      .ofIntWithPrec (num.sign * divNearest (divFloorScaled 2 e num.natAbs den) 16) (-(e + 4)) := by
  intro e
  have he : binaryExponent num.natAbs den - ((bits + 4 : Nat) : Int) + 1 = e := by
    simp only [e]
    omega
  obtain ⟨hlow, hhigh⟩ := divFloorScaled_bounds (Int.natAbs_pos.mpr hnum) hden (bits + 3)
  obtain ⟨m, hm⟩ : ∃ m, divFloorScaled 2 e num.natAbs den = m := ⟨_, rfl⟩
  rw [show divFloorScaled 2 _ num.natAbs den = m from hm] at hlow hhigh
  have hpos : 0 < m := Nat.lt_of_lt_of_le (Nat.two_pow_pos _) hlow
  have hvalue : num.sign * (m : Int) ≠ 0 := Int.mul_ne_zero (by simpa using hnum) (by omega)
  have habs : (num.sign * (m : Int)).natAbs = m := by
    rw [Int.natAbs_mul, Int.natAbs_sign_of_ne_zero hnum, Nat.one_mul, Int.natAbs_natCast]
  have hsign : (num.sign * (m : Int)).sign = num.sign := by
    have hone : (m : Int).sign = 1 := Int.sign_eq_one_of_pos (Int.natCast_pos.mpr hpos)
    rw [Int.sign_mul, Int.sign_sign, hone, Int.mul_one]
  have hlog : m.log2 = bits + 3 := (Nat.log2_eq_iff hpos.ne').mpr ⟨hlow, hhigh⟩
  have hdrop : bits + 3 + 1 - bits = 4 := by omega
  rw [truncatedDyadic, if_neg hnum]
  dsimp only
  rw [he, hm, roundTo_ofIntWithPrec bits hvalue, nearestDyadicShifted, habs, hsign, hlog,
    if_neg (by omega), hdrop]
  have hprec : -e - ((4 : Nat) : Int) = -(e + 4) := by omega
  exact congrArg (Dyadic.ofIntWithPrec _) hprec

/-- Cutting off and rounding gives the nearest number, unless the fraction ends half way. -/
theorem truncatedDyadic_roundTo (hnum : num ≠ 0) (hden : 0 < den)
    (h : ¬EndsHalfway bits num den) :
    (truncatedDyadic (bits + 4) num den).roundTo bits = nearestDyadic bits num den := by
  have he : binaryExponent num.natAbs den - bits + 1 =
      binaryExponent num.natAbs den - (bits + 3 : Nat) + 4 := by
    omega
  have hpos := scaled_pos (binaryExponent num.natAbs den - (bits + 3 : Nat)) num.natAbs hden
  have hcut := divNearest_div hpos fun height => by
    by_contra hne
    exact h ⟨height, hne⟩
  rw [truncatedDyadic_roundTo_eq hnum hden, nearestDyadic, if_neg hnum]
  dsimp only
  rw [he, divNearestScaled_add _ _ hden, divFloorScaled_eq]
  exact congrArg (fun m : Nat => Dyadic.ofIntWithPrec (num.sign * m) _) hcut

/-- A fraction that ends half way is cut off. -/
theorem truncatedDyadic_roundTo_halfway (hnum : num ≠ 0) (hden : 0 < den)
    (h : EndsHalfway bits num den) :
    (truncatedDyadic (bits + 4) num den).roundTo bits = truncatedDyadic bits num den := by
  have he : binaryExponent num.natAbs den - bits + 1 =
      binaryExponent num.natAbs den - (bits + 3 : Nat) + 4 := by
    omega
  have height :
      divFloorScaled 2 (binaryExponent num.natAbs den - (bits + 3 : Nat)) num.natAbs den % 32 =
      8 := by
    rw [divFloorScaled_eq]
    exact h.1
  rw [truncatedDyadic_roundTo_eq hnum hden, truncatedDyadic, if_neg hnum]
  dsimp only
  obtain ⟨m, hm⟩ : ∃ m, divFloorScaled 2 (binaryExponent num.natAbs den - (bits + 3 : Nat))
    num.natAbs den = m := ⟨_, rfl⟩
  rw [hm] at height
  have hdown : divNearest m 16 = m / 16 := by
    simp only [divNearest]
    rw [if_neg (by omega), if_neg (by omega)]
    omega
  rw [he, divFloorScaled_add _ _ hden, hm, hdown]

private theorem sign_ofIntWithPrec {n : Int} (hn : n ≠ 0) (k : Int) :
    (Dyadic.ofIntWithPrec n k).sign ≠ 0 := by
  have hodd := Int.shiftRight_trailingZeros_mod_two hn
  rw [Dyadic.ofIntWithPrec, dif_neg hn, Dyadic.sign]
  intro h
  rw [Int.sign_eq_zero_iff_zero.mp h] at hodd
  exact absurd hodd (by decide)

/-- A fraction other than zero stays so when it is rounded. -/
theorem nearestDyadic_sign (hnum : num ≠ 0) (hden : 0 < den) :
    (nearestDyadic (bits + 1) num den).sign ≠ 0 := by
  obtain ⟨hlow, -⟩ := divFloorScaled_bounds (Int.natAbs_pos.mpr hnum) hden bits
  have he : binaryExponent num.natAbs den - ((bits + 1 : Nat) : Int) + 1 =
      binaryExponent num.natAbs den - bits := by
    omega
  have hpos := scaled_pos (binaryExponent num.natAbs den - bits) num.natAbs hden
  have hnearest := le_divNearest hpos
    (Nat.mul_le_of_le_div _ _ _ (divFloorScaled_eq _ _ _ ▸ hlow))
  have htwo := Nat.two_pow_pos bits
  rw [nearestDyadic, if_neg hnum]
  dsimp only
  rw [he, divNearestScaled_eq]
  exact sign_ofIntWithPrec (Int.mul_ne_zero (by simpa using hnum) (by omega)) _

theorem truncatedDyadic_roundTo_sign (hnum : num ≠ 0) (hden : 0 < den) :
    ((truncatedDyadic (bits + 1 + 4) num den).roundTo (bits + 1)).sign ≠ 0 := by
  obtain ⟨hlow, -⟩ := divFloorScaled_bounds (Int.natAbs_pos.mpr hnum) hden (bits + 1 + 3)
  have hnearest := le_divNearest (d := 16) (b := 1) (by decide) (Nat.le_trans (by
    rw [Nat.one_mul, show 16 = 2 ^ 4 from rfl]
    exact Nat.pow_le_pow_right (by decide) (by omega)) hlow)
  rw [truncatedDyadic_roundTo_eq hnum hden]
  exact sign_ofIntWithPrec (Int.mul_ne_zero (by simpa using hnum) (by omega)) _

end roundTo

end DeskCalc
