import DeskCalc.Display
import DeskCalc.Proofs.Number.Rounding
import Mathlib.Data.Int.Log
import Mathlib.Data.Rat.Floor

/-!
# Fifteen digits of a quotient

The display writes the fifteen digits nearest a quotient and the place of the first of them. They
lie within half a unit of their last place. Conversely a quotient that lies so close to a number of
fifteen digits is written with these; only below a power of ten, where the digits stand ten times
closer, it has to lie ten times closer too.
-/

namespace DeskCalc

section scaled

variable {b n d : Nat}

/-- A quotient over a power is rounded to the nearest integer. -/
theorem divNearestScaled_close (hb : 0 < b) (hd : 0 < d) (e : Int) (n : Nat) :
    |(divNearestScaled b e n d : ℚ) - n / d / b ^ e| ≤ 1 / 2 := by
  have hquotient : ∀ p q : Nat, 0 < q → |(divNearest p q : ℚ) - p / q| ≤ 1 / 2 := by
    intro p q hq
    obtain ⟨hhigh, hlow⟩ := divNearest_close p q hq
    have hq' : (0 : ℚ) < q := by exact_mod_cast hq
    have hhigh' : 2 * ((divNearest p q : ℚ) * q) ≤ 2 * p + q := by exact_mod_cast hhigh
    have hlow' : 2 * (p : ℚ) ≤ 2 * (divNearest p q * q) + q := by exact_mod_cast hlow
    rw [abs_le, neg_le_sub_iff_le_add, sub_le_iff_le_add, div_le_iff₀ hq', ← sub_le_iff_le_add',
      le_div_iff₀ hq']
    constructor <;> linarith
  have hd' : (d : ℚ) ≠ 0 := by exact_mod_cast hd.ne'
  have hb' : (b : ℚ) ≠ 0 := by exact_mod_cast hb.ne'
  cases e with
  | ofNat k =>
    have h := hquotient n (d * b ^ k) (Nat.mul_pos hd (Nat.pow_pos hb))
    have hvalue : ((n : ℚ) / (d * b ^ k : Nat)) = n / d / b ^ (Int.ofNat k) := by
      rw [Int.ofNat_eq_natCast, zpow_natCast]
      push_cast
      rw [div_div]
    rwa [hvalue] at h
  | negSucc k =>
    have h := hquotient (n * b ^ (k + 1)) d hd
    have hvalue : (((n * b ^ (k + 1) : Nat) : ℚ) / d) = n / d / b ^ (Int.negSucc k) := by
      rw [zpow_negSucc]
      push_cast
      field_simp
    rwa [hvalue] at h

theorem divNearestScaled_eq_of_close (hb : 0 < b) (hd : 0 < d) {e : Int} {k : Nat}
    (h : |(n : ℚ) / d / b ^ e - k| < 1 / 2) : divNearestScaled b e n d = k := by
  have hclose := divNearestScaled_close hb hd e n
  have hlt : |(divNearestScaled b e n d : ℚ) - k| < 1 := by
    have htriangle := abs_sub_le (divNearestScaled b e n d : ℚ) (n / d / b ^ e) k
    linarith
  have hcast : |((divNearestScaled b e n d : Int) - k : Int)| < 1 := by exact_mod_cast hlt
  have hzero := Int.abs_lt_one_iff.mp hcast
  omega

end scaled

section decimalExponent

variable {n d : Nat}

private theorem powerOfTenFits_iff (hd : 0 < d) (e : Int) :
    powerOfTenFits n d e = true ↔ (10 : ℚ) ^ e ≤ n / d := by
  have hd' : (0 : ℚ) < d := by exact_mod_cast hd
  cases e with
  | ofNat k =>
    rw [powerOfTenFits, decide_eq_true_eq, Int.ofNat_eq_natCast, zpow_natCast, le_div_iff₀ hd',
      mul_comm]
    norm_cast
  | negSucc k =>
    rw [powerOfTenFits, decide_eq_true_eq, zpow_negSucc, le_div_iff₀ hd',
      inv_mul_le_iff₀ (by positivity), mul_comm]
    norm_cast

/-- The walk ends at the exponent if it has enough steps. -/
theorem settleDecimalExponent_eq {t : Int} (hfits : ∀ e, powerOfTenFits n d e = true ↔ e ≤ t) :
    ∀ {fuel : Nat} {e : Int}, (e - t).natAbs ≤ fuel → settleDecimalExponent n d fuel e = t := by
  intro fuel
  induction fuel with
  | zero =>
    intro e he
    rw [settleDecimalExponent]
    omega
  | succ fuel ih =>
    intro e he
    have hfit : powerOfTenFits n d e = decide (e ≤ t) := by
      rw [Bool.eq_iff_iff, hfits, decide_eq_true_iff]
    have hnext : powerOfTenFits n d (e + 1) = decide (e + 1 ≤ t) := by
      rw [Bool.eq_iff_iff, hfits, decide_eq_true_iff]
    rw [settleDecimalExponent, hfit, hnext]
    rcases lt_trichotomy e t with hlt | rfl | hgt
    · rw [decide_eq_true (by omega), decide_eq_true (by omega)]
      exact ih (by omega)
    · simp
    · rw [decide_eq_false (by omega)]
      exact ih (by omega)

private theorem binaryExponent_bounds (n d : Nat) :
    (n.log2 : Int) - d.log2 - 1 ≤ binaryExponent n d ∧
      binaryExponent n d ≤ n.log2 - d.log2 := by
  unfold binaryExponent
  dsimp only
  split_ifs <;> omega

/-- Both exponents lie between zero and the binary one. -/
private theorem log_between (hn : 0 < n) (hd : 0 < d) :
    let b := binaryExponent n d
    let t := Int.log 10 ((n : ℚ) / d)
    (0 ≤ b → 0 ≤ t ∧ t ≤ b) ∧ (b < 0 → b ≤ t ∧ t < 0) := by
  intro b t
  have hq : (0 : ℚ) < n / d := div_pos (by exact_mod_cast hn) (by exact_mod_cast hd)
  obtain ⟨hlow, hhigh⟩ := binaryExponent_spec hn hd
  have hten : (10 : ℚ) ^ t ≤ n / d := by exact_mod_cast Int.zpow_log_le_self (by norm_num) hq
  have hten' : (n : ℚ) / d < 10 ^ (t + 1) := by
    exact_mod_cast Int.lt_zpow_succ_log_self (by norm_num : 1 < 10) ((n : ℚ) / d)
  have htwo : (1 : ℚ) < 2 := by norm_num
  have hone : (1 : ℚ) < 10 := by norm_num
  constructor
  · intro hb
    have hpos : (10 : ℚ) ^ (0 : Int) < 10 ^ (t + 1) := by
      have hle : (1 : ℚ) ≤ 2 ^ b := one_le_zpow₀ htwo.le hb
      rw [zpow_zero]
      linarith
    have ht : 0 ≤ t := by
      have := (zpow_lt_zpow_iff_right₀ hone).mp hpos
      omega
    refine ⟨ht, ?_⟩
    have hle : (2 : ℚ) ^ t ≤ 10 ^ t := zpow_le_zpow_left₀ ht (by norm_num) (by norm_num)
    have hlt := (zpow_lt_zpow_iff_right₀ htwo).mp (hle.trans_lt (hten.trans_lt hhigh))
    omega
  · intro hb
    have hneg : (10 : ℚ) ^ t < 10 ^ (0 : Int) := by
      have hle : (2 : ℚ) ^ (b + 1) ≤ 1 := zpow_le_one_of_nonpos₀ htwo.le (by omega)
      rw [zpow_zero]
      linarith
    have ht : t < 0 := (zpow_lt_zpow_iff_right₀ hone).mp hneg
    refine ⟨?_, ht⟩
    have hle : (10 : ℚ) ^ (t + 1) ≤ 2 ^ (t + 1) := by
      have hinv : (2 : ℚ) ^ (-(t + 1)) ≤ 10 ^ (-(t + 1)) :=
        zpow_le_zpow_left₀ (by omega) (by norm_num) (by norm_num)
      rw [zpow_neg, zpow_neg] at hinv
      exact (inv_le_inv₀ (by positivity) (by positivity)).mp hinv
    have hlt := (zpow_lt_zpow_iff_right₀ htwo).mp (hlow.trans_lt (hten'.trans_le hle))
    omega

theorem decimalExponent_eq_log (hn : 0 < n) (hd : 0 < d) :
    decimalExponent n d = Int.log 10 ((n : ℚ) / d) := by
  have hq : (0 : ℚ) < n / d := div_pos (by exact_mod_cast hn) (by exact_mod_cast hd)
  have hfits : ∀ e, powerOfTenFits n d e = true ↔ e ≤ Int.log 10 ((n : ℚ) / d) := by
    intro e
    rw [powerOfTenFits_iff hd, ← Int.zpow_le_iff_le_log (by norm_num) hq]
    norm_cast
  obtain ⟨hlow, hhigh⟩ := binaryExponent_bounds n d
  obtain ⟨hpos, hneg⟩ := log_between hn hd
  -- the estimate lies between zero and the binary exponent as well
  refine settleDecimalExponent_eq hfits ?_
  rcases Int.lt_or_le (binaryExponent n d) 0 with hb | hb
  · have := hneg hb
    omega
  · have := hpos hb
    omega

/-- The decimal exponent lies below the quotient by less than a factor of ten. -/
theorem decimalExponent_spec (hn : 0 < n) (hd : 0 < d) :
    (10 : ℚ) ^ decimalExponent n d ≤ n / d ∧ (n : ℚ) / d < 10 ^ (decimalExponent n d + 1) := by
  have hq : (0 : ℚ) < n / d := div_pos (by exact_mod_cast hn) (by exact_mod_cast hd)
  rw [decimalExponent_eq_log hn hd]
  constructor
  · exact_mod_cast Int.zpow_log_le_self (by norm_num) hq
  · exact_mod_cast Int.lt_zpow_succ_log_self (by norm_num : 1 < 10) ((n : ℚ) / d)

private theorem decimalExponent_eq (hn : 0 < n) (hd : 0 < d) {t : Int} (hlow : (10 : ℚ) ^ t ≤ n / d)
    (hhigh : (n : ℚ) / d < 10 ^ (t + 1)) : decimalExponent n d = t := by
  obtain ⟨hlow', hhigh'⟩ := decimalExponent_spec hn hd
  have hle : ∀ {s u : Int}, (10 : ℚ) ^ s ≤ n / d → (n : ℚ) / d < 10 ^ (u + 1) → s ≤ u := by
    intro s u hs hu
    have hlt := (zpow_lt_zpow_iff_right₀ (by norm_num : (1 : ℚ) < 10)).mp (hs.trans_lt hu)
    omega
  exact le_antisymm (hle hlow' hhigh) (hle hlow hhigh')

end decimalExponent

namespace Display

/-- The fifteen digits of a quotient, and the place of the first of them. -/
def fifteen (n d : Nat) : Nat × Int :=
  let top := decimalExponent n d
  let digits := divNearestScaled 10 (top - 14) n d
  if digits = 10 ^ 15 then (10 ^ 14, top + 1) else (digits, top)

/-- The number that fifteen digits stand for, the first of them at the given place. -/
def value (digits : Nat) (top : Int) : ℚ := digits * 10 ^ (top - 14)

section fifteen

variable {n d : Nat}

theorem fifteen_spec (hn : 0 < n) (hd : 0 < d) :
    (10 ^ 14 ≤ (fifteen n d).1 ∧ (fifteen n d).1 < 10 ^ 15) ∧
      |value (fifteen n d).1 (fifteen n d).2 - n / d| ≤ 10 ^ ((fifteen n d).2 - 14) / 2 := by
  obtain ⟨top, htop⟩ : ∃ top, decimalExponent n d = top := ⟨_, rfl⟩
  obtain ⟨m, hm⟩ : ∃ m, divNearestScaled 10 (top - 14) n d = m := ⟨_, rfl⟩
  obtain ⟨u, hu⟩ : ∃ u : ℚ, (10 : ℚ) ^ (top - 14) = u := ⟨_, rfl⟩
  have hpos : 0 < u := hu ▸ by positivity
  obtain ⟨hlow, hhigh⟩ := decimalExponent_spec hn hd
  have hlow' : 10 ^ 14 * u ≤ n / d := by
    rw [← hu, ← zpow_natCast (10 : ℚ) 14, ← zpow_add₀ (by norm_num)]
    simpa [htop] using hlow
  have hhigh' : (n : ℚ) / d < 10 ^ 15 * u := by
    rw [← hu, ← zpow_natCast (10 : ℚ) 15, ← zpow_add₀ (by norm_num)]
    refine hhigh.trans_eq (congrArg _ ?_)
    rw [htop]
    norm_num
    ring
  have hclose : |(m : ℚ) * u - n / d| ≤ u / 2 := by
    have h := divNearestScaled_close (by norm_num : 0 < 10) hd (top - 14) n
    rw [hm, Nat.cast_ofNat, hu] at h
    have hscale : (m : ℚ) * u - n / d = ((m : ℚ) - n / d / u) * u := by
      field_simp
    rw [hscale, abs_mul, abs_of_pos hpos]
    calc _ ≤ 1 / 2 * u := mul_le_mul_of_nonneg_right h hpos.le
      _ = u / 2 := by ring
  obtain ⟨hbelow, habove⟩ := abs_le.mp hclose
  have hm14 : 10 ^ 14 ≤ m := by
    have h : (10 ^ 14 - 1 : ℚ) < m := by nlinarith
    have h' : (10 ^ 14 : ℚ) < (m + 1 : Nat) := by push_cast; linarith
    have h'' : 10 ^ 14 < m + 1 := by exact_mod_cast h'
    omega
  have hm15 : m ≤ 10 ^ 15 := by
    have h : (m : ℚ) < 10 ^ 15 + 1 := by nlinarith
    have h' : m < 10 ^ 15 + 1 := by exact_mod_cast h
    omega
  unfold fifteen
  simp only [htop, hm]
  split
  · next hround =>
    refine ⟨by norm_num, ?_⟩
    have hten : (10 : ℚ) ^ (top + 1 - 14) = 10 * u := by
      rw [← hu, mul_comm, ← zpow_add_one₀ (by norm_num)]
      congr 1
      omega
    have hvalue : value (10 ^ 14) (top + 1) = m * u := by
      rw [value, hten, hround]
      push_cast
      ring
    rw [hvalue, hten]
    linarith
  · next hround => exact ⟨⟨hm14, by omega⟩, by rwa [value, hu]⟩

private theorem fifteen_of_place (hn : 0 < n) (hd : 0 < d) {m : Nat} {t : Int}
    (hlow : 10 ^ 14 * (10 : ℚ) ^ (t - 14) ≤ n / d) (hhigh : (n : ℚ) / d < 10 ^ 15 * 10 ^ (t - 14))
    (hclose : |(n : ℚ) / d - m * 10 ^ (t - 14)| < 10 ^ (t - 14) / 2) :
    fifteen n d = if m = 10 ^ 15 then (10 ^ 14, t + 1) else (m, t) := by
  have hpos : (0 : ℚ) < 10 ^ (t - 14) := by positivity
  have htop : decimalExponent n d = t := by
    apply decimalExponent_eq hn hd
    · refine hlow.trans_eq' ?_
      rw [← zpow_natCast (10 : ℚ) 14, ← zpow_add₀ (by norm_num)]
      norm_num
    · refine hhigh.trans_eq ?_
      rw [← zpow_natCast (10 : ℚ) 15, ← zpow_add₀ (by norm_num)]
      congr 1
      norm_num
      ring
  have hdigits : divNearestScaled 10 (t - 14) n d = m := by
    apply divNearestScaled_eq_of_close (by norm_num) hd
    have hscale : (n : ℚ) / d / 10 ^ (t - 14) - m =
        ((n : ℚ) / d - m * 10 ^ (t - 14)) / 10 ^ (t - 14) := by
      field_simp
    rw [Nat.cast_ofNat, hscale, abs_div, abs_of_pos hpos, div_lt_iff₀ hpos]
    linarith
  simp only [fifteen, htop, hdigits]

/-- A quotient close enough to a number of fifteen digits is written with them. -/
theorem fifteen_eq (hn : 0 < n) (hd : 0 < d) {k : Nat} {t : Int} (hlow : 10 ^ 14 ≤ k)
    (hhigh : k < 10 ^ 15) (hclose : |(n : ℚ) / d - value k t| < 10 ^ (t - 14) / 2)
    (hpower : k = 10 ^ 14 → |(n : ℚ) / d - value k t| < 10 ^ (t - 15) / 2) :
    fifteen n d = (k, t) := by
  have hpos : (0 : ℚ) < 10 ^ (t - 14) := by positivity
  obtain ⟨hbelow, habove⟩ := abs_lt.mp hclose
  rw [value] at hbelow habove
  rcases le_or_gt ((10 : ℚ) ^ 14 * 10 ^ (t - 14)) ((n : ℚ) / d) with hle | hgt
  · have hk : (k : ℚ) ≤ 10 ^ 15 - 1 := by
      have h : k + 1 ≤ 10 ^ 15 := hhigh
      have h' : ((k + 1 : Nat) : ℚ) ≤ 10 ^ 15 := by exact_mod_cast h
      push_cast at h'
      linarith
    have hfits : (n : ℚ) / d < 10 ^ 15 * 10 ^ (t - 14) := by nlinarith
    rw [fifteen_of_place hn hd hle hfits hclose, if_neg hhigh.ne]
  · -- the quotient lies below a power of ten, where the digits stand closer
    have hk : k = 10 ^ 14 := by
      by_contra hne
      have h : 10 ^ 14 + 1 ≤ k := by omega
      have h' : ((10 ^ 14 + 1 : Nat) : ℚ) ≤ k := by exact_mod_cast h
      push_cast at h'
      nlinarith
    have hten : (10 : ℚ) ^ (t - 14) = 10 * 10 ^ (t - 15) := by
      rw [mul_comm, ← zpow_add_one₀ (by norm_num)]
      congr 1
      omega
    have hplace : t - 1 - 14 = t - 15 := by omega
    have hnear := hpower hk
    rw [value, hk, hten] at hnear
    rw [hten] at hgt
    have hpos' : (0 : ℚ) < 10 ^ (t - 15) := by positivity
    push_cast at hnear
    obtain ⟨hbelow', -⟩ := abs_lt.mp hnear
    have hwritten := @fifteen_of_place n d hn hd (10 ^ 15) (t - 1) (by rw [hplace]; nlinarith)
      (by rw [hplace]; linarith) (by
        rw [hplace]
        push_cast
        rwa [show (100000000000000 : ℚ) * (10 * 10 ^ (t - 15)) =
          1000000000000000 * 10 ^ (t - 15) by ring] at hnear)
    rw [hwritten, if_pos rfl, hk]
    simp

/-- The quotient may be off by half of the fifteenth part of its digits. -/
theorem fifteen_eq_of_relative (hn : 0 < n) (hd : 0 < d) {k : Nat} {t : Int} (hlow : 10 ^ 14 ≤ k)
    (hhigh : k < 10 ^ 15) (hclose : |(n : ℚ) / d - value k t| * (2 * 10 ^ 15) < value k t) :
    fifteen n d = (k, t) := by
  have hpos : (0 : ℚ) < 10 ^ (t - 14) := by positivity
  have hten : (10 : ℚ) ^ (t - 14) = 10 * 10 ^ (t - 15) := by
    rw [mul_comm, ← zpow_add_one₀ (by norm_num)]
    congr 1
    omega
  have hk : (k : ℚ) < 10 ^ 15 := by exact_mod_cast hhigh
  refine fifteen_eq hn hd hlow hhigh ?_ fun hpower => ?_
  · have hvalue : value k t < 10 ^ 15 * 10 ^ (t - 14) := by
      rw [value]
      exact mul_lt_mul_of_pos_right hk hpos
    linarith
  · have hvalue : value k t = 10 ^ 15 * 10 ^ (t - 15) := by
      rw [value, hpower, hten]
      push_cast
      ring
    rw [hvalue] at hclose ⊢
    linarith

theorem ratio_eq (layout : Double.Layout) (negative : Bool) (hn : 0 < n) :
    ratio layout negative n d =
      if negative then
        '-' :: layout.write (Text.trimRight '0' (Text.ofNat (fifteen n d).1)) (fifteen n d).2
      else layout.write (Text.trimRight '0' (Text.ofNat (fifteen n d).1)) (fifteen n d).2 := by
  rw [ratio, if_neg hn.ne']
  rfl

end fifteen

end Display

end DeskCalc
