import DeskCalc.Proofs.Display.Canonical

/-!
# The accuracy of the display

Whatever kind of number is to be shown, it is shown as a quotient with its sign and, unless it lies
near zero, almost its size. Therefore every finite number is shown canonically and to fifteen
digits, and an integer of no more digits exactly. Only an exact integer that is too long to be
written in full is not shown.
-/

namespace DeskCalc

namespace Shown

/-- The number that is to be shown, if it is finite. -/
def value? : Shown → Option ℚ
  | exact q => some q
  | binary x => some x.toRat
  | double (.finite negative m e) => some (withMinus negative (m * 2 ^ e))
  | double _ => none

/-- Whether it is an integer, known exactly, that is too long to be written in full. -/
def isTooLong : Shown → Bool
  | exact q => Display.isTooLong q
  | _ => false

end Shown

section integers

private theorem Text.ofNat_mul_pow {n : Nat} (hn : 0 < n) (m : Nat) :
    ofNat (n * 10 ^ m) = ofNat n ++ List.replicate m '0' := by
  induction m with
  | zero => simp
  | succ m ih =>
    have hpos : 0 < n * 10 ^ m := Nat.mul_pos hn (Nat.pow_pos (by decide))
    rw [Nat.pow_succ, ← Nat.mul_assoc, ofNat, Nat.toDigits_eq_if (by decide), if_neg (by omega),
      Nat.mul_div_cancel _ (by decide), Nat.mul_mod_left, ← ofNat, ih, List.replicate_succ',
      List.append_assoc]
    rfl

end integers

namespace Display

variable {x : ℚ} {negative : Bool} {n d : Nat}

/-- A quotient with a sign that is shown for a number: as close to it as a double is, unless it
lies near zero. -/
structure StandsIn (x : ℚ) (negative : Bool) (n d : Nat) : Prop where
  pos : 0 < d
  zero : x = 0 → n = 0
  sign : x ≠ 0 → negative = decide (x < 0)
  close : (2 : ℚ) ^ (-1022 : Int) ≤ |x| → |(n : ℚ) / d - (|x|)| * (8 * 10 ^ 15) ≤ 3 * |x|

section standsIn

private theorem withMinus_abs (x : ℚ) : withMinus (decide (x < 0)) |x| = x := by
  by_cases hx : x < 0
  · rw [decide_eq_true hx, withMinus, if_pos rfl, abs_of_neg hx, neg_neg]
  · rw [decide_eq_false hx, withMinus, if_neg (by simp), abs_of_nonneg (not_lt.mp hx)]

private theorem StandsIn.double (negative : Bool) (m : Nat) (e : Int) :
    StandsIn (withMinus negative (m * 2 ^ e)) negative (Double.ratio m e).1
    (Double.ratio m e).2 := by
  obtain ⟨hd, hratio⟩ := Double.ratio_value m e
  have hnonneg : (0 : ℚ) ≤ m * 2 ^ e := by positivity
  have habs : |withMinus negative ((m : ℚ) * 2 ^ e)| = m * 2 ^ e := by
    rw [abs_withMinus, abs_of_nonneg hnonneg]
  refine ⟨hd, ?_, ?_, ?_⟩
  · intro hzero
    rw [hzero, abs_zero] at habs
    rw [← habs, div_eq_zero_iff] at hratio
    have hd' : ((Double.ratio m e).2 : ℚ) ≠ 0 := by exact_mod_cast hd.ne'
    exact_mod_cast hratio.resolve_right hd'
  · intro hne
    have hpos : (0 : ℚ) < m * 2 ^ e := habs ▸ abs_pos.mpr hne
    cases negative with
    | false => simpa [withMinus] using hnonneg
    | true => simpa [withMinus] using hpos
  · intro _
    rw [hratio, habs, sub_self, abs_zero, zero_mul]
    positivity

private theorem exists_standsIn {z : Dyadic} (hz : |z.toRat - x| ≤ |x| / 2 ^ 53) :
    ∃ negative n d, rounded z = ratio layout negative n d ∧ StandsIn x negative n d := by
  by_cases hx : x = 0
  · subst hx
    have hzero : z = 0 := by
      rw [abs_zero, zero_div, sub_zero, abs_nonpos_iff] at hz
      rw [← Dyadic.toRat_inj, hz, Dyadic.toRat_zero]
    refine ⟨false, 0, 1, hzero ▸ rfl, Nat.one_pos, fun _ => rfl, fun h => absurd rfl h, fun h => ?_⟩
    rw [abs_zero] at h
    exact absurd h (not_le.mpr (by positivity))
  have hpos : 0 < |x| := abs_pos.mpr hx
  have hsigned : IsNearSigned (decide (x < 0)) z |x| := by
    rw [IsNearSigned, withMinus_abs]
    linarith
  obtain ⟨hnear, hsign⟩ := hsigned.isNear hpos
  obtain ⟨n, d, hdouble, hshown⟩ := rounded_eq z
  refine ⟨_, n, d, hshown, hdouble.pos, fun h => absurd h hx, fun _ => hsign, fun hnormal => ?_⟩
  -- far from zero two doubles lie closer than the digits shown
  have hstep : smallest / 2 = 2 ^ (-1022 : Int) / 2 ^ 53 := by
    rw [half_smallest, ← zpow_natCast (2 : ℚ) 53, ← zpow_sub₀ (by norm_num)]
    norm_num
  rcases hdouble.close_of_near hpos hnear with hclose | hclose <;> linarith

private theorem text?_eq (v : Shown) (hv : v.value? = some x) :
    text? v = none ∧ v.isTooLong = true ∨
      v.isTooLong = false ∧ ∃ negative n d, text? v = some (ratio layout negative n d) ∧
      StandsIn x negative n d := by
  cases v with
  | exact q =>
    obtain rfl : q = x := Option.some.inj hv
    by_cases hlong : Display.isTooLong q = true
    · exact .inl ⟨by rw [text?, if_pos hlong], hlong⟩
    · refine .inr ⟨by simpa [Shown.isTooLong] using hlong, ?_⟩
      have hclose := nearestDyadic_close 53 q.num q.den_pos
      rw [Rat.num_div_den] at hclose
      obtain ⟨negative, n, d, hshown, hstands⟩ := exists_standsIn hclose
      exact ⟨negative, n, d, by rw [text?, if_neg hlong, hshown], hstands⟩
  | binary z =>
    obtain rfl : z.toRat = x := Option.some.inj hv
    obtain ⟨negative, n, d, hshown, hstands⟩ := exists_standsIn (roundTo_close 53 z)
    exact .inr ⟨rfl, negative, n, d, by rw [text?, hshown], hstands⟩
  | double y =>
    cases y with
    | finite negative m e =>
      obtain rfl : withMinus negative (m * 2 ^ e) = x := Option.some.inj hv
      exact .inr ⟨rfl, negative, _, _, rfl, .double negative m e⟩
    | infinite _ => simp [Shown.value?] at hv
    | notANumber => simp [Shown.value?] at hv

end standsIn

section integers

private theorem layout_write_ofNat {i : Nat} (hshort : (Text.ofNat i).length ≤ 15) :
    layout.write (Text.trimRight '0' (Text.ofNat i)) ((Text.ofNat i).length - 1 : Nat) =
      Text.ofNat i := by
  obtain ⟨m, hm⟩ := Text.trimRight_append '0' (Text.ofNat i)
  have hne := List.length_pos_of_ne_nil (Text.isDigitRun_ofNat i).1
  have hlength := congrArg List.length hm
  rw [List.length_append, List.length_replicate] at hlength
  obtain ⟨ds, hds⟩ : ∃ ds, Text.trimRight '0' (Text.ofNat i) = ds := ⟨_, rfl⟩
  obtain ⟨w, hw⟩ : ∃ w, (Text.ofNat i).length = w := ⟨_, rfl⟩
  rw [hds] at hm hlength ⊢
  rw [hw] at hshort hne hlength ⊢
  have hfixed : layout.fixedFrom ≤ ((w - 1 : Nat) : Int) ∧
    ((w - 1 : Nat) : Int) < layout.fixedTo := by
    simp only [layout]
    omega
  have hwhole : ((w - 1 : Nat) : Int).toNat + 1 = w := by omega
  have hrest : ds.drop w = [] := List.drop_eq_nil_of_le (by omega)
  have hall : ds.take w = ds := List.take_of_length_le (by omega)
  rw [Double.Layout.write, if_pos hfixed, if_neg (by omega)]
  dsimp only
  rw [hwhole, hrest, hall, hm, show w - ds.length = m by omega]
  rfl

private theorem exists_fifteen {i : Nat} (hi : 0 < i) (hshort : i < 10 ^ 15) :
    ∃ t m : Nat, (Text.ofNat i).length = t + 1 ∧ (10 ^ 14 ≤ i * 10 ^ m ∧ i * 10 ^ m < 10 ^ 15) ∧
      value (i * 10 ^ m) t = i := by
  have hlength : (Text.ofNat i).length ≤ 15 :=
    (Nat.length_toDigits_le_iff (by decide) (by decide)).mpr hshort
  have hne := List.length_pos_of_ne_nil (Text.isDigitRun_ofNat i).1
  obtain ⟨t, ht⟩ : ∃ t, (Text.ofNat i).length = t + 1 := ⟨(Text.ofNat i).length - 1, by omega⟩
  obtain ⟨m, hm⟩ : ∃ m, t + m = 14 := ⟨14 - t, by omega⟩
  refine ⟨t, m, ht, ⟨?_, ?_⟩, ?_⟩
  · have hle : 10 ^ t ≤ i := by
      rcases Nat.eq_zero_or_pos t with rfl | htpos
      · exact hi
      · by_contra hlt
        have hle := (Nat.length_toDigits_le_iff (by decide : 1 < 10) htpos).mpr (not_le.mp hlt)
        have ht' : (Nat.toDigits 10 i).length = t + 1 := ht
        omega
    calc 10 ^ 14 = 10 ^ t * 10 ^ m := by rw [← Nat.pow_add, hm]
      _ ≤ i * 10 ^ m := Nat.mul_le_mul_right _ hle
  · have hlt : i < 10 ^ (t + 1) := (Nat.length_toDigits_le_iff (by decide) (by omega)).mp ht.le
    calc i * 10 ^ m < 10 ^ (t + 1) * 10 ^ m :=
          Nat.mul_lt_mul_of_pos_right hlt (Nat.pow_pos (by decide))
      _ = 10 ^ 15 := by rw [← Nat.pow_add, show t + 1 + m = 15 by omega]
  · have hplace : (t : Int) - 14 = -(m : Int) := by omega
    rw [value, hplace, zpow_neg, zpow_natCast]
    push_cast
    field_simp

private theorem ratio_ofNat {i : Nat} (hi : 0 < i) (hshort : i < 10 ^ 15) (hd : 0 < d)
    (hclose : |(n : ℚ) / d - i| * (2 * 10 ^ 15) < i) :
    ratio layout negative n d = withSign negative (Text.ofNat i) := by
  obtain ⟨t, m, ht, ⟨hlow, hhigh⟩, hvalue⟩ := exists_fifteen hi hshort
  have hn : 0 < n := by
    have hi' : (0 : ℚ) < i := by exact_mod_cast hi
    have hquotient : (0 : ℚ) < n / d := by
      by_contra hle
      have habs : (i : ℚ) ≤ |(n : ℚ) / d - i| := by
        rw [abs_of_neg (by linarith)]
        linarith
      linarith
    exact num_pos hquotient
  have hdigits : fifteen n d = (i * 10 ^ m, (t : Int)) := by
    apply fifteen_eq_of_relative hn hd hlow hhigh
    rwa [hvalue]
  have hlength : (Text.ofNat i).length ≤ 15 :=
    (Nat.length_toDigits_le_iff (by decide) (by decide)).mpr hshort
  have hwrite := layout_write_ofNat hlength
  rw [ht, Nat.add_sub_cancel] at hwrite
  rw [ratio_eq _ _ hn, hdigits, Text.ofNat_mul_pow hi, Text.trimRight_append_replicate, hwrite]
  rfl

private theorem StandsIn.ratio_ofInt {i : Int} (h : StandsIn i negative n d)
    (hshort : i.natAbs < 10 ^ 15) : ratio layout negative n d = Text.ofInt i := by
  by_cases hi : i = 0
  · subst hi
    rw [h.zero Int.cast_zero, ratio, if_pos rfl]
    rfl
  have hpos : 0 < i.natAbs := Int.natAbs_pos.mpr hi
  have habs : |(i : ℚ)| = i.natAbs := by rw [← Int.cast_abs, ← Nat.cast_natAbs]
  have hone : (1 : ℚ) ≤ i.natAbs := by exact_mod_cast hpos
  have hnormal : (2 : ℚ) ^ (-1022 : Int) ≤ |(i : ℚ)| := by
    have hsmall : (2 : ℚ) ^ (-1022 : Int) ≤ 1 := zpow_le_one_of_nonpos₀ (by norm_num) (by norm_num)
    exact hsmall.trans (habs ▸ hone)
  have hclose := h.close hnormal
  rw [habs] at hclose
  rw [ratio_ofNat hpos hshort h.pos (by linarith), h.sign (by exact_mod_cast hi)]
  cases i with
  | ofNat i =>
    have hnonneg : ¬((Int.ofNat i : Int) : ℚ) < 0 := by
      rw [Int.ofNat_eq_natCast, Int.cast_natCast, not_lt]
      exact Nat.cast_nonneg i
    rw [decide_eq_false hnonneg]
    rfl
  | negSucc i =>
    have hneg : ((Int.negSucc i : Int) : ℚ) < 0 := by exact_mod_cast Int.negSucc_lt_zero i
    rw [decide_eq_true hneg]
    rfl

end integers

/-- Every finite number is shown, unless it is an integer that is too long to be written in full.
What is shown for it is canonical and is no zero with a sign. It is the numeral of the number itself
if that is an integer of fifteen digits at most, and denotes almost the number if that is no smaller
than the normal doubles. -/
theorem text?_canonical (v : Shown) (hv : v.value? = some x) :
    (text? v = none ↔ v.isTooLong = true) ∧
      ∀ t, text? v = some t →
        ((∃ c : Canonical, c.text = t) ∧ t ≠ ['-', '0']) ∧
        (∀ i : Int, x = i → i.natAbs < 10 ^ 15 → t = Text.ofInt i) ∧
        ((2 : ℚ) ^ (-1022 : Int) ≤ |x| → |denoted t - x| ≤ 6 / 10 ^ 15 * |x|) := by
  rcases text?_eq v hv with ⟨hnone, hlong⟩ | ⟨hshort, negative, n, d, hshown, hstands⟩
  · refine ⟨⟨fun _ => hlong, fun _ => hnone⟩, fun t ht => ?_⟩
    rw [hnone] at ht
    simp at ht
  refine ⟨by simp [hshown, hshort], fun t ht => ?_⟩
  obtain rfl : ratio layout negative n d = t := Option.some.inj (hshown.symm.trans ht)
  obtain ⟨c, htext, hclose⟩ := exists_canonical negative (n := n) hstands.pos
  refine ⟨⟨⟨c, htext⟩, htext ▸ c.text_ne⟩, ?_, ?_⟩
  · rintro i rfl hi
    exact hstands.ratio_ofInt hi
  · intro hnormal
    have hpos : 0 < |x| := lt_of_lt_of_le (by positivity) hnormal
    have hnear := hstands.close hnormal
    have hsign := hstands.sign (abs_pos.mp hpos)
    have htriangle := abs_sub_le c.rational (withMinus negative (n / d)) (withMinus negative |x|)
    rw [withMinus_sub, abs_withMinus] at htriangle
    rw [← htext, c.denoted_text]
    have hx : withMinus negative |x| = x := by rw [hsign, withMinus_abs]
    rw [hx] at htriangle
    have hsize := le_abs_self ((n : ℚ) / d - |x|)
    linarith

/-- A third has no end of digits. -/
theorem text?_canonical_of_third :
    (Shown.exact (1 / 3)).value? = some (1 / 3) ∧
      text? (.exact (1 / 3)) = some (text "0.333333333333333") ∧
      |denoted (text "0.333333333333333") - 1 / 3| ≤ 6 / 10 ^ 15 * |1 / 3| := by
  have hvalue : (Shown.exact (1 / 3)).value? = some (1 / 3) := rfl
  have hshown : text? (.exact (1 / 3)) = some (text "0.333333333333333") := by decide +kernel
  have hnormal : (2 : ℚ) ^ (-1022 : Int) ≤ |1 / 3| := by
    have hsmall : (2 : ℚ) ^ (-1022 : Int) ≤ 2 ^ (-2 : Int) :=
      zpow_le_zpow_right₀ (by norm_num) (by norm_num)
    exact hsmall.trans (by norm_num)
  exact ⟨hvalue, hshown, ((text?_canonical _ hvalue).2 _ hshown).2.2 hnormal⟩

/-- An exact integer of too many digits is not shown at all. -/
theorem not_text?_canonical :
    ¬∀ (v : Shown) (x : ℚ), v.value? = some x →
      ∃ t, text? v = some t ∧ ((∃ c : Canonical, c.text = t) ∧ t ≠ ['-', '0']) ∧
        (∀ i : Int, x = i → i.natAbs < 10 ^ 15 → t = Text.ofInt i) ∧
        ((2 : ℚ) ^ (-1022 : Int) ≤ |x| → |denoted t - x| ≤ 6 / 10 ^ 15 * |x|) := by
  intro h
  obtain ⟨i, hi⟩ : ∃ i : Int, i.natAbs = 10 ^ Text.digitLimit := ⟨(10 ^ Text.digitLimit : Nat), rfl⟩
  obtain ⟨t, ht, -⟩ := h (.exact i) i rfl
  rw [text?_exact_intCast, hi, if_neg (lt_irrefl _)] at ht
  simp at ht

end Display

end DeskCalc
