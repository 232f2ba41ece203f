import DeskCalc.Proofs.Display.Again

/-!
# Canonical numbers

What is shown for a number is digits, at most fifteen of them significant, with a point among them
and a power of ten where these are needed. No superfluous zero stands at its beginning or at the end
of its fraction, and zero has no sign. Read back, it is close to the quotient that it is shown for.
-/

namespace DeskCalc.Display

open Json (fractionText powerText powerValue)

/-- A number as it is shown: a sign, digits, digits after a point, a power of ten. -/
structure Canonical where
  negative : Bool
  whole : Text
  fraction : Option Text
  power : Option (Char × Text)
  isWhole : whole.IsDigitRun
  zero : whole = ['0'] ∨ whole.head? ≠ some '0'
  isFraction : ∀ ds ∈ fraction, ds.IsDigitRun ∧ ds.getLast? ≠ some '0'
  isPower : ∀ p ∈ power, (p.1 = '+' ∨ p.1 = '-') ∧ p.2.IsDigitRun
  significant : ((whole ++ fraction.getD []).dropWhile (· = '0')).length ≤ significantDigits
  signed : negative = true → Numeral.ofDigits 10 (whole ++ fraction.getD []) ≠ 0

/-- The power of ten behind its mark, if there is one. -/
def powerOf : Text → Int
  | _ :: s :: ds => powerValue (s, ds)
  | _ => 0

/-- A text without the minus sign that it may begin with. -/
def unsigned : Text → Text
  | '-' :: t => t
  | t => t

/-- The number that a text denotes: its digits up to the mark of a power of ten, as an integer
divided by a power of ten for each digit after the point, times that power of ten. -/
def denoted (t : Text) : ℚ :=
  let body := unsigned t
  let mantissa := body.takeWhile (· ≠ 'e')
  let whole := mantissa.takeWhile (· ≠ '.')
  let fraction := (mantissa.dropWhile (· ≠ '.')).drop 1
  let power := powerOf (body.dropWhile (· ≠ 'e'))
  withMinus (t.head? = some '-')
    (Numeral.ofDigits 10 (whole ++ fraction) * 10 ^ (power - fraction.length))

namespace Canonical

variable (c : Canonical)

def text : Text := withSign c.negative (c.whole ++ fractionText c.fraction ++ powerText c.power)

/-- The number that the parts stand for. -/
def rational : ℚ :=
  withMinus c.negative (Numeral.ofDigits 10 (c.whole ++ c.fraction.getD []) *
    10 ^ ((c.power.map powerValue).getD 0 - (c.fraction.getD []).length))

section denoted

private theorem digit_ne_mark {d : Char} (hd : Numeral.isPlainDigit d = true) :
    d ≠ '-' ∧ d ≠ '.' ∧ d ≠ 'e' :=
  ⟨ne_of_class hd (by decide), ne_of_class hd (by decide), ne_of_class hd (by decide)⟩

private theorem span_mark {m : Char} {s rest : Text} (hs : ∀ d ∈ s, d ≠ m)
    (hrest : rest = [] ∨ ∃ r, rest = m :: r) :
    (s ++ rest).takeWhile (· ≠ m) = s ∧ (s ++ rest).dropWhile (· ≠ m) = rest := by
  have hall : ∀ d ∈ s, decide (d ≠ m) = true := fun d hd => decide_eq_true (hs d hd)
  rw [List.takeWhile_append_of_pos hall, List.dropWhile_append_of_pos hall]
  rcases hrest with rfl | ⟨r, rfl⟩
  · simp
  · simp

private theorem not_mem_mantissa : ∀ d ∈ c.whole ++ fractionText c.fraction, d ≠ 'e' := by
  intro d hd
  rcases List.mem_append.mp hd with hd | hd
  · exact (digit_ne_mark (c.isWhole.2 d hd)).2.2
  · cases hf : c.fraction with
    | none => simp [hf, fractionText] at hd
    | some ds =>
      rw [hf] at hd
      rcases List.mem_cons.mp hd with rfl | hd
      · decide
      · exact (digit_ne_mark ((c.isFraction ds hf).1.2 d hd)).2.2

/-- A canonical text denotes what its parts stand for. -/
theorem denoted_text : denoted c.text = c.rational := by
  obtain ⟨d, ds, hwhole⟩ := List.exists_cons_of_ne_nil c.isWhole.1
  have hd := digit_ne_mark (c.isWhole.2 d (by simp [hwhole]))
  obtain ⟨body, hbody⟩ : ∃ body, c.whole ++ fractionText c.fraction ++ powerText c.power = body :=
    ⟨_, rfl⟩
  have hfirst : ∃ r, body = d :: r := ⟨_, by rw [← hbody, hwhole]; rfl⟩
  have hunsigned : unsigned (withSign c.negative body) = body := by
    obtain ⟨r, rfl⟩ := hfirst
    cases c.negative with
    | true => rfl
    | false =>
      rw [withSign, if_neg (by simp)]
      unfold unsigned
      split
      · next heq => exact absurd (List.cons.inj heq).1 hd.1
      · rfl
  have hsign : decide ((withSign c.negative body).head? = some '-') = c.negative := by
    obtain ⟨r, rfl⟩ := hfirst
    cases c.negative with
    | true => rfl
    | false => simpa [withSign] using hd.1
  have hpower : powerText c.power = [] ∨ ∃ r, powerText c.power = 'e' :: r := by
    cases c.power with
    | none => exact .inl rfl
    | some p => exact .inr ⟨_, rfl⟩
  have hfraction : fractionText c.fraction = [] ∨ ∃ r, fractionText c.fraction = '.' :: r := by
    cases c.fraction with
    | none => exact .inl rfl
    | some f => exact .inr ⟨_, rfl⟩
  obtain ⟨hmantissa, hrest⟩ := span_mark c.not_mem_mantissa hpower
  obtain ⟨hwhole', hfraction'⟩ :=
    span_mark (fun d hd => (digit_ne_mark (c.isWhole.2 d hd)).2.1) hfraction
  have hdigits : (fractionText c.fraction).drop 1 = c.fraction.getD [] := by
    cases c.fraction <;> rfl
  have hvalue : powerOf (powerText c.power) = (c.power.map powerValue).getD 0 := by
    cases c.power <;> rfl
  simp only [denoted, text, rational, hbody, hunsigned, hsign]
  simp only [← hbody, hmantissa, hrest, hwhole', hfraction', hdigits, hvalue]

end denoted

/-- Zero has no sign. -/
theorem text_ne : c.text ≠ ['-', '0'] := by
  intro h
  cases hsign : c.negative with
  | false =>
    obtain ⟨d, ds, hwhole⟩ := List.exists_cons_of_ne_nil c.isWhole.1
    have hfirst : '-' = d := by
      rw [text, hsign, hwhole] at h
      exact (List.cons.inj h).1.symm
    exact (digit_ne_mark (c.isWhole.2 d (by simp [hwhole]))).1 hfirst.symm
  | true =>
    have hzero : denoted ['-', '0'] = 0 := by decide +kernel
    have hrational := c.denoted_text
    rw [h, hzero, rational, hsign, withMinus, if_pos rfl, eq_comm, neg_eq_zero,
      mul_eq_zero] at hrational
    have hpow :
        (10 : ℚ) ^ ((c.power.map powerValue).getD 0 - ((c.fraction.getD []).length : Int)) ≠ 0 := by
      positivity
    exact c.signed hsign (by exact_mod_cast hrational.resolve_right hpow)

end Canonical

section layout

variable {k m : Nat} {t : Int} {ds : Text}

private theorem exists_canonical_of_integer (negative : Bool) (hrun : ds.IsDigitRun)
    (hhead : ds.head? ≠ some '0') (hshort : ds.length ≤ 15)
    (hne : (Numeral.ofDigits 10 ds : ℚ) ≠ 0) :
    ∃ c : Canonical, c.text = withSign negative ds ∧
      c.rational = withMinus negative (Numeral.ofDigits 10 ds) := by
  have hsignificant : ((ds ++ []).dropWhile (· = '0')).length ≤ significantDigits := by
    rw [List.append_nil]
    exact (List.dropWhile_sublist _).length_le.trans hshort
  have hne' : Numeral.ofDigits 10 (ds ++ []) ≠ 0 := by
    rw [List.append_nil]
    exact_mod_cast hne
  refine ⟨⟨negative, ds, none, none, hrun, .inr hhead, by simp, by simp, hsignificant,
    fun _ => hne'⟩, ?_, ?_⟩
  · simp [Canonical.text, fractionText, powerText]
  · simp [Canonical.rational]

private theorem exists_canonical_of_decimal (negative : Bool) (d : Json.Decimal)
    (hmantissa : d.whole ++ d.fraction.getD [] = List.replicate m '0' ++ ds) (hrun : ds.IsDigitRun)
    (hhead : ds.head? ≠ some '0') (hlast : ds.getLast? ≠ some '0') (hshort : ds.length ≤ 15)
    (hne : d.rational ≠ 0) :
    ∃ c : Canonical, c.text = withSign negative d.text ∧
      c.rational = withMinus negative d.rational := by
  have hsignificant :
      ((d.whole ++ d.fraction.getD []).dropWhile (· = '0')).length ≤ significantDigits := by
    obtain ⟨e, es, rfl⟩ := List.exists_cons_of_ne_nil hrun.1
    have he : e ≠ '0' := by simpa using hhead
    rw [hmantissa, List.dropWhile_append_of_pos fun c hc => by simp [List.eq_of_mem_replicate hc],
      List.dropWhile_cons_of_neg (by simpa using he)]
    exact hshort
  have hne' : Numeral.ofDigits 10 (d.whole ++ d.fraction.getD []) ≠ 0 := by
    intro hzero
    rw [Json.Decimal.rational, hzero, Nat.cast_zero, zero_mul] at hne
    exact hne rfl
  have hfraction : ∀ f ∈ d.fraction, f.IsDigitRun ∧ f.getLast? ≠ some '0' := by
    intro f hf
    have hf' : d.fraction = some f := hf
    refine ⟨d.isFraction f hf, ?_⟩
    rw [hf', Option.getD_some] at hmantissa
    have hsame := congrArg List.getLast? hmantissa
    rw [List.getLast?_append_of_ne_nil _ (d.isFraction f hf).1,
      List.getLast?_append_of_ne_nil _ hrun.1] at hsame
    rw [hsame]
    exact hlast
  refine ⟨⟨negative, d.whole, d.fraction, d.power, d.isWhole, d.zero, hfraction, d.isPower,
    hsignificant, fun _ => hne'⟩, ?_, rfl⟩
  rw [Canonical.text, Json.Decimal.text, List.append_assoc]

private theorem exists_canonical_of_digits (negative : Bool) (hlow : 10 ^ 14 ≤ k)
    (hhigh : k < 10 ^ 15) :
    ∃ c : Canonical, c.text =
      withSign negative (layout.write (Text.trimRight '0' (Text.ofNat k)) t) ∧
      c.rational = withMinus negative (value k t) := by
  obtain ⟨hrun, hhead, hlength, hvalue⟩ := shownDigits_spec hlow hhigh
  have hlast := Text.getLast?_trimRight '0' (Text.ofNat k)
  obtain ⟨ds, hds⟩ : ∃ ds, Text.trimRight '0' (Text.ofNat k) = ds := ⟨_, rfl⟩
  rw [hds] at hrun hhead hlength hvalue hlast ⊢
  have hne := (value_pos hlow t).ne'
  rcases layout.write_eq hrun hhead t with ⟨m, -, htop, hm, hwrite⟩ | ⟨d, hwrite, hd⟩
  · have htop' : t < 15 := htop
    obtain ⟨hzeros, hfirst, hnumber⟩ := shownDigits_zeros hrun hhead hm (hvalue t)
    have hshort : (ds ++ List.replicate m '0').length ≤ 15 := by
      rw [List.length_append, List.length_replicate]
      omega
    rw [hwrite, ← hnumber]
    exact exists_canonical_of_integer negative hzeros hfirst hshort (hnumber ▸ hne)
  · obtain ⟨m, hmantissa⟩ := hd.mantissa rfl
    have hnumber : d.rational = value k t := hd.rational.trans (hvalue t)
    rw [hwrite, ← hnumber]
    exact exists_canonical_of_decimal negative d hmantissa hrun hhead hlast hlength (hnumber ▸ hne)

/-- What is shown for a quotient is canonical and close to it. -/
theorem exists_canonical (negative : Bool) {n d : Nat} (hd : 0 < d) :
    ∃ c : Canonical, c.text = ratio layout negative n d ∧
      |c.rational - withMinus negative (n / d)| * (2 * 10 ^ 14 - 1) ≤ n / d := by
  rcases Nat.eq_zero_or_pos n with rfl | hn
  · refine ⟨⟨false, ['0'], none, none, ⟨by simp, by decide⟩,
      .inl rfl, by simp, by simp, by decide, by simp⟩, ?_, ?_⟩
    · rw [ratio, if_pos rfl]
      rfl
    · have hzero : Numeral.ofDigits 10 ['0'] = 0 := by decide
      simp [Canonical.rational, withMinus, hzero]
  · obtain ⟨⟨hlow, hhigh⟩, hclose⟩ := fifteen_spec hn hd
    obtain ⟨c, htext, hrational⟩ :=
      exists_canonical_of_digits negative (t := (fifteen n d).2) hlow hhigh
    refine ⟨c, ?_, ?_⟩
    · rw [htext, ratio_eq _ _ hn]
      rfl
    · obtain ⟨hbelow, -⟩ := value_bounds (t := (fifteen n d).2) hlow hhigh
      obtain ⟨u, hu⟩ : ∃ u : ℚ, (10 : ℚ) ^ ((fifteen n d).2 - 14) = u := ⟨_, rfl⟩
      obtain ⟨y, hy⟩ : ∃ y, value (fifteen n d).1 (fifteen n d).2 = y := ⟨_, rfl⟩
      rw [hu, hy] at hclose hbelow
      rw [hrational, hy, withMinus_sub, abs_withMinus]
      have hhigh' := (abs_le.mp hclose).2
      linarith

end layout

end DeskCalc.Display
