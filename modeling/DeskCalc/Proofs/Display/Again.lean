import DeskCalc.Proofs.Display.Values

/-!
# Evaluating a result again

A result is shown as digits, with a minus sign or without. They are read as a numeral that
stands for them, and its value is close enough to them to be shown with them again, in
either unit of angles.
-/

namespace DeskCalc

section shownDigits

variable {k : Nat} {t : Int}

/-- Fifteen digits without the zeros at their end. -/
theorem shownDigits_spec (hlow : 10 ^ 14 ≤ k) (hhigh : k < 10 ^ 15) :
    let ds := Text.trimRight '0' (Text.ofNat k)
    ds.IsDigitRun ∧ ds.head? ≠ some '0' ∧ ds.length ≤ 15 ∧
      ∀ t : Int, (Numeral.ofDigits 10 ds : ℚ) * 10 ^ (t + 1 - ds.length) = Display.value k t := by
  intro ds
  have hpos : 0 < k := by omega
  have hrun := Text.isDigitRun_ofNat k
  have hhead := Text.head?_ofNat hpos
  have hlength : (Text.ofNat k).length = 15 := by
    have hle := (Nat.length_toDigits_le_iff (by decide : 1 < 10) (by decide : 0 < 15)).mpr hhigh
    have hlt := mt (Nat.length_toDigits_le_iff (by decide : 1 < 10) (by decide : 0 < 14)).mp
      (not_lt.mpr hlow)
    simp only [Text.ofNat]
    omega
  obtain ⟨m, hm⟩ := Text.trimRight_append '0' (Text.ofNat k)
  have hds : ds.IsDigitRun ∧ ds.head? ≠ some '0' := by
    obtain ⟨c, cs, hcs⟩ := List.exists_cons_of_ne_nil hrun.1
    rw [hcs] at hhead
    have hc : c ≠ '0' := by simpa using hhead
    have htrim : ds = c :: Text.trimRight '0' cs := by
      show Text.trimRight '0' (Text.ofNat k) = _
      rw [hcs, Text.trimRight_cons hc]
    refine ⟨⟨by simp [htrim], fun e he => hrun.2 e (Text.mem_trimRight he)⟩, ?_⟩
    simpa [htrim] using hc
  have hsum : ds.length + m = 15 := by
    rw [hm, List.length_append, List.length_replicate] at hlength
    exact hlength
  refine ⟨hds.1, hds.2, by omega, fun t => ?_⟩
  have hvalue : k = Numeral.ofDigits 10 ds * 10 ^ m := by
    rw [← Double.ofDigits_append_zeros, ← hm, Text.ofDigits_ofNat]
  have hplace : t + 1 - ds.length = m + (t - 14) := by omega
  rw [hplace, zpow_add₀ (by norm_num), zpow_natCast, ← mul_assoc, Display.value]
  congr 1
  rw [hvalue]
  push_cast
  rfl

/-- With zeros behind them up to the point they are an integer. -/
theorem shownDigits_zeros {ds : Text} {m : Nat} (hrun : ds.IsDigitRun) (hhead : ds.head? ≠ some '0')
    (hm : t + 1 - ds.length = m)
    (hvalue : (Numeral.ofDigits 10 ds : ℚ) * 10 ^ (t + 1 - ds.length) = Display.value k t) :
    let whole := ds ++ List.replicate m '0'
    whole.IsDigitRun ∧ whole.head? ≠ some '0' ∧
      (Numeral.ofDigits 10 whole : ℚ) = Display.value k t := by
  refine ⟨?_, ?_, ?_⟩
  · simpa using Double.isDigitRun_take_zeros (List.length_pos_of_ne_nil hrun.1) m hrun
  · rwa [List.head?_append_of_ne_nil _ hrun.1]
  · rw [Double.ofDigits_append_zeros, ← hvalue, hm, zpow_natCast]
    push_cast
    rfl

end shownDigits

/-- Every number is shown as digits or as a decimal, with a minus sign or without. -/
theorem Display.rounded_cases (z : Dyadic) :
    ∃ negative, (∃ ds : Text, ds.IsDigitRun ∧ rounded z = withSign negative ds) ∨
      ∃ d : Json.Decimal, rounded z = withSign negative d.text := by
  obtain ⟨n, d, hdouble, hshown⟩ := rounded_eq z
  rcases Nat.eq_zero_or_pos n with rfl | hn
  · refine ⟨false, .inl ⟨['0'], ⟨by simp, by decide⟩, ?_⟩⟩
    rw [hshown, ratio, if_pos rfl]
    rfl
  · obtain ⟨⟨hlow, hhigh⟩, -⟩ := fifteen_spec hn hdouble.pos
    obtain ⟨hrun, hhead, -, hvalue⟩ := shownDigits_spec hlow hhigh
    refine ⟨decide (z.toRat < 0), ?_⟩
    rw [hshown, ratio_eq _ _ hn]
    rcases layout.write_eq hrun hhead (fifteen n d).2 with ⟨m, -, -, hm, hwrite⟩ | ⟨x, hwrite, -⟩
    · obtain ⟨hzeros, -⟩ := shownDigits_zeros hrun hhead hm (hvalue _)
      exact .inl ⟨_, hzeros, by rw [hwrite]; rfl⟩
    · exact .inr ⟨x, by rw [hwrite]; rfl⟩

private theorem isNumber_withSign {t : Text} (h : ∀ c ∈ t, isNumberChar c = true)
    (negative : Bool) : ∀ c ∈ withSign negative t, isNumberChar c = true := by
  cases negative with
  | false => exact h
  | true =>
    intro c hc
    rcases List.mem_cons.mp hc with rfl | hc
    · rfl
    · exact h c hc

theorem isNumber_rounded (z : Dyadic) : ∀ c ∈ Display.rounded z, isNumberChar c = true := by
  obtain ⟨negative, ⟨ds, hds, h⟩ | ⟨d, h⟩⟩ := Display.rounded_cases z <;> rw [h]
  · exact isNumber_withSign (fun c hc => by rw [isNumberChar, hds.2 c hc, Bool.true_or]) negative
  · exact isNumber_withSign d.isNumber_text negative

section again

variable [Stack] {k : Nat} {t : Int}

end again

namespace Answer

section run

variable [Stack] {unit : AngleUnit} {limit : Int} {history : List DocText} {buffer : Text}

theorem exists_rounded_of_result {formula r : Text} (h : Evaluation.result? formula = some r) :
    ∃ z, r = Display.rounded z := by
  obtain ⟨shown, hshown, hr⟩ := Option.bind_eq_some_iff.mp h
  obtain ⟨outcome, -, rfl⟩ := Option.map_eq_some_iff.mp hshown
  cases outcome with
  | integer n =>
    simp only [Outcome.shown, Display.text?, Option.ite_none_left_eq_some, Option.some.injEq] at hr
    exact ⟨_, hr.2.symm⟩
  | float x => exact ⟨_, (Option.some.inj hr).symm⟩

theorem run_eq (unit : AngleUnit) (limit : Int) (history : List DocText) (buffer : Text) :
    run unit limit history buffer =
      ofResult limit (expression buffer) history
        (Evaluation.result? (Notation.normalize unit (expression buffer))) := rfl

end run

attribute [local instance] Stack.shallow

end Answer

end DeskCalc
