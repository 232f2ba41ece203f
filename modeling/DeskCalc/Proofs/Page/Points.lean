import DeskCalc.Proofs.Buffer.Numbers
import DeskCalc.Proofs.Page.Clicks

/-!
# Points on the page

The key of the decimal point is refused if the number before the caret has a point. It is not
refused because of a point behind the caret, so a number gets a second point exactly if the key is
pressed in front of its first one. Every other key inserts no point, and what it inserts only ever
takes numbers apart.
-/

namespace DeskCalc

/-- Whether a key of the keypad inserts a token, as a function or as it stands. -/
def Command.Inserts (token : Text) (isFunction : Bool) : Prop :=
  .press token isFunction none ∈ keypad ∨
    isFunction = true ∧ ∃ pair, .pressFunction pair none ∈ keypad ∧
      (token = pair.primary ∨ token = pair.inverse)

private theorem Command.Inserts.passes {check : Text → Bool → Bool} {token : Text}
    {isFunction : Bool} (hcheck : keypad.all (keysPass check) = true)
    (h : Inserts token isFunction) : check token isFunction = true := by
  rcases h with hkey | ⟨rfl, pair, hkey, hpair⟩
  · have hpass := List.all_eq_true.mp hcheck _ hkey
    simpa [keysPass] using hpass
  · have hpass := List.all_eq_true.mp hcheck _ hkey
    simp only [keysPass, decide_true, Bool.true_and, Bool.and_eq_true] at hpass
    rcases hpair with rfl | rfl
    · exact hpass.1
    · exact hpass.2

namespace Buffer

/-- Whether a key inserts a point alone or no point at all. -/
def insertsPointAlone (token : Text) (isFunction : Bool) : Bool :=
  if token = Keypad.decimalPoint then (insertion token isFunction).1 = ['.']
  else '.' ∉ (insertion token isFunction).1

private theorem keypad_insertsPointAlone :
    Command.keypad.all (Command.keysPass insertsPointAlone) = true := by
  decide +kernel

section insertion

variable {s t u : Text} {c : Char}

private theorem SinglePoints.insert_char (h : SinglePoints (s ++ t)) (hc : c ≠ '.') :
    SinglePoints (s ++ c :: t) := by
  obtain ⟨hs, ht, hmeet⟩ := singlePoints_append_iff.mp h
  by_cases hd : c ∈ Keypad.numberDelimiters
  · exact (singlePoints_append_delimiter hd s t).mpr ⟨hs, ht⟩
  · have hbefore : SinglePoints (s ++ [c]) :=
      singlePoints_concat_iff.mpr ⟨hs, fun hpoint => hc hpoint.1⟩
    have hcount : (currentNumber (s ++ [c])).count '.' = (currentNumber s).count '.' := by
      simp [currentNumber_concat hd, hc]
    rw [List.append_cons, singlePoints_append_iff, hcount]
    exact ⟨hbefore, ht, hmeet⟩

private theorem SinglePoints.insert (h : SinglePoints (s ++ t)) (hu : '.' ∉ u) :
    SinglePoints (s ++ u ++ t) := by
  induction u generalizing s with
  | nil => rwa [List.append_nil]
  | cons c u ih =>
    simp only [List.mem_cons, not_or] at hu
    have hchar := h.insert_char (Ne.symm hu.1)
    rw [List.append_cons] at hchar ⊢
    exact ih hchar hu.2

private theorem SinglePoints.insert_point_iff (h : SinglePoints (s ++ t)) :
    SinglePoints (s ++ ['.'] ++ t) ↔ '.' ∉ currentNumber s ∧ '.' ∉ firstNumber t := by
  obtain ⟨hs, ht, -⟩ := singlePoints_append_iff.mp h
  have hcount : (currentNumber (s ++ ['.'])).count '.' = (currentNumber s).count '.' + 1 := by
    simp [currentNumber_concat (show '.' ∉ Keypad.numberDelimiters by decide)]
  rw [singlePoints_append_iff, singlePoints_concat_iff, hcount, ← List.count_eq_zero,
    ← List.count_eq_zero, ← List.count_pos_iff]
  constructor
  · rintro ⟨-, -, hone⟩
    omega
  · rintro ⟨hnone, hnone'⟩
    exact ⟨⟨hs, by omega⟩, ht, by omega⟩

private theorem SinglePoints.prior (h : SinglePoints t) (caret : Nat) :
    SinglePoints ((prior t).take (priorCaret t caret) ++ (prior t).drop (priorCaret t caret)) := by
  rw [List.take_append_drop]
  unfold Buffer.prior
  split
  · decide
  · exact h

/-- A failure has no points, so whether it is cleared makes no difference to the points around the
caret. -/
private theorem points_prior (t : Text) (caret : Nat) :
    ('.' ∈ currentNumber ((prior t).take (priorCaret t caret)) ↔
      '.' ∈ currentNumber (t.take caret)) ∧
      ('.' ∈ firstNumber ((prior t).drop (priorCaret t caret)) ↔
      '.' ∈ firstNumber (t.drop caret)) := by
  by_cases ht : t = errorSentinel
  · have hpoint : '.' ∉ t := by rw [ht]; decide
    have hbefore : '.' ∉ currentNumber (t.take caret) := fun h =>
      hpoint (List.mem_of_mem_take ((currentNumber_suffix _).subset h))
    have hbehind : '.' ∉ firstNumber (t.drop caret) := fun h =>
      hpoint (List.mem_of_mem_drop ((List.takeWhile_prefix _).subset h))
    have hprior : Buffer.prior t = [] := by rw [Buffer.prior, if_pos ht]
    have hnone : '.' ∉ currentNumber [] ∧ '.' ∉ firstNumber [] := by decide
    simp [hprior, hnone, hbefore, hbehind]
  · rw [Buffer.prior, priorCaret, if_neg ht, if_neg ht]
    exact ⟨Iff.rfl, Iff.rfl⟩

end insertion

section keys

variable {t token : Text} {isFunction : Bool}

private theorem refuses_decimalPoint_iff :
    refuses t Keypad.decimalPoint = true ↔ '.' ∈ currentNumber t := by
  have hoperator : isOperator '.' = false := by decide
  rw [Keypad.decimalPoint, refuses_singleton_iff]
  simp [hoperator]

/-- Whether a key is pressed that puts a point in front of the point that its number has. -/
def PutsPointBefore (t token : Text) (caret : Nat) : Prop :=
  token = Keypad.decimalPoint ∧ '.' ∈ firstNumber (t.drop caret) ∧
    '.' ∉ currentNumber (t.take caret)

/-- A key of the keypad can be inserted at any caret in the buffer. It leaves single points in all
numbers exactly if it does not put a point in front of the point that its number has. -/
theorem insert_single_points_iff (ht : SinglePoints t) {caret : Nat} (hcaret : caret ≤ t.length)
    (hkey : Command.Inserts token isFunction) :
    ∃ u caret', insert t token isFunction caret = .ok (u, caret') ∧
      (SinglePoints u ↔ ¬PutsPointBefore t token caret) := by
  have hinside : 0 ≤ (caret : Int) ∧ (caret : Int) ≤ t.length := by omega
  refine ⟨_, _, by rw [insert, if_pos hinside, Int.toNat_natCast], ?_⟩
  obtain ⟨hbefore, hbehind⟩ := points_prior t caret
  have halone := hkey.passes keypad_insertsPointAlone
  have haround := ht.prior caret
  rcases insertAt_cases t token isFunction caret with ⟨hrefused, hinsert⟩ | ⟨hkept, hinsert⟩ <;>
    rw [hinsert]
  · -- a refused key leaves the buffer; the key of the point is refused for a point before the caret
    refine iff_of_true ht ?_
    rintro ⟨rfl, -, hnone⟩
    exact hnone (hbefore.mp (refuses_decimalPoint_iff.mp hrefused))
  · unfold insertsPointAlone at halone
    split at halone
    · next htoken =>
      subst htoken
      have hpoint : '.' ∉ currentNumber (t.take caret) := fun h =>
        Bool.false_ne_true (hkept.symm.trans (refuses_decimalPoint_iff.mpr (hbefore.mpr h)))
      rw [of_decide_eq_true halone, haround.insert_point_iff, hbefore, hbehind]
      simp [PutsPointBefore, hpoint]
    · next htoken =>
      refine iff_of_true (haround.insert (of_decide_eq_true halone)) ?_
      rintro ⟨hpoint, -⟩
      exact htoken hpoint

/-- In `1.5+2` a point behind the first number is refused, and one behind the second is not. -/
theorem insert_single_points_of_sum :
    (SinglePoints (text "1.5+2") ∧ 5 ≤ (text "1.5+2").length ∧
      Command.Inserts Keypad.decimalPoint false) ∧
    ∃ u caret, insert (text "1.5+2") Keypad.decimalPoint false (5 : Nat) = .ok (u, caret) ∧
      (SinglePoints u ↔ ¬PutsPointBefore (text "1.5+2") Keypad.decimalPoint 5) := by
  have hsingle : SinglePoints (text "1.5+2") := by decide
  have hkey : Command.Inserts Keypad.decimalPoint false := .inl (by decide +kernel)
  exact ⟨⟨hsingle, by decide, hkey⟩, insert_single_points_iff hsingle (by decide) hkey⟩

/-- In front of `1.5` a point is taken. -/
theorem not_insert_single_points :
    ¬∀ (t token : Text) (isFunction : Bool) (caret : Nat), SinglePoints t → caret ≤ t.length →
      Command.Inserts token isFunction →
      ∃ u caret', insert t token isFunction caret = .ok (u, caret') ∧ SinglePoints u := by
  intro h
  have hkey : Command.Inserts Keypad.decimalPoint false := .inl (by decide +kernel)
  obtain ⟨u, caret, hinsert, hsingle⟩ :=
    h (text "1.5") Keypad.decimalPoint false 0 (by decide) (Nat.zero_le _) hkey
  have htyped : insert (text "1.5") Keypad.decimalPoint false (0 : Nat) = .ok (text ".1.5", 1) := by
    decide
  rw [htyped, Except.ok.injEq, Prod.mk.injEq] at hinsert
  rw [← hinsert.1] at hsingle
  exact absurd hsingle (by decide)

end keys

end Buffer

end DeskCalc
