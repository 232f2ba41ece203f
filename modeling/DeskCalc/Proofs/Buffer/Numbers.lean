import DeskCalc.Proofs.Buffer.Coherent

/-!
# The numbers of a text

Delimiters split a text into its numbers, the longest runs without a delimiter. When two texts are
put together their numbers stay as they are, except that the last of the first text and the first of
the second become one. That no number has two points is one of the two rules of coherent texts.
-/

namespace DeskCalc.Buffer

/-- The numbers of a text, from its start to its end. -/
def numbers (t : Text) : List Text := t.splitOnP (· ∈ Keypad.numberDelimiters)

/-- The number that a text begins with. -/
def firstNumber (t : Text) : Text := t.takeWhile (· ∉ Keypad.numberDelimiters)

/-- No number of the text has two points. -/
def SinglePoints (t : Text) : Prop := ∀ n ∈ numbers t, n.count '.' ≤ 1

instance : DecidablePred SinglePoints := fun t =>
  inferInstanceAs (Decidable (∀ n ∈ numbers t, n.count '.' ≤ 1))

section splitting

variable {s t : Text} {c d : Char}

private theorem singlePoints_of_free (ht : ∀ c ∈ t, c ∉ Keypad.numberDelimiters) :
    SinglePoints t ↔ t.count '.' ≤ 1 := by
  have hnumbers : numbers t = [t] :=
    List.splitOnP_eq_singleton fun c hc => decide_eq_false (ht c hc)
  simp [SinglePoints, hnumbers]

theorem singlePoints_append_delimiter (hd : d ∈ Keypad.numberDelimiters) (s t : Text) :
    SinglePoints (s ++ d :: t) ↔ SinglePoints s ∧ SinglePoints t := by
  have hnumbers : numbers (s ++ d :: t) = numbers s ++ numbers t :=
    List.splitOnP_append_cons s t (decide_eq_true hd)
  simp only [SinglePoints, hnumbers, List.mem_append, or_imp, forall_and]

private theorem exists_currentNumber (t : Text) :
    t = currentNumber t ∨ ∃ s d, d ∈ Keypad.numberDelimiters ∧ t = s ++ d :: currentNumber t := by
  have hsplit :=
    List.takeWhile_append_dropWhile (p := fun c => decide (c ∉ Keypad.numberDelimiters))
    (l := t.reverse)
  cases hrest : t.reverse.dropWhile fun c => decide (c ∉ Keypad.numberDelimiters) with
  | nil =>
    rw [hrest, List.append_nil] at hsplit
    exact .inl (by rw [currentNumber, hsplit, List.reverse_reverse])
  | cons d s =>
    have hd := List.head?_dropWhile_not (fun c => decide (c ∉ Keypad.numberDelimiters)) t.reverse
    rw [hrest, List.head?_cons] at hd
    refine .inr ⟨s.reverse, d, by simpa using hd, ?_⟩
    rw [hrest] at hsplit
    have hreverse := congrArg List.reverse hsplit
    rw [List.reverse_reverse, List.reverse_append, List.reverse_cons] at hreverse
    rw [currentNumber, ← List.singleton_append, ← List.append_assoc, hreverse]

private theorem exists_firstNumber (t : Text) :
    t = firstNumber t ∨ ∃ d s, d ∈ Keypad.numberDelimiters ∧ t = firstNumber t ++ d :: s := by
  have hsplit :=
    List.takeWhile_append_dropWhile (p := fun c => decide (c ∉ Keypad.numberDelimiters))
    (l := t)
  cases hrest : t.dropWhile fun c => decide (c ∉ Keypad.numberDelimiters) with
  | nil =>
    rw [hrest, List.append_nil] at hsplit
    exact .inl hsplit.symm
  | cons d s =>
    have hd := List.head?_dropWhile_not (fun c => decide (c ∉ Keypad.numberDelimiters)) t
    rw [hrest, List.head?_cons] at hd
    rw [hrest] at hsplit
    exact .inr ⟨d, s, by simpa using hd, hsplit.symm⟩

private theorem not_delimiter_of_mem_firstNumber (h : c ∈ firstNumber t) :
    c ∉ Keypad.numberDelimiters := by
  simpa using List.mem_takeWhile_imp h

/-- Two texts put together have single points if both have and the numbers that meet have no more
than one point between them. -/
theorem singlePoints_append_iff :
    SinglePoints (s ++ t) ↔ SinglePoints s ∧ SinglePoints t ∧
      (currentNumber s).count '.' + (firstNumber t).count '.' ≤ 1 := by
  obtain ⟨last, hlast⟩ : ∃ last, currentNumber s = last := ⟨_, rfl⟩
  obtain ⟨first, hfirst⟩ : ∃ first, firstNumber t = first := ⟨_, rfl⟩
  have hlastFree : ∀ c ∈ last, c ∉ Keypad.numberDelimiters := fun c hc =>
    not_delimiter_of_mem_currentNumber (hlast ▸ hc)
  have hfirstFree : ∀ c ∈ first, c ∉ Keypad.numberDelimiters := fun c hc =>
    not_delimiter_of_mem_firstNumber (hfirst ▸ hc)
  have hmeet : ∀ c ∈ last ++ first, c ∉ Keypad.numberDelimiters := fun c hc =>
    (List.mem_append.mp hc).elim (hlastFree c) (hfirstFree c)
  have hs := exists_currentNumber s
  have ht := exists_firstNumber t
  rw [hlast] at hs ⊢
  rw [hfirst] at ht ⊢
  clear hlast hfirst
  -- each text is its number at the seam, or a delimiter keeps the rest of it apart
  rcases hs with rfl | ⟨u, d, hd, rfl⟩ <;> rcases ht with rfl | ⟨e, v, he, rfl⟩
  · rw [singlePoints_of_free hmeet, singlePoints_of_free hlastFree, singlePoints_of_free hfirstFree,
      List.count_append]
    grind
  · rw [← List.append_assoc, singlePoints_append_delimiter he, singlePoints_append_delimiter he,
      singlePoints_of_free hmeet, singlePoints_of_free hlastFree, singlePoints_of_free hfirstFree,
      List.count_append]
    grind
  · rw [List.append_assoc, List.cons_append, singlePoints_append_delimiter hd,
      singlePoints_append_delimiter hd, singlePoints_of_free hmeet, singlePoints_of_free hlastFree,
      singlePoints_of_free hfirstFree, List.count_append]
    grind
  · rw [List.append_assoc, List.cons_append, ← List.append_assoc last,
      singlePoints_append_delimiter hd, singlePoints_append_delimiter hd,
      singlePoints_append_delimiter he, singlePoints_append_delimiter he,
      singlePoints_of_free hmeet, singlePoints_of_free hlastFree, singlePoints_of_free hfirstFree,
      List.count_append]
    grind

end splitting

section coherence

variable {t : Text} {c : Char}

theorem currentNumber_concat (hc : c ∉ Keypad.numberDelimiters) (t : Text) :
    currentNumber (t ++ [c]) = currentNumber t ++ [c] := by
  simp [currentNumber, hc]

private theorem SinglePoints.count_currentNumber (h : SinglePoints t) :
    (currentNumber t).count '.' ≤ 1 := by
  rw [← List.append_nil t, singlePoints_append_iff] at h
  exact Nat.le_of_add_right_le h.2.2

theorem singlePoints_concat_iff :
    SinglePoints (t ++ [c]) ↔ SinglePoints t ∧ ¬(c = '.' ∧ '.' ∈ currentNumber t) := by
  rw [singlePoints_append_iff, and_congr_right_iff]
  intro ht
  by_cases hc : c = '.'
  · subst hc
    have hpoint : SinglePoints ['.'] ∧ (firstNumber ['.']).count '.' = 1 := by decide
    rw [hpoint.2, ← List.count_pos_iff]
    simp only [hpoint.1, true_and]
    omega
  · have hchar : SinglePoints [c] ∧ (firstNumber [c]).count '.' = 0 := by
      by_cases hd : c ∈ Keypad.numberDelimiters
      · have hsplit := (singlePoints_append_delimiter hd [] []).mpr ⟨by decide, by decide⟩
        exact ⟨hsplit, by simp [firstNumber, hd]⟩
      · have hfree : ∀ d ∈ [c], d ∉ Keypad.numberDelimiters := by simpa using hd
        refine ⟨(singlePoints_of_free hfree).mpr ?_, ?_⟩
        · exact List.count_le_length
        · rw [firstNumber, List.count_eq_zero]
          intro hmem
          exact hc (List.mem_singleton.mp ((List.takeWhile_prefix _).subset hmem)).symm
    have hlast := ht.count_currentNumber
    simp [hchar, hc, hlast]

/-- A text is coherent if no operator stands right after an operator and no number
has two points. -/
theorem coherent_iff :
    Coherent t ↔ (t.IsChain fun c d => ¬(isOperator c = true ∧ isOperator d = true)) ∧
      SinglePoints t := by
  induction t using List.reverseRecOn with
  | nil =>
    have hnil : SinglePoints [] := by decide
    exact iff_of_true coherent_nil ⟨List.isChain_nil, hnil⟩
  | append_singleton t c ih =>
    rw [coherent_concat_iff, ih, ← Bool.not_eq_true, refuses_singleton_iff, not_or,
      List.isChain_append, singlePoints_concat_iff]
    have hoperators :
        (∀ d ∈ t.getLast?, ∀ e ∈ [c].head?, ¬(isOperator d = true ∧ isOperator e = true)) ↔
        ¬(isOperator c = true ∧ ∃ d ∈ t.getLast?, isOperator d = true) := by
      simp only [List.head?_cons, Option.mem_def, Option.some.injEq, forall_eq']
      grind
    rw [hoperators]
    have hsingle := List.isChain_singleton
      (R := fun c d => ¬(isOperator c = true ∧ isOperator d = true)) c
    tauto

instance : DecidablePred Coherent := fun _ => decidable_of_iff _ coherent_iff.symm

end coherence

end DeskCalc.Buffer
