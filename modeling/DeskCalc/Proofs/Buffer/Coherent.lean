import Mathlib.Data.List.Chain
import Mathlib.Data.List.TakeWhile
import DeskCalc.Proofs.Session.Caret

/-!
# Coherent buffers

A buffer is coherent if no operator stands right after an operator and no number has two decimal
points. A character can be put at the end of a coherent text exactly if its key is not refused
there, so a key keeps a buffer coherent as long as nothing but closing parentheses stands behind the
caret: these take part in neither rule.
-/

namespace DeskCalc.Buffer

/-- Whether a character is an operator that stands between two operands. -/
def isOperator (c : Char) : Bool := [c] ∈ Keypad.binaryOperators

/-- A text without an operator right after an operator, and without a second decimal point in any
run of characters that are no delimiters. -/
structure Coherent (t : Text) : Prop where
  operators : t.IsChain fun c d => ¬(isOperator c = true ∧ isOperator d = true)
  points : ∀ r, r <:+: t → (∀ c ∈ r, c ∉ Keypad.numberDelimiters) → r.count '.' ≤ 1

section numbers

variable {t : Text}

theorem currentNumber_suffix (t : Text) : currentNumber t <:+ t := by
  have hprefix := List.takeWhile_prefix (l := t.reverse) fun c => c ∉ Keypad.numberDelimiters
  have hsuffix := List.reverse_suffix.mpr hprefix
  rwa [List.reverse_reverse] at hsuffix

theorem not_delimiter_of_mem_currentNumber {c : Char} (h : c ∈ currentNumber t) :
    c ∉ Keypad.numberDelimiters := by
  have hc := List.mem_takeWhile_imp (List.mem_reverse.mp h)
  simpa using hc

private theorem mem_currentNumber {r : Text} (h : r <:+ t)
    (hr : ∀ c ∈ r, c ∉ Keypad.numberDelimiters) {c : Char} (hc : c ∈ r) : c ∈ currentNumber t := by
  obtain ⟨s, rfl⟩ := h
  have hrun : ∀ d ∈ r.reverse, decide (d ∉ Keypad.numberDelimiters) = true := by
    intro d hd
    exact decide_eq_true (hr d (List.mem_reverse.mp hd))
  rw [currentNumber, List.reverse_append, List.takeWhile_append_of_pos hrun, List.mem_reverse]
  exact List.mem_append_left _ (List.mem_reverse.mpr hc)

end numbers

section refusal

variable {t : Text} {c : Char}

/-- A key of one character is refused if it is a second point or a second operator. -/
theorem refuses_singleton_iff :
    refuses t [c] = true ↔
      (c = '.' ∧ '.' ∈ currentNumber t) ∨
        (isOperator c = true ∧ ∃ d ∈ t.getLast?, isOperator d = true) := by
  simp [refuses, isOperator, Keypad.decimalPoint, Option.any_eq_true]

private theorem refuses_of_neutral (hpoint : c ≠ '.') (hoperator : isOperator c = false)
    (t : Text) : refuses t [c] = false := by
  rw [← Bool.not_eq_true, refuses_singleton_iff]
  simp [hpoint, hoperator]

theorem refuses_nil (token : Text) : refuses [] token = false := by
  simp [refuses, currentNumber]

end refusal

section concat

variable {t : Text} {c : Char}

theorem coherent_nil : Coherent [] := by
  refine ⟨List.isChain_nil, fun r hr _ => ?_⟩
  rw [List.eq_nil_of_infix_nil hr]
  exact Nat.zero_le 1

theorem Coherent.of_isInfix {s : Text} (h : Coherent t) (hs : s <:+: t) : Coherent s where
  operators := List.IsChain.infix h.operators hs
  points r hr := h.points r (hr.trans hs)

/-- A text stays coherent under a further character exactly if the key of that character is not
refused at its end. -/
theorem coherent_concat_iff : Coherent (t ++ [c]) ↔ Coherent t ∧ refuses t [c] = false := by
  rw [← Bool.not_eq_true, refuses_singleton_iff, not_or]
  constructor
  · intro h
    refine ⟨h.of_isInfix (List.infix_append' [] t [c]), ?_, ?_⟩
    · rintro ⟨rfl, hpoint⟩
      have hsuffix : currentNumber t ++ ['.'] <:+ t ++ ['.'] :=
        List.suffix_concat_iff.mpr (.inr ⟨_, rfl, currentNumber_suffix t⟩)
      have htwo := h.points _ hsuffix.isInfix fun d hd => by
        rcases List.mem_append.mp hd with hd | hd
        · exact not_delimiter_of_mem_currentNumber hd
        · rw [List.mem_singleton.mp hd]
          decide
      have hone := List.count_pos_iff.mpr hpoint
      rw [List.count_append, List.count_singleton_self] at htwo
      omega
    · rintro ⟨hc, d, hd, hoperator⟩
      exact (List.isChain_append.mp h.operators).2.2 d hd c rfl ⟨hoperator, hc⟩
  · rintro ⟨h, hpoint, hoperator⟩
    refine ⟨?_, fun r hr hrun => ?_⟩
    · refine List.isChain_append.mpr ⟨h.operators, List.isChain_singleton c, fun d hd e he => ?_⟩
      obtain rfl : c = e := Option.some.inj he
      exact fun hboth => hoperator ⟨hboth.2, d, hd, hboth.1⟩
    · rcases List.infix_concat_iff.mp hr with hsuffix | hr
      · rcases List.suffix_concat_iff.mp hsuffix with rfl | ⟨s, rfl, hs⟩
        · exact Nat.zero_le 1
        · -- the run reaches to the end of the text, so before the new character it is the number
          have hfree : ∀ d ∈ s, d ∉ Keypad.numberDelimiters := fun d hd =>
            hrun d (List.mem_append_left _ hd)
          by_cases hc : c = '.'
          · subst hc
            have hnone : '.' ∉ s := fun hmem => hpoint ⟨rfl, mem_currentNumber hs hfree hmem⟩
            rw [List.count_append, List.count_eq_zero.mpr hnone, List.count_singleton_self]
          · have hone := h.points s hs.isInfix hfree
            rw [List.count_append, List.count_singleton, if_neg (by simpa using hc)]
            exact hone
      · exact h.points r hr hrun

theorem Coherent.concat (h : Coherent t) (hc : refuses t [c] = false) : Coherent (t ++ [c]) :=
  coherent_concat_iff.mpr ⟨h, hc⟩

/-- Whether a character takes part in neither rule. -/
def isNeutral (c : Char) : Bool := c ≠ '.' && !isOperator c

private theorem refuses_of_isNeutral (h : isNeutral c = true) (t : Text) :
    refuses t [c] = false := by
  simp only [isNeutral, Bool.and_eq_true, decide_eq_true_eq, Bool.not_eq_true'] at h
  exact refuses_of_neutral h.1 h.2 t

theorem Coherent.append_neutral (h : Coherent t) {u : Text} (hu : ∀ c ∈ u, isNeutral c = true) :
    Coherent (t ++ u) := by
  induction u generalizing t with
  | nil => rwa [List.append_nil]
  | cons c u ih =>
    have hc := h.concat (refuses_of_isNeutral (hu c List.mem_cons_self) t)
    rw [List.append_cons]
    exact ih hc fun d hd => hu d (List.mem_cons_of_mem c hd)

theorem coherent_of_neutral {u : Text} (hu : ∀ c ∈ u, isNeutral c = true) : Coherent u :=
  coherent_nil.append_neutral hu

end concat

section keys

/-- Whether a key types into the place before closing parentheses: it inserts at least one
character, an operator or a point only if that is all it inserts, and behind the caret nothing but
closing parentheses. -/
def isTypingKey (token : Text) (isFunction : Bool) : Bool :=
  match insertion token isFunction with
  | ([], _) => false
  | (c :: rest, step) =>
    (token = [c] || isNeutral c) && rest.all isNeutral && step ≤ rest.length + 1 &&
      ((c :: rest).drop step).all (· = ')')

private theorem isTypingKey_iff {token : Text} {isFunction : Bool} :
    isTypingKey token isFunction = true ↔
      ∃ c rest step, insertion token isFunction = (c :: rest, step) ∧
        (token = [c] ∨ isNeutral c = true) ∧ (∀ d ∈ rest, isNeutral d = true) ∧
        step ≤ (c :: rest).length ∧ ∀ d ∈ (c :: rest).drop step, d = ')' := by
  unfold isTypingKey
  split
  · next step h => simp [h]
  · next c rest step h =>
    simp only [h, Bool.and_eq_true, Bool.or_eq_true, decide_eq_true_eq, List.all_eq_true,
      Prod.mk.injEq, List.cons.injEq, List.length_cons]
    constructor
    · rintro ⟨⟨⟨hc, hrest⟩, hstep⟩, hdrop⟩
      exact ⟨c, rest, step, ⟨⟨rfl, rfl⟩, rfl⟩, hc, hrest, hstep, hdrop⟩
    · rintro ⟨_, _, _, ⟨⟨rfl, rfl⟩, rfl⟩, hc, hrest, hstep, hdrop⟩
      exact ⟨⟨⟨hc, hrest⟩, hstep⟩, hdrop⟩

/-- A buffer that is coherent, with nothing but closing parentheses behind the caret. -/
structure Typed (t : Text) (caret : Nat) : Prop where
  coherent : Coherent t
  behind : ∀ c ∈ t.drop caret, c = ')'

/-- A key that types keeps the buffer coherent and closed behind the caret. -/
theorem Typed.insertAt {t token : Text} {isFunction : Bool} {caret : Nat} (h : Typed t caret)
    (hcaret : caret ≤ t.length) (hkey : isTypingKey token isFunction = true) :
    Typed (insertAt t token isFunction caret).1 (insertAt t token isFunction caret).2 := by
  obtain ⟨c, rest, step, hinsertion, hc, hrest, hstep, hdrop⟩ := isTypingKey_iff.mp hkey
  have hprior : Coherent (prior t) ∧ ∀ d ∈ (prior t).drop (priorCaret t caret), d = ')' := by
    unfold prior priorCaret
    split
    · exact ⟨coherent_nil, by simp⟩
    · exact ⟨h.coherent, h.behind⟩
  have hclosing : ∀ d ∈ (prior t).drop (priorCaret t caret), isNeutral d = true := by
    intro d hd
    rw [hprior.2 d hd]
    decide
  have hlength : ((prior t).take (priorCaret t caret)).length = priorCaret t caret :=
    List.length_take_of_le (priorCaret_le hcaret)
  rcases insertAt_cases t token isFunction caret with ⟨hrefused, hinsert⟩ | ⟨hrefused, hinsert⟩
  · -- a failure is cleared before the key is looked at, and nothing is refused after no text
    have hshown : t ≠ errorSentinel := by
      intro ht
      rw [priorCaret, if_pos ht, List.take_zero, refuses_nil] at hrefused
      exact Bool.false_ne_true hrefused
    rw [hinsert, priorCaret, if_neg hshown]
    exact h
  · rw [hinsert, hinsertion]
    constructor
    · have hbefore : Coherent ((prior t).take (priorCaret t caret)) :=
        hprior.1.of_isInfix (List.take_prefix _ _).isInfix
      have hfirst : refuses ((prior t).take (priorCaret t caret)) [c] = false := by
        rcases hc with htoken | hneutral
        · rwa [← htoken]
        · exact refuses_of_isNeutral hneutral _
      rw [List.append_cons]
      exact ((hbefore.concat hfirst).append_neutral hrest).append_neutral hclosing
    · intro d hd
      have hbehind : ((prior t).take (priorCaret t caret) ++ (c :: rest) ++
          (prior t).drop (priorCaret t caret)).drop (priorCaret t caret + step) =
          (c :: rest).drop step ++ (prior t).drop (priorCaret t caret) := by
        obtain ⟨before, hbefore⟩ : ∃ before, (prior t).take (priorCaret t caret) = before :=
          ⟨_, rfl⟩
        rw [hbefore] at hlength ⊢
        rw [List.append_assoc, ← hlength, List.drop_length_add_append,
          List.drop_append_of_le_length hstep]
      rw [hbehind] at hd
      rcases List.mem_append.mp hd with hd | hd
      · exact hdrop d hd
      · exact hprior.2 d hd

theorem Typed.of_coherent {t : Text} (h : Coherent t) {caret : Nat} (hcaret : t.length ≤ caret) :
    Typed t caret :=
  ⟨h, by simp [List.drop_eq_nil_of_le hcaret]⟩

theorem Typed.right {t : Text} {caret caret' : Nat} (h : Typed t caret) (hle : caret ≤ caret') :
    Typed t caret' := by
  refine ⟨h.coherent, fun c hc => h.behind c ?_⟩
  obtain ⟨n, rfl⟩ := Nat.exists_eq_add_of_le hle
  rw [← List.drop_drop] at hc
  exact List.mem_of_mem_drop hc

theorem Typed.removeLast {t : Text} {caret : Nat} (h : Typed t caret) :
    Typed (removeLast t) (min caret (removeLast t).length) := by
  have hcoherent : Coherent (Buffer.removeLast t) :=
    h.coherent.of_isInfix (List.dropLast_prefix t).isInfix
  rcases Nat.le_total (Buffer.removeLast t).length caret with hle | hle
  · rw [Nat.min_eq_right hle]
    exact .of_coherent hcoherent (Nat.le_refl _)
  · rw [Nat.min_eq_left hle]
    obtain ⟨last, hlast⟩ : Buffer.removeLast t <+: t := List.dropLast_prefix t
    refine ⟨hcoherent, fun c hc => h.behind c ?_⟩
    rw [← hlast, List.drop_append_of_le_length hle]
    exact List.mem_append_left _ hc

end keys

end DeskCalc.Buffer
