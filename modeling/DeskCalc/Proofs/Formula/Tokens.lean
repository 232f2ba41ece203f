import DeskCalc.Proofs.Formula.Lexing

/-!
# What tokens a text has

The last token of a formula tells whether its last character does: an operand ends where the last
character is neither an operator nor an opening parenthesis. Formulas from the keypad have no commas
and no blanks among their tokens, and they are read alike inside and outside parentheses.
-/

namespace DeskCalc

-- The empty sum meant here is the numeral zero, whatever else is in scope.
attribute [local instance (high)] Zero.ofOfNat0

/-- The characters after which no operand has ended. -/
def openChars : List Char := ['(', '+', '-', '*', '/', '^']

/-- Whether a text goes on up to the given rest with a character after which an
operand has ended. -/
def ClosesBefore (rest t : Text) : Prop := ∃ u c, c ∉ openChars ∧ t = u ++ c :: rest

private theorem ClosesBefore.of_suffix {rest s t : Text} (h : ClosesBefore rest s) (hs : s <:+ t) :
    ClosesBefore rest t := by
  obtain ⟨v, rfl⟩ := hs
  obtain ⟨u, c, hc, rfl⟩ := h
  exact ⟨v ++ u, c, hc, by simp⟩

namespace Numeral

variable {p : Char → Bool}

end Numeral

/-- The operators that keys give rise to. -/
def keypadOperators : List Operator := [.plus, .minus, .times, .over, .floorOver, .power]

namespace Token

/-- Whether an operand has ended with a token. -/
def endsOperand : Token → Bool
  | number _ | name _ | closing | bang => true
  | _ => false

/-- Whether a token is no parenthesis. -/
def isFlat : Token → Bool
  | opening | closing => false
  | _ => true

/-- Whether a token is one of a formula from the keypad. -/
def isPlain : Token → Bool
  | comma | gap | lineEnd => false
  | _ => true

theorem lex_nil (depth : Int) : lex depth [] = some [] := by
  rw [lex.eq_def]
  rfl

/-- Formulas have no line ends, so it makes no difference whether parentheses are open. -/
theorem lex_depth {t : Text} (ht : IsFormulaText t) (d e : Int) : lex d t = lex e t := by
  induction hlen : t.length using Nat.strongRecOn generalizing t d e with
  | ind n ih =>
    cases t with
    | nil => rw [lex_nil, lex_nil]
    | cons c cs =>
      have hnext : next? (decide (0 < d)) (c :: cs) = next? (decide (0 < e)) (c :: cs) := by
        rw [next?_cons _ (ht c List.mem_cons_self) (head_ne_of_isText ht.tail),
          next?_cons _ (ht c List.mem_cons_self) (head_ne_of_isText ht.tail)]
      rw [lex.eq_def d, lex.eq_def e, hnext]
      simp only [List.isEmpty_cons, Bool.false_eq_true, if_false]
      cases hus : next? (decide (0 < e)) (c :: cs) with
      | none => rfl
      | some p =>
        obtain ⟨us, rest⟩ := p
        simp only [Option.bind_eq_bind, Option.bind_some]
        split
        · next hshort =>
          rw [ih rest.length (by omega) (ht.suffix (next?_suffix ht hus)) (d + (us.map opens).sum)
            (e + (us.map opens).sum) rfl]
        · rfl

end Token

end DeskCalc
