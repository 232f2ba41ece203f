import DeskCalc.Proofs.Degrees.Reading

/-!
# An angle in a call

The tree of a call whose argument is a text with the factor of radians after it, and the tree of the
call whose argument is that text in parentheses times the factor.
-/

namespace DeskCalc.Formula

/-- The functions whose argument is an angle. -/
def angleOperations : List (Text × Fn) :=
  [(text "sin", .sin), (text "cos", .cos), (text "tan", .tan)]

section call

variable {name : Text} {f : Fn}

private theorem angleOperations_spec : ∀ p ∈ angleOperations, IsFormulaText p.1 ∧
    Token.lex 0 p.1 = some [.name p.1] ∧ p.1 ∉ reservedWords ∧
      vocabulary.lookup p.1 = some (.operation (.fn p.2)) := by
  decide +kernel

/-- The tokens of a call. -/
theorem lex_call (hf : (name, f) ∈ angleOperations) (t : Text) :
    Token.lex 0 (name ++ '(' :: t) = (Token.lex 1 t).map ([.name name, .opening] ++ ·) := by
  obtain ⟨htext, hlex, -, -⟩ := angleOperations_spec _ hf
  rw [Token.lex_append _ htext (breaksAfter_opening name), hlex, Option.bind_some,
    Token.lex_opening, Option.map_map]
  rfl

end call

section radians

/-- The tokens of the factor of radians. -/
def radiansTokens : List Token :=
  [.op .times, .name (text "pi"), .op .over, .number (.integer 10 (text "180"))]

/-- The factor of radians ends the group that it stands in. -/
theorem lex_radians (depth : Int) {t : Text} (ht : IsFormulaText t) :
    Token.lex depth (text " * pi/180)" ++ t) =
      (Token.lex (depth - 1) t).map (radiansTokens ++ [.closing] ++ ·) := by
  have hspace : ∀ d r, Token.startsWithBang (List.dropWhile Token.isSpace r) = false →
      Token.lex d (' ' :: r) = Token.lex d r := by
    intro d r hr
    have hnext : ∀ inside, Token.next? inside (' ' :: r) = some ([], r) := by
      intro inside
      simp [Token.next?, hr, show Token.isSpace ' ' = true from rfl]
    rw [Token.lex_of_next? (hnext _) (by simp)]
    simp
  have htimes : ∀ d r, Token.lex d ('*' :: ' ' :: 'p' :: r) =
      (Token.lex d (' ' :: 'p' :: r)).map (.op .times :: ·) := by
    intro d r
    have hnext : ∀ inside, Token.next? inside ('*' :: ' ' :: 'p' :: r) =
        some ([.op .times], ' ' :: 'p' :: r) := fun _ => rfl
    rw [Token.lex_of_next? (hnext _) (by simp)]
    simp [Token.opens]
  have hfactor : IsFormulaText (text "pi/180") := by decide
  have hlex : Token.lex 0 (text "pi/180") =
      some [.name (text "pi"), .op .over, .number (.integer 10 (text "180"))] := by decide +kernel
  calc Token.lex depth (text " * pi/180)" ++ t)
      = Token.lex depth (' ' :: '*' :: ' ' :: (text "pi/180" ++ ')' :: t)) := rfl
    _ = (Token.lex depth (text "pi/180" ++ ')' :: t)).map (.op .times :: ·) := by
        rw [hspace depth _ rfl]
        exact (htimes depth _).trans (congrArg _ (hspace depth _ rfl))
    _ = (Token.lex (depth - 1) t).map (radiansTokens ++ [.closing] ++ ·) := by
        rw [Token.lex_append _ hfactor (breaksAfter_closing _), Token.lex_depth hfactor depth 0,
          hlex, Option.bind_some, Token.lex_closing, Token.lex_depth ht _ (depth - 1),
          Option.map_map, Option.map_map]
        rfl

/-- The tokens of an angle with the factor of radians after it. -/
theorem lex_append_radians (depth : Int) {t : Text} (ht : IsFormulaText t)
    (hends : ∀ c, t.getLast? = some c → c ∉ openChars) :
    Token.lex depth (t ++ text " * pi/180)") =
      (Token.lex 0 t).map (· ++ (radiansTokens ++ [.closing])) := by
  have hbreaks : BreaksAfter ' ' t := by
    refine ⟨by decide, by simp, fun _ c hc => ?_⟩
    have hopen := hends c hc
    constructor <;> rintro rfl <;> exact hopen (by decide)
  have happend := Token.lex_append (r := text "* pi/180)") depth ht hbreaks
  have hradians (d : Int) :
      Token.lex d (text " * pi/180)") = some (radiansTokens ++ [.closing]) := by
    have hfactor := lex_radians d (t := []) isFormulaText_nil
    rw [Token.lex_nil] at hfactor
    exact hfactor
  rw [Token.lex_depth ht depth 0] at happend
  refine happend.trans ?_
  cases Token.lex 0 t with
  | none => rfl
  | some ts => exact congrArg (Option.map (ts ++ ·)) (hradians _)

end radians

section trees

variable {name t : Text} {f : Fn} {x : Tree} {ts : List Token} {items : List Nested}
variable {es : List Element}

end trees

end DeskCalc.Formula
