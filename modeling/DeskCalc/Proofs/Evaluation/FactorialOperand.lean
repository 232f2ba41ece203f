import DeskCalc.Keypad
import DeskCalc.Proofs.Evaluation.LeadingZeros
import DeskCalc.Proofs.Formula.Numerals

/-!
# The number before an exclamation mark

An exclamation mark behind a parenthesis makes a factorial of all that the parentheses hold. Behind
digits it makes a factorial of those digits alone, wherever they begin. The two agree for a number
that has no digits after its point. What is before the point of another number is left in front of
the factorial of the digits after it, and is multiplied by it.
-/

namespace DeskCalc

open Notation Evaluation Formula

/-- A number that the keys write: digits, and a point that may have digits before it
and after it. -/
structure KeyedNumber where
  whole : Text
  fraction : Option Text
  isWhole : ∀ c ∈ whole, Numeral.isPlainDigit c = true
  isFraction : ∀ ds ∈ fraction, ∀ c ∈ ds, Numeral.isPlainDigit c = true
  nonempty : whole ≠ [] ∨ fraction.getD [] ≠ []

/-- The digits after the point of a number. -/
def decimals (t : Text) : Text := (t.dropWhile Text.isDigit).drop 1

namespace KeyedNumber

def text (n : KeyedNumber) : Text := n.whole ++ Json.fractionText n.fraction

/-- The digits before the point without the zeros in front. -/
def significant (n : KeyedNumber) : Text := dropLeadingZeros true n.whole

def numeral (n : KeyedNumber) : Numeral :=
  match n.fraction with
  | none => .integer 10 n.significant
  | some ds => .decimal n.significant (some ds) 0

variable (n : KeyedNumber)

section parts

private theorem isDigit_whole : ∀ c ∈ n.whole, Text.isDigit c = true :=
  fun c hc => isDigit_of_plainDigit (n.isWhole c hc)

private theorem isDigit_fraction {ds : Text} (h : n.fraction = some ds) :
    ∀ c ∈ ds, Text.isDigit c = true :=
  fun c hc => isDigit_of_plainDigit (n.isFraction ds h c hc)

private theorem isPlainDigit_significant : ∀ c ∈ n.significant, Numeral.isPlainDigit c = true :=
  fun c hc => n.isWhole c (mem_dropLeadingZeros hc)

private theorem decimals_text : decimals n.text = n.fraction.getD [] := by
  rw [decimals, text, List.dropWhile_append_of_pos n.isDigit_whole]
  cases hfraction : n.fraction with
  | none => rfl
  | some ds => rfl

private theorem mem_text {c : Char} (hc : c ∈ n.text) :
    Numeral.isPlainDigit c = true ∨ c = '.' := by
  rcases List.mem_append.mp hc with h | h
  · exact .inl (n.isWhole c h)
  · cases hfraction : n.fraction with
    | none => simp [hfraction, Json.fractionText] at h
    | some ds =>
      rw [hfraction] at h
      rcases List.mem_cons.mp h with rfl | h
      · exact .inr rfl
      · exact .inl (n.isFraction ds hfraction c h)

private theorem exists_digit : ∃ d ∈ n.text, Text.isDigit d = true := by
  rcases n.nonempty with h | h
  · obtain ⟨d, hd⟩ := List.exists_mem_of_ne_nil n.whole h
    exact ⟨d, List.mem_append_left _ hd, n.isDigit_whole d hd⟩
  · cases hfraction : n.fraction with
    | none => simp [hfraction] at h
    | some ds =>
      rw [hfraction, Option.getD_some] at h
      obtain ⟨d, hd⟩ := List.exists_mem_of_ne_nil ds h
      refine ⟨d, ?_, n.isDigit_fraction hfraction d hd⟩
      rw [text, hfraction]
      exact List.mem_append_right _ (List.mem_cons_of_mem '.' hd)

end parts

private theorem exists_of_isNumeric {t : Text} (ht : Keypad.isNumeric t = true)
    (hascii : ∀ c ∈ t, c.toNat < 128) : ∃ n : KeyedNumber, t = n.text := by
  have hplain : ∀ c ∈ t, Text.isDigit c = true → Numeral.isPlainDigit c = true := by
    intro c hc hdigit
    rwa [Text.isDigit_eq (by have := hascii c hc; omega)] at hdigit
  obtain ⟨w, hw⟩ : ∃ w, t.takeWhile Text.isDigit = w := ⟨_, rfl⟩
  obtain ⟨r, hr⟩ : ∃ r, t.dropWhile Text.isDigit = r := ⟨_, rfl⟩
  have hsplit : t = w ++ r := by
    rw [← hw, ← hr, List.takeWhile_append_dropWhile]
  have hwhole : ∀ c ∈ w, Numeral.isPlainDigit c = true := by
    intro c hc
    have hmem : c ∈ t := hsplit ▸ List.mem_append_left r hc
    exact hplain c hmem (List.all_eq_true.mp (hw ▸ List.all_takeWhile) c hc)
  have hdigits : ∀ f, r = '.' :: f → Keypad.isDigits f = true →
      ∀ c ∈ f, Numeral.isPlainDigit c = true := by
    intro f hf hall c hc
    have hmem : c ∈ t := by
      rw [hsplit, hf]
      exact List.mem_append_right w (List.mem_cons_of_mem '.' hc)
    exact hplain c hmem (List.all_eq_true.mp hall c hc)
  rw [Keypad.isNumeric, hw, hr] at ht
  split at ht
  · next f =>
    simp only [Bool.and_eq_true, Bool.not_eq_true', List.isEmpty_eq_false_iff] at ht
    exact ⟨⟨[], some f, hwhole, fun ds hds => Option.some.inj hds ▸ hdigits f rfl ht.2, .inr ht.1⟩,
      hsplit⟩
  · simp at ht
  · next hne =>
    refine ⟨⟨w, none, hwhole, by simp, .inl fun h => hne (by simpa using h)⟩, ?_⟩
    rw [hsplit]
    rfl
  · next f hne =>
    exact ⟨⟨w, some f, hwhole, fun ds hds => Option.some.inj hds ▸ hdigits f rfl ht,
      .inl fun h => hne (by simpa using h)⟩, hsplit⟩
  · simp at ht

section reading

variable {n}

private theorem significant_spec (hne : n.whole ≠ []) :
    n.significant ≠ [] ∧ (n.significant = ['0'] ∨ n.significant.head? ≠ some '0') := by
  obtain ⟨hrest, hzero, -⟩ := dropLeadingZeros_literal n.isWhole hne
  exact ⟨hrest, hzero⟩

private theorem significant_nil (h : n.whole = []) : n.significant = [] := by
  rw [significant, h]
  rfl

variable (n)

private theorem significant_append_ne_nil : n.significant ++ Json.fractionText n.fraction ≠ [] := by
  have hnonempty := n.nonempty
  cases hfraction : n.fraction with
  | none =>
    have hne : n.whole ≠ [] := by simpa [hfraction] using hnonempty
    simpa [Json.fractionText] using (significant_spec hne).1
  | some ds => simp [Json.fractionText]

private theorem dropLeadingZeros_text {x : Char} (hx : Text.isDigit x = false) (hpoint : x ≠ '.')
    (r : Text) :
    dropLeadingZeros true (n.text ++ x :: r) =
      n.significant ++ (Json.fractionText n.fraction ++ x :: dropLeadingZeros true r) := by
  rw [dropLeadingZeros_append hx, decide_eq_true hpoint, text]
  cases hfraction : n.fraction with
  | none => simp [Json.fractionText, significant]
  | some ds =>
    have hpoint' : decide ('.' ≠ '.') = false := by decide
    rw [Json.fractionText, dropLeadingZeros_append (by decide), hpoint',
      dropLeadingZeros_digits (n.isDigit_fraction hfraction)]
    simp [significant]

private theorem read?_text {rest : Text} (hrest : Numeral.EndsBefore rest) :
    Numeral.read? (n.significant ++ (Json.fractionText n.fraction ++ rest)) =
      some (n.numeral, rest) := by
  have hnonempty := n.nonempty
  cases hfraction : n.fraction with
  | none =>
    have hne : n.whole ≠ [] := by simpa [hfraction] using hnonempty
    obtain ⟨hne', hzero⟩ := significant_spec hne
    rw [numeral, hfraction]
    exact Numeral.read?_integer n.isPlainDigit_significant hne' hzero hrest
  | some ds =>
    have hne : n.significant ≠ [] ∨ ds ≠ [] := by
      rw [hfraction, Option.getD_some] at hnonempty
      exact hnonempty.imp_left fun h => (significant_spec h).1
    rw [numeral, hfraction]
    exact Numeral.read?_decimal n.isPlainDigit_significant (n.isFraction ds hfraction) hne hrest

private theorem isFormulaText_significant {rest : Text} (hrest : IsFormulaText rest) :
    IsFormulaText (n.significant ++ (Json.fractionText n.fraction ++ rest)) := by
  have hfraction : IsFormulaText (Json.fractionText n.fraction) := by
    intro c hc
    rcases n.mem_text (List.mem_append_right _ hc) with hdigit | rfl
    · exact (Token.plainDigit_spec hdigit).1
    · decide
  rw [isFormulaText_append, isFormulaText_append]
  exact ⟨isFormulaText_digits n.isPlainDigit_significant, hfraction, hrest⟩

private theorem lex_text (depth : Int) {rest : Text} (hchars : IsFormulaText rest)
    (hrest : Numeral.EndsBefore rest) :
    Token.lex depth (n.significant ++ (Json.fractionText n.fraction ++ rest)) =
      (Token.lex depth rest).map (.number n.numeral :: ·) := by
  refine Token.lex_of_read? depth (n.isFormulaText_significant hchars) (n.read?_text hrest) hrest ?_
  have hpos := List.length_pos_of_ne_nil n.significant_append_ne_nil
  simp only [List.length_append] at hpos ⊢
  omega

end reading

section factorial

variable {n}

private theorem not_name_of_mem {r : Text} (hr : ∀ c ∈ r, c ∉ nameLetters) :
    ∀ c ∈ n.text ++ r, c ∉ nameLetters := by
  have hdigits : ∀ c ∈ nameLetters, Numeral.isPlainDigit c = false ∧ c ≠ '.' := by decide
  intro c hc hname
  rcases List.mem_append.mp hc with h | h
  · obtain ⟨hdigit, hpoint⟩ := hdigits c hname
    rcases n.mem_text h with h | h
    · simp [h] at hdigit
    · exact hpoint h
  · exact hr c h hname

private theorem lex_bang (depth : Int) : Token.lex depth ['!'] = some [.bang] := by
  rw [Token.lex_of_next? (show Token.next? _ ['!'] = some ([.bang], []) from rfl) (by simp),
    Token.lex_nil]
  rfl

private theorem lex_point (depth : Int) {c : Char} {r : Text} (ht : IsFormulaText ('.' :: c :: r))
    (hc : Numeral.isPlainDigit c = false) : Token.lex depth ('.' :: c :: r) = none := by
  have hhead := Token.head_ne_of_isText ht.tail
  have hread : Numeral.read? ('.' :: c :: r) = none := by
    have hpoint : Numeral.isPlainDigit '.' = false := by decide
    simp [Numeral.read?, Numeral.digitRun, hpoint, hc]
  have hname : Text.isNameStart '.' = false := by decide
  have hnext : Token.next? (decide (0 < depth)) ('.' :: c :: r) = none := by
    rw [Token.next?_cons _ (by decide) hhead, hread]
    simp [hname, Token.operator?]
  rw [Token.lex.eq_def, hnext]
  rfl

variable (n)

private theorem factorials_text {x : Char} (hx : Text.isDigit x = false) (hbang : x ≠ '!')
    (r : Text) : factorials (n.text ++ x :: r) = n.text ++ x :: factorials r := by
  rw [factorials_append hx hbang, text]
  cases hfraction : n.fraction with
  | none =>
    rw [Json.fractionText, List.append_nil, factorials_digits n.isDigit_whole]
  | some ds =>
    rw [Json.fractionText, factorials_append (by decide) (by decide),
      factorials_digits n.isDigit_whole, factorials_digits (n.isDigit_fraction hfraction)]

private theorem tree?_parentheses (unit : AngleUnit) :
    tree? (normalize unit ('(' :: (n.text ++ [')', '!']))) =
      some (.call (.fn .factorial) (.number n.numeral)) := by
  have hname : ∀ c ∈ '(' :: (n.text ++ [')', '!']), c ∉ nameLetters := by
    intro c hc
    rcases List.mem_cons.mp hc with rfl | hc
    · decide
    · exact not_name_of_mem (by decide) c hc
  have hbang : factorials ['!'] = ['!'] := by decide
  have hformula : dropLeadingZeros true (normalize unit ('(' :: (n.text ++ [')', '!']))) =
      '(' :: (n.significant ++ (Json.fractionText n.fraction ++ [')', '!'])) := by
    rw [normalize_of_no_name hname, factorials_cons (by decide),
      n.factorials_text (by decide) (by decide), hbang]
    have hdrop := dropLeadingZeros_append (x := '(') (by decide) true [] (n.text ++ ')' :: ['!'])
    rw [List.nil_append] at hdrop
    rw [hdrop, decide_eq_true (by decide), n.dropLeadingZeros_text (by decide) (by decide)]
    rfl
  have hrest : Numeral.EndsBefore [')', '!'] :=
    Numeral.endsBefore_cons (by decide) (by decide) (by decide) ['!']
  have hchars : IsFormulaText [')', '!'] := by decide
  have htext :
      IsFormulaText ('(' :: (n.significant ++ (Json.fractionText n.fraction ++ [')', '!']))) :=
    isFormulaText_cons.mpr ⟨by decide, n.isFormulaText_significant hchars⟩
  have hlex : Token.lex 0 ('(' :: (n.significant ++ (Json.fractionText n.fraction ++ [')', '!']))) =
      some [.opening, .number n.numeral, .closing, .bang] := by
    rw [Token.lex_opening, n.lex_text _ hchars hrest, Token.lex_closing, lex_bang]
    rfl
  rw [tree?_eq (hformula ▸ htext), hformula, ofText?, Token.ofText, hlex]
  rfl

private theorem lex_call {f : Text} (hf : ∀ c ∈ f, Numeral.isPlainDigit c = true) (hne : f ≠ [])
    (depth : Int) :
    let call := DeskCalc.text "factorial" ++ '(' :: (dropLeadingZeros true f ++ [')'])
    dropLeadingZeros true (DeskCalc.text "factorial(" ++ f ++ [')']) = call ∧ IsFormulaText call ∧
      Token.lex depth call = some [.name (DeskCalc.text "factorial"), .opening,
        .number (.integer 10 (dropLeadingZeros true f)), .closing] := by
  intro call
  obtain ⟨hrest, hzero, -⟩ := dropLeadingZeros_literal hf hne
  have hdigits : ∀ c ∈ dropLeadingZeros true f, Numeral.isPlainDigit c = true :=
    fun c hc => hf c (mem_dropLeadingZeros hc)
  have hname : IsFormulaText (DeskCalc.text "factorial") := by decide
  have hdigitsText : IsFormulaText (dropLeadingZeros true f) := isFormulaText_digits hdigits
  refine ⟨?_, ?_, ?_⟩
  · have hsplit : DeskCalc.text "factorial(" ++ f ++ [')'] =
        DeskCalc.text "factorial" ++ '(' :: (f ++ ')' :: []) := by
      simp [DeskCalc.text]
    rw [hsplit, dropLeadingZeros_append (by decide), dropLeadingZeros_append (by decide)]
    rfl
  · rw [isFormulaText_append, isFormulaText_cons, isFormulaText_append]
    exact ⟨hname, by decide, hdigitsText, by decide⟩
  · have hword : Token.lex depth (DeskCalc.text "factorial") =
        some [.name (DeskCalc.text "factorial")] := by
      rw [Token.lex_of_next? (show Token.next? _ (DeskCalc.text "factorial") =
        some ([.name (DeskCalc.text "factorial")], []) from rfl) (by decide), Token.lex_nil]
      rfl
    have hnumber : ∀ depth, Token.lex depth (dropLeadingZeros true f) =
        some [.number (.integer 10 (dropLeadingZeros true f))] := by
      intro depth
      rw [Token.lex_of_next? (Token.next?_digits _ hdigits hrest hzero)
        (List.length_pos_of_ne_nil hrest), Token.lex_nil]
      rfl
    rw [Token.lex_append depth hname (breaksAfter_opening _), hword, Option.bind_some,
      Token.lex_opening, Token.lex_append _ hdigitsText (breaksAfter_closing _), hnumber,
      Option.bind_some, Token.lex_closing, Token.lex_nil]
    rfl

private theorem tree?_bang (h : n.fraction.getD [] = []) (unit : AngleUnit) :
    tree? (normalize unit (n.text ++ ['!'])) =
      some (.call (.fn .factorial) (.number n.numeral)) := by
  rw [normalize_of_no_name (not_name_of_mem (by decide))]
  cases hfraction : n.fraction with
  | none =>
    have hne : n.whole ≠ [] := by simpa [h] using n.nonempty
    obtain ⟨hformula, htext, hlex⟩ := lex_call n.isWhole hne 0
    have hwhole : n.text = n.whole := by rw [text, hfraction, Json.fractionText, List.append_nil]
    have hnumeral : n.numeral = .integer 10 (dropLeadingZeros true n.whole) := by
      rw [numeral, hfraction, significant]
    rw [hwhole, factorials_bang n.isDigit_whole hne, tree?_eq (hformula ▸ htext), hformula, ofText?,
      Token.ofText, hlex, hnumeral]
    rfl
  | some ds =>
    have hds : ds = [] := by rwa [hfraction, Option.getD_some] at h
    have hkept : factorials (n.text ++ ['!']) = n.text ++ ['!'] := by
      have hbang : factorials ['!'] = ['!'] := by decide
      rw [text, hfraction, hds, Json.fractionText, List.append_assoc, List.singleton_append,
        factorials_append (by decide) (by decide), factorials_digits n.isDigit_whole, hbang]
    have hrest : Numeral.EndsBefore ['!'] :=
      Numeral.endsBefore_cons (by decide) (by decide) (by decide) []
    have hchars : IsFormulaText ['!'] := by decide
    have hformula := n.dropLeadingZeros_text (x := '!') (by decide) (by decide) []
    have hnil : dropLeadingZeros true [] = [] := rfl
    rw [hnil] at hformula
    rw [hkept, tree?_eq (hformula ▸ n.isFormulaText_significant hchars), hformula, ofText?,
      Token.ofText, n.lex_text 0 hchars hrest, lex_bang]
    rfl

private theorem tree?_bang_of_decimals (h : n.fraction.getD [] ≠ []) (unit : AngleUnit) :
    tree? (normalize unit (n.text ++ ['!'])) =
      if n.whole = [] then none
      else some (.binary .times (.number (.decimal n.significant (some []) 0))
        (.call (.fn .factorial)
        (.number (.integer 10 (dropLeadingZeros true (n.fraction.getD [])))))) := by
  obtain ⟨ds, hfraction⟩ : ∃ ds, n.fraction = some ds := by
    cases hfraction : n.fraction with
    | none => simp [hfraction] at h
    | some ds => exact ⟨ds, rfl⟩
  rw [hfraction, Option.getD_some] at h ⊢
  obtain ⟨hcall, hcallText, hlex⟩ := lex_call (n.isFraction ds hfraction) h 0
  obtain ⟨call, hcall'⟩ :
      ∃ call, DeskCalc.text "factorial" ++ '(' :: (dropLeadingZeros true ds ++ [')']) =
      call := ⟨_, rfl⟩
  rw [hcall'] at hcall hcallText hlex
  have hrewritten : factorials (n.text ++ ['!']) =
      n.whole ++ '.' :: (DeskCalc.text "factorial(" ++ ds ++ [')']) := by
    rw [text, hfraction, Json.fractionText, List.append_assoc, List.cons_append,
      factorials_append (by decide) (by decide), factorials_digits n.isDigit_whole,
      factorials_bang (n.isDigit_fraction hfraction) h]
  have hfree : dropLeadingZeros false (DeskCalc.text "factorial(" ++ ds ++ [')']) = call := by
    rw [← hcall]
    rfl
  have hformula :
      dropLeadingZeros true (factorials (n.text ++ ['!'])) = n.significant ++ '.' :: call := by
    have hpoint : decide ('.' ≠ '.') = false := by decide
    rw [hrewritten, dropLeadingZeros_append (by decide), hpoint, hfree, significant]
  have htext : IsFormulaText (n.significant ++ '.' :: call) := by
    rw [isFormulaText_append, isFormulaText_cons]
    exact ⟨isFormulaText_digits n.isPlainDigit_significant, by decide, hcallText⟩
  have hrest : Numeral.EndsBefore call := by
    rw [← hcall']
    exact Numeral.endsBefore_cons (by decide) (by decide) (by decide) _
  rw [normalize_of_no_name (not_name_of_mem (by decide)), tree?_eq (hformula ▸ htext), hformula,
    ofText?, Token.ofText]
  by_cases hwhole : n.whole = []
  · rw [significant_nil hwhole, List.nil_append, ← hcall'] at htext
    have hnone := lex_point 0 htext (by decide)
    rw [if_pos hwhole, significant_nil hwhole, List.nil_append, ← hcall']
    exact congrArg (·.bind ofTokens?) hnone
  · have hread := Numeral.read?_decimal (f := []) n.isPlainDigit_significant (by simp)
      (.inl (significant_spec hwhole).1) hrest
    rw [List.nil_append] at hread
    have hshort : call.length < (n.significant ++ '.' :: call).length := by
      simp only [List.length_append, List.length_cons]
      omega
    rw [if_neg hwhole, Token.lex_of_read? 0 htext hread hrest hshort, hlex]
    rfl

end factorial

end KeyedNumber

namespace Answer

/-- The factorial of a number is that of the number in parentheses, as a formula and so in what is
shown, if the number has no digits after its point; with digits after the point it is another
formula. -/
theorem run_factorial [Stack] {n : Text} (hn : Keypad.isNumeric n = true)
    (hascii : ∀ c ∈ n, c.toNat < 128) (unit : AngleUnit) (limit : Int) (history : List DocText) :
    let bare := n ++ ['!']
    let grouped := '(' :: (n ++ [')', '!'])
    (tree? (normalize unit bare) = tree? (normalize unit grouped) ↔ decimals n = []) ∧
      (decimals n = [] →
        (run unit limit history bare).ok = (run unit limit history grouped).ok ∧
        (run unit limit history bare).buffer = (run unit limit history grouped).buffer) := by
  intro bare grouped
  obtain ⟨n, rfl⟩ := KeyedNumber.exists_of_isNumeric hn hascii
  have hgrouped := n.tree?_parentheses unit
  have hsame : decimals n.text = [] →
    tree? (normalize unit bare) = tree? (normalize unit grouped) := by
    intro h
    rw [n.decimals_text] at h
    exact (n.tree?_bang h unit).trans hgrouped.symm
  refine ⟨⟨?_, hsame⟩, ?_⟩
  · intro htree
    by_contra hne
    rw [n.decimals_text] at hne
    rw [n.tree?_bang_of_decimals hne, hgrouped] at htree
    split at htree
    · simp at htree
    · simp at htree
  · intro h
    obtain ⟨d, hd, hdigit⟩ := n.exists_digit
    have hbare : d ∈ bare := List.mem_append_left _ hd
    have hmem : d ∈ grouped := List.mem_cons_of_mem '(' (List.mem_append_left _ hd)
    rw [run_of_digit unit limit history hdigit hbare, run_of_digit unit limit history hdigit hmem,
      result?_congr (hsame h)]
    exact ofResult_shown limit history _ bare grouped

section

attribute [local instance] Stack.shallow

/-- A number with zeros in front and a point at its end. -/
theorem run_factorial_of_seven :
    Keypad.isNumeric (text "007.") = true ∧ (∀ c ∈ text "007.", c.toNat < 128) ∧
      decimals (text "007.") = [] ∧
      (run .degrees 15 [] (text "007.!")).buffer =
      (run .degrees 15 [] (text "(007.)!")).buffer := by
  have hn : Keypad.isNumeric (text "007.") = true := by decide
  have hascii : ∀ c ∈ text "007.", c.toNat < 128 := by decide
  have hdecimals : decimals (text "007.") = [] := by decide
  exact ⟨hn, hascii, hdecimals, ((run_factorial hn hascii .degrees 15 []).2 hdecimals).2⟩

/-- Before an exclamation mark `2.5` is read as `2 · 5!`. -/
theorem not_run_factorial :
    ¬∀ (unit : AngleUnit) (limit : Int) (history : List DocText) (n : Text),
      Keypad.isNumeric n = true → (∀ c ∈ n, c.toNat < 128) →
        (run unit limit history (n ++ ['!'])).ok =
        (run unit limit history ('(' :: (n ++ [')', '!']))).ok ∧
        (run unit limit history (n ++ ['!'])).buffer =
          (run unit limit history ('(' :: (n ++ [')', '!']))).buffer := by
  intro h
  have hsame := (h .radians 15 [] (text "2.5") (by decide) (by decide)).2
  have hbare : (run .radians 15 [] (text "2.5" ++ ['!'])).buffer = text "240" := by decide +kernel
  have hgrouped : (run .radians 15 [] ('(' :: (text "2.5" ++ [')', '!']))).buffer =
      text "3.32335097044784" := by
    decide +kernel
  rw [hbare, hgrouped] at hsame
  exact absurd hsame (by decide)

end

end Answer

end DeskCalc
