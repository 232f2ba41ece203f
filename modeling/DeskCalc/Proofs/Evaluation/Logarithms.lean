import DeskCalc.Proofs.Arithmetic.ZeroDivision
import DeskCalc.Proofs.Notation.Calls

/-!
# Logarithms of powers of the base

The two logarithm keys keep their bases, although the name of one is the name that the other has in
formulas. The logarithm of a power of its base is the exponent, as an integer and for every integer
that can be read: from a power of ten the factors of ten are split off and counted, and a power of
`e` has its exponent.
-/

namespace DeskCalc

open Formula Evaluation

section counting

variable {d : Nat}

private theorem removeFactor_pow (hd : 1 < d) {k fuel : Nat} (hk : k ≤ fuel) (count : Nat) :
    removeFactor d fuel (d ^ k) count = (1, count + k) := by
  induction k generalizing fuel count with
  | zero =>
    cases fuel with
    | zero => rfl
    | succ fuel =>
      have hone : 1 % d ≠ 0 := by
        rw [Nat.mod_eq_of_lt hd]
        exact Nat.one_ne_zero
      rw [removeFactor, pow_zero, if_neg (fun h => hone h.2.1), Nat.add_zero]
  | succ k ih =>
    obtain ⟨fuel, rfl⟩ : ∃ j, fuel = j + 1 := ⟨fuel - 1, by omega⟩
    have hdivides : d ^ (k + 1) % d = 0 ∧ d ^ (k + 1) ≠ 0 := by
      rw [pow_succ]
      exact ⟨Nat.mul_mod_left _ _, by positivity⟩
    have hquotient : d ^ (k + 1) / d = d ^ k := by
      rw [pow_succ, Nat.mul_div_cancel _ (by omega)]
    rw [removeFactor, if_pos ⟨hd, hdivides⟩, hquotient, ih (by omega), Nat.add_assoc,
      Nat.add_comm 1 k]

private theorem multiplicity_pow (hd : 1 < d) (k : Nat) : multiplicity d (d ^ k) = k := by
  have hfuel : k ≤ (d ^ k).log2 := by
    rw [Nat.le_log2 (by positivity)]
    exact Nat.pow_le_pow_left hd k
  rw [multiplicity, removeFactor_pow hd hfuel, Nat.zero_add]

end counting

namespace ClosedForm

private theorem multiplicity?_ten_pow (k : Nat) :
    multiplicity? 10 ((10 ^ k : Nat) : Rat) = some (k : Int) := by
  have hne : ((10 ^ k : Nat) : Rat) ≠ 0 := by positivity
  have hone : multiplicity 10 1 = 0 := by decide
  have hbase : (10 : Rat).den = 1 ∧ (10 : Rat).num = 10 := by decide
  have hcount : multiplicity? 10 ((10 ^ k : Nat) : Rat) =
      some ((multiplicity 10 (10 ^ k) : Int) - multiplicity 10 1) := by
    rw [multiplicity?, if_neg hne, if_pos hbase.1, hbase.2, if_neg (by decide), Rat.num_natCast,
      Rat.den_natCast]
    rfl
  rw [hcount, multiplicity_pow (by decide), hone, Nat.cast_zero, sub_zero]

private theorem ten_pow (k : Nat) : ofRat 10 ^ ofRat k = ofRat (10 ^ k : Nat) := by
  have hpower : ofRat 10 ^ ofRat k = scalarPower (.exact 10) (.exact k) := rfl
  have hcast : ∀ m : Nat, Scalar.exact k = .exact m ↔ k = m := by simp
  by_cases hzero : k = 0
  · rw [hzero]
    rfl
  by_cases hone : k = 1
  · rw [hone]
    rfl
  have hexponent : ¬(Scalar.exact k = 0 ∨ Scalar.exact 10 = 1) ∧ ¬Scalar.exact k = 1 := by
    refine ⟨?_, fun h => hone ((hcast 1).mp h)⟩
    rintro (h | h)
    · exact hzero ((hcast 0).mp h)
    · exact absurd h (by decide)
  rw [hpower, scalarPower, if_neg hexponent.1, if_neg hexponent.2, if_neg (by decide)]
  simp [Rat.den_natCast, Rat.num_natCast]

private theorem logBase_ten {p : Rat} {n : Int} (h : multiplicity? 10 p = some n) :
    logBase (ofRat p) (ofRat 10) =
      if n = 0 then (ofRat p).log / (ofRat 10).log
      else ofRat n + (ofRat (p / 10 ^ n)).log / (ofRat 10).log := by
  have hbase : ofRat 10 ≠ 1 := by decide
  unfold logBase
  rw [if_neg hbase]
  simp only [ofRat, h]

private theorem logBase_ten_pow (k : Nat) : logBase (ofRat 10 ^ ofRat k) (ofRat 10) = ofRat k := by
  have hrest : (ofRat 1).log / (ofRat 10).log = ofRat 0 := by decide +kernel
  rw [ten_pow, logBase_ten (multiplicity?_ten_pow k)]
  split
  · next hzero =>
    obtain rfl : k = 0 := by omega
    rw [pow_zero, Nat.cast_one, hrest, Nat.cast_zero]
  · have hquotient : ((10 ^ k : Nat) : Rat) / 10 ^ (k : Int) = 1 := by
      rw [zpow_natCast, Nat.cast_pow]
      exact div_self (by positivity)
    rw [hquotient, hrest, add_number, add_zero, Int.cast_natCast]

private theorem log_e_pow (k : Nat) : Fn.eval? .log (e ^ ofRat k) = some (ofRat k) := by
  have hpower : e ^ ofRat k =
      if ofRat k = 0 then 1 else if ofRat k = 1 then e else factor e (ofRat k) 1 := rfl
  rw [hpower]
  split
  · next hzero =>
    rw [hzero]
    rfl
  · split
    · next hone =>
      rw [hone]
      rfl
    · rfl

end ClosedForm

/-- The keys of the two logarithms. -/
inductive LogarithmKey where
  | common | natural

namespace LogarithmKey

def key : LogarithmKey → Text
  | common => text "log"
  | natural => text "ln"

def name : LogarithmKey → Text
  | common => text "log10"
  | natural => text "log"

def base : LogarithmKey → Text
  | common => text "10"
  | natural => text "e"

def operation : LogarithmKey → Operation
  | common => .log10
  | natural => .fn .log

def baseTree : LogarithmKey → Tree
  | common => .number (.integer 10 (text "10"))
  | natural => .constant .e

def baseForm : LogarithmKey → ClosedForm
  | common => .ofRat 10
  | natural => .e

def baseToken : LogarithmKey → Token
  | common => .number (.integer 10 (text "10"))
  | natural => .name (text "e")

variable (k : LogarithmKey) (a : Digits)

private theorem spec : Notation.renamed (k.key ++ ['(']) = k.name ++ ['('] ∧ '(' ∉ k.base ∧
    (∀ c ∈ ['!', Notation.piLetter, 's', 'c', 't'], c ∉ k.name ++ k.base) ∧
    IsFormulaText (k.name ++ '(' :: k.base) ∧
    dropLeadingZeros true (k.name ++ '(' :: k.base) = k.name ++ '(' :: k.base ∧
    Token.lex 0 (k.name ++ '(' :: k.base) = some [.name k.name, .opening, k.baseToken] := by
  cases k <;> decide +kernel

/-- The key pressed on a power of its base. -/
def ofPower (exponent : Text) : Text := k.key ++ '(' :: (k.base ++ '^' :: (exponent ++ [')']))

private theorem normalize_ofPower (unit : AngleUnit) :
    Notation.normalize unit (k.ofPower a.text) =
      k.name ++ '(' :: (k.base ++ '^' :: (a.text ++ [')'])) := by
  obtain ⟨hname, hopening, hchars, -⟩ := k.spec
  have hkept :
      ∀ c ∈ ['!', Notation.piLetter, 's', 'c', 't'], c ∉ k.name ++ (k.base ++ '^' :: a.text) := by
    intro c hc
    have hdigit : Numeral.isPlainDigit c = false ∧ c ≠ '^' := by
      revert c
      decide
    have hfixed := hchars c hc
    have hexponent := a.not_mem_text hdigit.1
    simp_all
  have hradians : Notation.normalize .radians (k.ofPower a.text) =
      k.name ++ '(' :: (k.base ++ '^' :: (a.text ++ [')'])) := by
    have hargument : '(' ∉ k.base ++ '^' :: a.text := by
      simp [hopening, a.not_mem_text (c := '(') (by decide)]
    have hcall := Notation.normalize_radians_call hname hargument (hkept '!' (by simp))
      (hkept Notation.piLetter (by simp))
    simpa only [ofPower, List.append_assoc, List.cons_append] using hcall
  cases unit with
  | radians => exact hradians
  | degrees =>
    have hangle :
        ∀ c ∈ k.name ++ '(' :: (k.base ++ '^' :: (a.text ++ [')'])), c ∉ ['s', 'c', 't'] := by
      intro c hc hmem
      have hnot := hkept c (List.mem_append_right ['!', Notation.piLetter] hmem)
      have hparen : c ≠ '(' ∧ c ≠ ')' := by
        constructor <;> rintro rfl <;> exact absurd hmem (by decide)
      simp_all
    have hchain := Notation.chain_append hangle List.isChain_nil
    rw [List.append_nil] at hchain
    calc Notation.normalize .degrees (k.ofPower a.text)
        = Notation.convertDegrees (Notation.normalize .radians (k.ofPower a.text)) := rfl
      _ = k.name ++ '(' :: (k.base ++ '^' :: (a.text ++ [')'])) := by
        rw [hradians, Notation.convertDegrees, Notation.convertFrom_of_chain hchain]

private theorem lex_ofPower :
    IsFormulaText (k.name ++ '(' :: k.base ++ '^' :: (a.significant ++ [')'])) ∧
      Token.lex 0 (k.name ++ '(' :: k.base ++ '^' :: (a.significant ++ [')'])) =
        some [.name k.name, .opening, k.baseToken, .op .power, .number (.integer 10 a.significant),
          .closing] := by
  obtain ⟨-, -, -, hbase, -, hlexBase⟩ := k.spec
  have hclosing : IsFormulaText [')'] := by decide
  have hends : Numeral.EndsBefore [')'] :=
    Numeral.endsBefore_cons (by decide) (by decide) (by decide) []
  have hlexExponent : ∀ depth, Token.lex depth (a.significant ++ [')']) =
      some [.number (.integer 10 a.significant), .closing] := by
    intro depth
    rw [(Token.lex_digits a depth hclosing hends).2, Token.lex_closing, Token.lex_nil]
    rfl
  have hexponent : IsFormulaText (a.significant ++ [')']) := (Token.lex_digits a 0 hclosing hends).1
  have hhead : ∀ c, (a.significant ++ [')']).head? = some c → c ≠ '*' ∧ c ≠ '/' := by
    intro c hc
    rw [List.head?_append_of_ne_nil _ a.significant_spec.1] at hc
    have hdigit := a.significant_isDigits c (List.mem_of_head? hc)
    exact ⟨ne_of_class hdigit (by decide), ne_of_class hdigit (by decide)⟩
  have hpower : ∀ depth, Token.lex depth ('^' :: (a.significant ++ [')'])) =
      some [.op .power, .number (.integer 10 a.significant), .closing] := by
    intro depth
    rw [Token.lex_of_next? (Token.next?_operator (o := .power) (by decide) _ hexponent hhead)
      (by simp), hlexExponent]
    rfl
  have hbreaks : BreaksAfter '^' (k.name ++ '(' :: k.base) := ⟨by decide, by simp, by simp⟩
  refine ⟨?_, ?_⟩
  · rw [isFormulaText_append, isFormulaText_cons]
    exact ⟨hbase, by decide, hexponent⟩
  · rw [Token.lex_append 0 hbase hbreaks, hlexBase, Option.bind_some, hpower]
    rfl

private theorem tree?_ofPower (unit : AngleUnit) :
    Evaluation.tree? (Notation.normalize unit (k.ofPower a.text)) =
      some
      (.call k.operation (.binary .power k.baseTree (.number (.integer 10 a.significant)))) := by
  obtain ⟨-, -, -, -, hdropBase, -⟩ := k.spec
  obtain ⟨htext, hlex⟩ := k.lex_ofPower a
  have hdropExponent : dropLeadingZeros true (a.text ++ [')']) = a.significant ++ [')'] :=
    dropLeadingZeros_append (by decide) true a.text []
  have hdrop : dropLeadingZeros true (Notation.normalize unit (k.ofPower a.text)) =
      k.name ++ '(' :: k.base ++ '^' :: (a.significant ++ [')']) := by
    have hsplit := dropLeadingZeros_append (x := '^') (by decide) true (k.name ++ '(' :: k.base)
      (a.text ++ [')'])
    rw [decide_eq_true (by decide), hdropBase, hdropExponent] at hsplit
    rw [normalize_ofPower, ← hsplit, List.append_assoc, List.cons_append]
  rw [tree?_eq (hdrop ▸ htext), hdrop, ofText?, Token.ofText, hlex]
  cases k <;> rfl

private theorem value?_ofPower :
    (Tree.call k.operation
    (.binary .power k.baseTree (.number (.integer 10 a.significant)))).value? =
      if a.isShort then some (ClosedForm.ofRat a.value) else none := by
  have hexponent : (Tree.number (.integer 10 a.significant)).value? =
      if a.isShort then some (ClosedForm.ofRat a.value) else none := Calculation.numeral_value? a
  obtain ⟨power, hpower⟩ :
      ∃ power, Tree.binary .power k.baseTree (.number (.integer 10 a.significant)) =
      power := ⟨_, rfl⟩
  have hvalue : power.value? =
      if a.isShort then some (k.baseForm ^ ClosedForm.ofRat a.value) else none := by
    have hbase : k.baseTree.value? = some k.baseForm := by cases k <;> decide +kernel
    rw [← hpower, Tree.value?, hbase, hexponent]
    split <;> rfl
  rw [hpower]
  cases k with
  | common =>
    rw [operation, Tree.value?, hvalue]
    split
    · rw [Option.map_some, baseForm, ClosedForm.logBase_ten_pow]
    · rfl
  | natural =>
    rw [operation, Tree.value?, hvalue]
    split
    · rw [Option.bind_some, baseForm, ClosedForm.log_e_pow]
    · rfl

private theorem run_ofPower [Stack] (unit : AngleUnit) :
    let formula := Notation.normalize unit (k.ofPower a.text)
    Evaluation.run formula =
      if a.isShort then .ok (.integer a.value) else .error (.cannotEvaluate formula) := by
  intro formula
  have hvalue : (Evaluation.tree? formula).bind value? =
      if a.isShort then some (ClosedForm.ofRat a.value) else none := by
    have hlow : (Tree.call k.operation (.binary .power k.baseTree
        (.number (.integer 10 a.significant)))).height ≤ 1000 := by
      cases k with
      | common => exact (by decide : 4 ≤ 1000)
      | natural => exact (by decide : 4 ≤ 1000)
    rw [k.tree?_ofPower, Option.bind_some, value?_of_height_le hlow, value?_ofPower]
  rw [Evaluation.tree?] at hvalue
  rw [Evaluation.run, hvalue]
  cases a.isShort with
  | false => rfl
  | true =>
    have hinteger : (ClosedForm.ofRat a.value).integer? = some (a.value : Int) := by
      simp [ClosedForm.ofRat, ClosedForm.integer?, Scalar.integer?, Rat.den_natCast,
        Rat.num_natCast]
    simp only [if_true, settle, hinteger]

end LogarithmKey

namespace Evaluation

/-- The logarithm of ten to a power and the natural logarithm of `e` to a power are the exponent as
an exact integer, in either unit of angles. An exponent with too many digits is not read. -/
theorem run_logarithm_of_power [Stack] (n : Nat) (unit : AngleUnit) :
    let exponent := Text.ofNat n
    let common := Notation.normalize unit (text "log(10^" ++ (exponent ++ [')']))
    let natural := Notation.normalize unit (text "ln(e^" ++ (exponent ++ [')']))
    if exponent.length ≤ Text.digitLimit then
      run common = .ok (.integer n) ∧ run natural = .ok (.integer n)
    else run common = .error (.cannotEvaluate common) ∧
      run natural = .error (.cannotEvaluate natural) := by
  intro exponent common natural
  have hcommon : run common = _ := LogarithmKey.common.run_ofPower (.ofNat n) unit
  have hnatural : run natural = _ := LogarithmKey.natural.run_ofPower (.ofNat n) unit
  rw [hcommon, hnatural, Digits.value_ofNat, Digits.isShort, Digits.significant_ofNat]
  split
  · next hshort =>
    rw [if_pos (by simpa using hshort), if_pos (by simpa using hshort)]
    exact ⟨rfl, rfl⟩
  · next hlong =>
    rw [if_neg (by simpa using hlong), if_neg (by simpa using hlong)]
    exact ⟨rfl, rfl⟩

attribute [local instance] Stack.shallow

/-- The first exponent that is too long is ten to so many digits. -/
theorem not_run_logarithm_of_power :
    ¬∀ (n : Nat) (unit : AngleUnit),
      run (Notation.normalize unit (text "log(10^" ++ (Text.ofNat n ++ [')']))) = .ok (.integer n) ∧
        run (Notation.normalize unit (text "ln(e^" ++ (Text.ofNat n ++ [')']))) =
        .ok (.integer n) := by
  intro h
  obtain ⟨n, hn⟩ : ∃ n, n = 10 ^ Text.digitLimit := ⟨_, rfl⟩
  have hlong : ¬(Text.ofNat n).length ≤ Text.digitLimit := by
    rw [Text.ofNat, Nat.length_toDigits_le_iff (by decide) (by decide), hn]
    exact Nat.lt_irrefl _
  have hnatural : run (Notation.normalize .radians (text "ln(e^" ++ (Text.ofNat n ++ [')']))) = _ :=
    LogarithmKey.natural.run_ofPower (.ofNat n) .radians
  rw [Digits.isShort, Digits.significant_ofNat, if_neg (by simpa using hlong),
    (h n .radians).2] at hnatural
  simp at hnatural

end Evaluation

end DeskCalc
