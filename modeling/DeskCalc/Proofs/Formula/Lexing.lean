import DeskCalc.Formula.Token
import Mathlib.Data.List.Basic

/-!
# Tokens of texts put together

A text without blanks and a text that begins with a parenthesis, a blank or an operator are read
token by token one after the other, unless their two ends form one token: a sign after an exponent
mark belongs to the numeral, and two stars or two strokes are one operator.
-/

namespace DeskCalc

-- The empty sum meant here is the numeral zero, whatever else is in scope.
attribute [local instance (high)] Zero.ofOfNat0

/-- The characters of formulas that keys give rise to. -/
def isFormulaChar (c : Char) : Bool :=
  Numeral.isPlainDigit c || ('A' ≤ c && c ≤ 'Z') || ('a' ≤ c && c ≤ 'z') ||
    c ∈ ['.', '+', '-', '*', '/', '^', '!', '(', ')']

theorem formulaChar_range {c : Char} (h : isFormulaChar c = true) :
    33 ≤ c.toNat ∧ c.toNat ≤ 126 := by
  simp only [isFormulaChar, Numeral.isPlainDigit, List.mem_cons, List.not_mem_nil, or_false,
    Bool.or_eq_true, Bool.and_eq_true, decide_eq_true_eq] at h
  rcases h with ((⟨hlow, hhigh⟩ | ⟨hlow, hhigh⟩) | ⟨hlow, hhigh⟩) | h
  · exact ⟨Nat.le_trans (by decide) hlow, Nat.le_trans hhigh (by decide)⟩
  · exact ⟨Nat.le_trans (by decide) hlow, Nat.le_trans hhigh (by decide)⟩
  · exact ⟨Nat.le_trans (by decide) hlow, Nat.le_trans hhigh (by decide)⟩
  · rcases h with rfl | rfl | rfl | rfl | rfl | rfl | rfl | rfl | rfl <;> decide

/-- The characters that begin a token of their own. -/
def breakChars : List Char := ['(', ')', '+', '-', '*', '/', '^', ' ']

/-- Whether a text ends in digits or a point and then an exponent mark. -/
def EndsInExponentMark (t : Text) : Prop :=
  ∃ u c e, t = u ++ [c, e] ∧ (Numeral.isPlainDigit c ∨ c = '.') ∧ (e = 'e' ∨ e = 'E')

/-- Whether the given character, right after a text, begins a token of its own. -/
structure BreaksAfter (x : Char) (t : Text) : Prop where
  isBreak : x ∈ breakChars
  noExponent : x = '+' ∨ x = '-' → ¬EndsInExponentMark t
  noDouble : x = '*' ∨ x = '/' ∨ x = ' ' → ∀ c, t.getLast? = some c → c ≠ '*' ∧ c ≠ '/'

theorem EndsInExponentMark.of_suffix {s t : Text} (h : s <:+ t) (hs : EndsInExponentMark s) :
    EndsInExponentMark t := by
  obtain ⟨v, rfl⟩ := h
  obtain ⟨u, c, e, rfl, hc, he⟩ := hs
  exact ⟨v ++ u, c, e, by simp, hc, he⟩

private theorem BreaksAfter.suffix {x : Char} {s t : Text} (h : BreaksAfter x t) (hs : s <:+ t) :
    BreaksAfter x s where
  isBreak := h.isBreak
  noExponent hx he := h.noExponent hx (he.of_suffix hs)
  noDouble hx c hc := by
    obtain ⟨v, rfl⟩ := hs
    refine h.noDouble hx c ?_
    rw [List.getLast?_append, hc, Option.some_or]

/-- An opening parenthesis breaks after any text. -/
theorem breaksAfter_opening (t : Text) : BreaksAfter '(' t :=
  ⟨by decide, by simp, by simp⟩

/-- A closing parenthesis breaks after any text. -/
theorem breaksAfter_closing (t : Text) : BreaksAfter ')' t :=
  ⟨by decide, by simp, by simp⟩

section breakChars

variable {x : Char}

theorem not_wordChar_of_break (h : x ∈ breakChars) : Text.isWordChar x = false := by
  revert x; decide

private theorem not_plainDigit_of_break (h : x ∈ breakChars) : Numeral.isPlainDigit x = false := by
  revert x; decide

theorem break_ne (h : x ∈ breakChars) : x ≠ '_' ∧ x ≠ '.' ∧ x ≠ 'e' ∧ x ≠ 'E' ∧ x ≠ '=' ∧
    x ≠ 'j' ∧ x ≠ 'J' ∧ Numeral.radix? x = none := by
  revert x; decide

end breakChars

namespace Numeral

variable {p : Char → Bool} {x : Char} {r : Text}

private theorem moreDigits_cons {c : Char} (hc : p c = true) (cs : Text) :
    moreDigits p (c :: cs) = (c :: (moreDigits p cs).1, (moreDigits p cs).2) := by
  rw [moreDigits.eq_def]
  simp [hc]

private theorem moreDigits_underscore {d : Char} (hu : p '_' = false) (hd : p d = true)
    (ds : Text) :
    moreDigits p ('_' :: d :: ds) = (d :: (moreDigits p ds).1, (moreDigits p ds).2) := by
  rw [moreDigits.eq_def]
  simp [hu, hd]

private theorem moreDigits_stop {c : Char} {cs : Text} (hc : p c = false)
    (hu : c = '_' → ∀ d ds, cs = d :: ds → p d = false) :
    moreDigits p (c :: cs) = ([], c :: cs) := by
  rw [moreDigits.eq_def]
  simp only [hc, Bool.false_eq_true, if_false]
  split
  · next d ds => simp [hu rfl d ds rfl]
  · rfl

private theorem moreDigits_all {ds : Text} (h : ∀ c ∈ ds, p c = true) :
    moreDigits p ds = (ds, []) := by
  induction ds with
  | nil => rfl
  | cons d ds ih =>
    rw [moreDigits_cons (h d (by simp)), ih fun c hc => h c (by simp [hc])]

theorem digitRun_all {ds : Text} (h : ∀ c ∈ ds, p c = true) : digitRun p ds = (ds, []) := by
  cases ds with
  | nil => rfl
  | cons d ds =>
    simp [digitRun, h d (by simp), moreDigits_all fun c hc => h c (List.mem_cons_of_mem d hc)]

private theorem readInteger_nil (whole : Text) :
    readInteger whole [] = (.integer 10 whole, []) := by
  unfold readInteger
  split <;> simp_all

private theorem moreDigits_append (hp : p x = false) (hx : x ≠ '_') (t : Text) :
    moreDigits p (t ++ x :: r) = ((moreDigits p t).1, (moreDigits p t).2 ++ x :: r) := by
  fun_induction moreDigits p t with
  | case1 => exact moreDigits_stop hp (fun h => absurd h hx)
  | case2 c cs hc digits rest he ih =>
    rw [List.cons_append, moreDigits_cons hc, ih, he]
  | case3 d ds hd digits rest he hu ih =>
    simp only [Bool.not_eq_true] at hu
    rw [List.cons_append, List.cons_append, moreDigits_underscore hu hd, ih, he]
  | case4 d ds hd hu =>
    simp only [Bool.not_eq_true] at hu hd
    exact moreDigits_stop hu (by simp [hd])
  | case5 c cs hc hne =>
    refine moreDigits_stop (by simpa using hc) ?_
    -- the character may be an underscore at the end
    rintro rfl d ds hds
    cases cs with
    | nil => simp_all
    | cons d' ds' => exact (hne d' ds' rfl rfl).elim

theorem digitRun_append (hp : p x = false) (hx : x ≠ '_') (t : Text) :
    digitRun p (t ++ x :: r) = ((digitRun p t).1, (digitRun p t).2 ++ x :: r) := by
  cases t with
  | nil => simp [digitRun, hp]
  | cons c cs =>
    by_cases hc : p c
    · simp [digitRun, hc, moreDigits_append hp hx]
    · simp [digitRun, hc]

private theorem moreDigits_suffix (t : Text) : (moreDigits p t).2 <:+ t := by
  fun_induction moreDigits p t with
  | case1 => exact List.suffix_refl _
  | case2 c cs hc digits rest he ih =>
    have hrest : rest <:+ cs := by simpa [he] using ih
    exact hrest.trans (List.suffix_cons _ _)
  | case3 d ds hd digits rest he hu ih =>
    have hrest : rest <:+ ds := by simpa [he] using ih
    exact (hrest.trans (List.suffix_cons _ _)).trans (List.suffix_cons _ _)
  | case4 d ds hd hu => exact List.suffix_refl _
  | case5 c cs hc hne => exact List.suffix_refl _

private theorem digitRun_suffix (t : Text) : (digitRun p t).2 <:+ t := by
  cases t with
  | nil => exact List.suffix_refl _
  | cons c cs =>
    by_cases hc : p c
    · simpa [digitRun, hc] using (moreDigits_suffix cs).trans (List.suffix_cons c cs)
    · simp [digitRun, hc]

theorem suffix_of_digitRun {t digits rest : Text} (h : digitRun p t = (digits, rest)) :
    rest <:+ t := by
  have hsuffix := digitRun_suffix (p := p) t
  rwa [h] at hsuffix

/-- Where no digit stands, a run leaves the whole text. -/
theorem rest_eq_of_digitRun_nil {t rest : Text} (h : digitRun p t = ([], rest)) : rest = t := by
  cases t with
  | nil => simp_all [digitRun]
  | cons c cs => by_cases hc : p c <;> simp_all [digitRun]

private theorem digitRun_append_break (hx : x ∈ breakChars) (t : Text) :
    digitRun isPlainDigit (t ++ x :: r) =
      ((digitRun isPlainDigit t).1, (digitRun isPlainDigit t).2 ++ x :: r) :=
  digitRun_append (not_plainDigit_of_break hx) (break_ne hx).1 t

theorem readExponent?_cons (mark : Char) (cs : Text) :
    readExponent? (mark :: cs) =
      if mark = 'e' ∨ mark = 'E' then
        match digitRun isPlainDigit (exponentSign cs).2 with
        | ([], _) => none
        | (digits, rest) =>
          some
            (if (exponentSign cs).1 then -(ofDigits 10 digits : Int) else ofDigits 10 digits, rest)
      else none := by
  rfl

private theorem exponentSign_append {t : Text} (ht : t ≠ [] ∨ x ≠ '+' ∧ x ≠ '-') :
    exponentSign (t ++ x :: r) = ((exponentSign t).1, (exponentSign t).2 ++ x :: r) := by
  cases t with
  | nil =>
    obtain ⟨hplus, hminus⟩ : x ≠ '+' ∧ x ≠ '-' := by simpa using ht
    rw [List.nil_append]
    unfold exponentSign
    split <;> simp_all
  | cons c cs =>
    rw [List.cons_append]
    unfold exponentSign
    split
    · next h => simp_all
    · next h => simp_all
    · next hminus hplus => simp_all

theorem exponentSign_suffix (t : Text) : (exponentSign t).2 <:+ t := by
  unfold exponentSign
  split
  · exact List.suffix_cons _ _
  · exact List.suffix_cons _ _
  · exact List.suffix_refl _

private theorem readExponent?_append (hx : x ∈ breakChars) {t : Text}
    (ht : x = '+' ∨ x = '-' → t ≠ ['e'] ∧ t ≠ ['E']) :
    readExponent? (t ++ x :: r) = (readExponent? t).map fun (n, rest) => (n, rest ++ x :: r) := by
  cases t with
  | nil =>
    obtain ⟨-, -, he, hE, -⟩ := break_ne hx
    simp [he, hE, readExponent?]
  | cons mark cs =>
    rw [List.cons_append, readExponent?_cons, readExponent?_cons]
    split
    · next hmark =>
      have hcs : cs ≠ [] ∨ x ≠ '+' ∧ x ≠ '-' := by
        by_cases hnil : cs = []
        · refine .inr ⟨?_, ?_⟩ <;> rintro rfl <;> simp_all
        · exact .inl hnil
      rw [exponentSign_append hcs, digitRun_append_break hx]
      cases digitRun isPlainDigit (exponentSign cs).2 with
      | mk digits rest => cases digits <;> simp
    · rfl

private theorem readExponent?_suffix {t rest : Text} {n : Int}
    (h : readExponent? t = some (n, rest)) : rest <:+ t := by
  cases t with
  | nil => simp [readExponent?] at h
  | cons mark cs =>
    rw [readExponent?_cons] at h
    split at h
    · split at h
      · simp at h
      · next digits rest' hne heq =>
        simp only [Option.some.injEq, Prod.mk.injEq] at h
        rw [← h.2]
        exact ((suffix_of_digitRun heq).trans (exponentSign_suffix cs)).trans (List.suffix_cons _ _)
    · simp at h

theorem moreDigits_split (t : Text) :
    (moreDigits p t).2 = t ∨ ∃ u c, p c = true ∧ t = u ++ c :: (moreDigits p t).2 := by
  fun_induction moreDigits p t with
  | case1 => exact .inl rfl
  | case2 c cs hc digits rest he ih =>
    rw [he] at ih
    rcases ih with h | ⟨u, d, hd, h⟩
    · exact .inr ⟨[], c, hc, by simp [← h]⟩
    · exact .inr ⟨c :: u, d, hd, by rw [h]; rfl⟩
  | case3 d ds hd digits rest he hu ih =>
    rw [he] at ih
    rcases ih with h | ⟨u, c, hc, h⟩
    · exact .inr ⟨['_'], d, hd, by simp [← h]⟩
    · exact .inr ⟨'_' :: d :: u, c, hc, by rw [h]; rfl⟩
  | case4 d ds hd hu => exact .inl rfl
  | case5 c cs hc hne => exact .inl rfl

/-- A run that is not empty ends in a digit. -/
theorem digitRun_split {t digits rest : Text} (h : digitRun p t = (digits, rest))
    (hne : digits ≠ []) : ∃ u c, p c = true ∧ t = u ++ c :: rest := by
  cases t with
  | nil => simp_all [digitRun]
  | cons c cs =>
    by_cases hc : p c
    · simp only [digitRun, hc, if_true, Prod.mk.injEq] at h
      rcases moreDigits_split (p := p) cs with hs | ⟨u, d, hd, hs⟩
      · exact ⟨[], c, hc, by simp [← h.2, hs]⟩
      · exact ⟨c :: u, d, hd, by rw [hs, h.2]; rfl⟩
    · simp_all [digitRun]

private theorem readInteger_append (hx : x ∈ breakChars) (whole t : Text) :
    readInteger whole (t ++ x :: r) =
      ((readInteger whole t).1, (readInteger whole t).2 ++ x :: r) := by
  by_cases hw : whole = ['0']
  · subst hw
    cases t with
    | nil => simp [readInteger, (break_ne hx).2.2.2.2.2.2.2]
    | cons c cs =>
      simp only [List.cons_append, readInteger]
      cases hr : radix? c with
      | none => rfl
      | some bp =>
        obtain ⟨base, q⟩ := bp
        have hq : q x = false := by
          unfold radix? at hr
          revert hx x
          split at hr
          · cases hr; decide
          · split at hr
            · cases hr; decide
            · split at hr
              · cases hr; decide
              · simp at hr
        dsimp only
        rw [moreDigits_append hq (break_ne hx).1]
        cases moreDigits q cs with
        | mk digits rest => cases digits <;> rfl
  · simp [readInteger, hw]

private theorem withExponent_append (hx : x ∈ breakChars) (whole : Text) (fraction : Option Text)
    {t : Text} (ht : x = '+' ∨ x = '-' → t ≠ ['e'] ∧ t ≠ ['E']) :
    read?.withExponent whole fraction (t ++ x :: r) =
      ((read?.withExponent whole fraction t).1, (read?.withExponent whole fraction t).2 ++
      x :: r) := by
  unfold read?.withExponent
  rw [readExponent?_append hx ht]
  cases readExponent? t <;> rfl

private theorem not_mark_of_digitRun {t digits rest : Text}
    (ht : x = '+' ∨ x = '-' → ¬EndsInExponentMark t) (h : digitRun isPlainDigit t = (digits, rest))
    (hne : digits ≠ []) : x = '+' ∨ x = '-' → rest ≠ ['e'] ∧ rest ≠ ['E'] := by
  intro hsign
  obtain ⟨u, c, hc, hu⟩ := digitRun_split h hne
  constructor
  · rintro rfl
    exact ht hsign ⟨u, c, 'e', hu, .inl hc, .inl rfl⟩
  · rintro rfl
    exact ht hsign ⟨u, c, 'E', hu, .inl hc, .inr rfl⟩

private theorem not_mark_of_fraction {u t digits rest : Text}
    (ht : x = '+' ∨ x = '-' → ¬EndsInExponentMark (u ++ '.' :: t))
    (h : digitRun isPlainDigit t = (digits, rest)) :
    x = '+' ∨ x = '-' → rest ≠ ['e'] ∧ rest ≠ ['E'] := by
  by_cases hne : digits = []
  · intro hsign
    have hrest : rest = t := rest_eq_of_digitRun_nil (hne ▸ h)
    constructor
    · rintro rfl
      exact ht hsign ⟨u, '.', 'e', by simp [← hrest], .inr rfl, .inl rfl⟩
    · rintro rfl
      exact ht hsign ⟨u, '.', 'E', by simp [← hrest], .inr rfl, .inr rfl⟩
  · refine not_mark_of_digitRun (fun hsign he => ht hsign ?_) h hne
    exact he.of_suffix ((List.suffix_cons '.' t).trans (List.suffix_append u _))

theorem read?_of_point {t whole r : Text} (h : digitRun isPlainDigit t = (whole, '.' :: r))
    (hne : whole ≠ []) :
    read? t = some (read?.withExponent whole (some (digitRun isPlainDigit r).1)
      (digitRun isPlainDigit r).2) := by
  unfold read?
  rw [h]
  cases whole with
  | nil => simp at hne
  | cons w ws => rfl

theorem read?_of_whole {t whole rest : Text} (h : digitRun isPlainDigit t = (whole, rest))
    (hne : whole ≠ []) (hrest : ∀ r, rest ≠ '.' :: r) :
    read? t =
      match readExponent? rest with
      | some (e, r) => some (decimal whole none e, r)
      | none =>
        if whole.head? = some '0' then
          some (readInteger (digitRun (· = '0') t).1 (digitRun (· = '0') t).2)
        else some (readInteger whole rest) := by
  unfold read?
  rw [h]
  cases whole with
  | nil => simp at hne
  | cons w ws =>
    dsimp only
    split
    · simp_all
    · simp_all
    · simp_all
    · next heq =>
      simp only [Prod.mk.injEq] at heq
      obtain ⟨rfl, rfl⟩ := heq
      cases readExponent? rest with
      | some er => rfl
      | none =>
        by_cases hw : w = '0'
        · subst hw; rfl
        · simp [hw]

/-- A numeral has a point or an exponent, or it is an integer, of which a decimal one that begins
with zero takes up zeros only. -/
theorem read?_cases {t rest : Text} {n : Numeral} (h : read? t = some (n, rest)) :
    (∃ whole cs digits tail, digitRun isPlainDigit t = (whole, '.' :: cs) ∧
      digitRun isPlainDigit cs = (digits, tail) ∧ (whole ≠ [] ∨ digits ≠ []) ∧
      read?.withExponent whole (some digits) tail = (n, rest)) ∨
    (∃ whole tail e, digitRun isPlainDigit t = (whole, tail) ∧ whole ≠ [] ∧
      readExponent? tail = some (e, rest) ∧ n = decimal whole none e) ∨
    ∃ p whole tail, (∀ c, p c = true → isPlainDigit c = true) ∧ digitRun p t = (whole, tail) ∧
      whole ≠ [] ∧ readInteger whole tail = (n, rest) := by
  rcases hrun : digitRun isPlainDigit t with ⟨whole, tail⟩
  by_cases hne : whole = []
  · subst hne
    unfold read? at h
    rw [hrun] at h
    split at h
    · next cs heq =>
      obtain rfl : tail = '.' :: cs := (Prod.mk.inj heq).2
      split at h
      · simp at h
      · next digits r hdigits hr =>
        exact .inl ⟨[], cs, digits, r, rfl, hr, .inr (by simpa using hdigits), Option.some.inj h⟩
    · simp at h
    · next hempty heq => exact (hempty (Prod.mk.inj heq).1.symm).elim
    · next hempty _ heq => exact (hempty (Prod.mk.inj heq).1.symm).elim
  · by_cases hpoint : ∃ cs, tail = '.' :: cs
    · obtain ⟨cs, rfl⟩ := hpoint
      rw [read?_of_point hrun hne] at h
      exact .inl ⟨whole, cs, _, _, rfl, rfl, .inl hne, Option.some.inj h⟩
    · simp only [not_exists] at hpoint
      rw [read?_of_whole hrun hne hpoint] at h
      cases hexp : readExponent? tail with
      | some er =>
        simp only [hexp, Option.some.injEq, Prod.mk.injEq] at h
        exact .inr (.inl ⟨whole, tail, er.1, rfl, hne, by rw [← h.2]; exact hexp, h.1.symm⟩)
      | none =>
        simp only [hexp] at h
        split at h
        · next hzero =>
          rcases hzeros : digitRun (fun c : Char => decide (c = '0')) t with ⟨zeros, r⟩
          rw [hzeros] at h
          refine .inr (.inr ⟨_, zeros, r, by simp [isPlainDigit], hzeros, ?_, Option.some.inj h⟩)
          -- the run of zeros is not empty, for the first digit is one
          rintro rfl
          cases t with
          | nil => exact hne (Prod.mk.inj hrun).1.symm
          | cons c cs =>
            by_cases hc : isPlainDigit c
            · simp only [digitRun, hc, if_true, Prod.mk.injEq] at hrun
              rw [← hrun.1, List.head?_cons, Option.some.injEq] at hzero
              simp [digitRun, hzero] at hzeros
            · simp_all [digitRun]
        · exact .inr (.inr ⟨_, whole, tail, fun _ => id, hrun, hne, Option.some.inj h⟩)

private theorem read?_append (hx : x ∈ breakChars) {t : Text}
    (ht : x = '+' ∨ x = '-' → ¬EndsInExponentMark t) :
    read? (t ++ x :: r) = (read? t).map fun (n, rest) => (n, rest ++ x :: r) := by
  obtain ⟨hunderscore, hpoint, -⟩ := break_ne hx
  have hlong := digitRun_append_break hx (r := r)
  rcases hrun : digitRun isPlainDigit t with ⟨whole, rest⟩
  obtain ⟨u, hu⟩ := suffix_of_digitRun hrun
  have hrun' : digitRun isPlainDigit (t ++ x :: r) = (whole, rest ++ x :: r) := by rw [hlong, hrun]
  by_cases hne : whole = []
  · subst hne
    unfold read?
    rw [hrun, hrun']
    cases rest with
    | nil => simp [hpoint]
    | cons c cs =>
      by_cases hc : c = '.'
      · subst hc
        simp only [List.cons_append, hlong]
        rcases hfraction : digitRun isPlainDigit cs with ⟨fraction, rest⟩
        cases fraction with
        | nil => simp
        | cons d ds =>
          have hmark := not_mark_of_fraction (u := u) (by rwa [hu]) hfraction
          simp only [Option.map_some]
          rw [withExponent_append hx _ _ hmark]
      · simp [hc]
  · by_cases hfraction : ∃ cs, rest = '.' :: cs
    · obtain ⟨cs, rfl⟩ := hfraction
      rcases hcs : digitRun isPlainDigit cs with ⟨fraction, rest⟩
      have hmark := not_mark_of_fraction (u := u) (by rwa [hu]) hcs
      rw [List.cons_append] at hrun'
      rw [read?_of_point hrun hne, read?_of_point hrun' hne, hlong, hcs]
      simp only [Option.map_some]
      rw [withExponent_append hx _ _ hmark]
    · simp only [not_exists] at hfraction
      have hfraction' : ∀ cs, rest ++ x :: r ≠ '.' :: cs := by
        intro cs h
        cases rest with
        | nil => simp_all
        | cons c cs' => simp_all
      have hzero : (fun c : Char => decide (c = '0')) x = false := by
        revert hx; clear * -; revert x; decide
      rw [read?_of_whole hrun hne hfraction, read?_of_whole hrun' hne hfraction',
        readExponent?_append hx (not_mark_of_digitRun ht hrun hne),
        digitRun_append hzero hunderscore]
      cases readExponent? rest with
      | some er => rfl
      | none =>
        simp only [Option.map_none]
        split <;> simp [readInteger_append hx]

/-- Digits without a zero in front are an integer. -/
theorem read?_digits {ds : Text} (hds : ∀ c ∈ ds, isPlainDigit c = true) (hne : ds ≠ [])
    (hzero : ds = ['0'] ∨ ds.head? ≠ some '0') : read? ds = some (.integer 10 ds, []) := by
  rw [read?_of_whole (digitRun_all hds) hne (by simp)]
  rcases hzero with rfl | h
  · rfl
  · simp [h, readExponent?, readInteger_nil]

private theorem withExponent_suffix (whole : Text) (fraction : Option Text) (t : Text) :
    (read?.withExponent whole fraction t).2 <:+ t := by
  unfold read?.withExponent
  cases h : readExponent? t with
  | none => exact List.suffix_refl _
  | some er => exact readExponent?_suffix h

private theorem readInteger_suffix (whole t : Text) : (readInteger whole t).2 <:+ t := by
  unfold readInteger
  split
  · next c cs =>
    split
    · next base q _ =>
      have hmore := (moreDigits_suffix (p := q) cs).trans (List.suffix_cons c cs)
      split
      · exact List.suffix_refl _
      · next heq => rw [heq] at hmore; exact hmore
    · exact List.suffix_refl _
  · exact List.suffix_refl _

private theorem read?_suffix {t rest : Text} {n : Numeral} (h : read? t = some (n, rest)) :
    rest <:+ t := by
  rcases read?_cases h with ⟨whole, cs, digits, tail, hwhole, hdigits, -, hn⟩ |
    ⟨whole, tail, e, hwhole, -, hexp, -⟩ | ⟨p, whole, tail, -, hwhole, -, hn⟩
  · have hrest := withExponent_suffix whole (some digits) tail
    rw [hn] at hrest
    exact ((hrest.trans (suffix_of_digitRun hdigits)).trans (List.suffix_cons _ _)).trans
      (suffix_of_digitRun hwhole)
  · exact (readExponent?_suffix hexp).trans (suffix_of_digitRun hwhole)
  · have hrest := readInteger_suffix whole tail
    rw [hn] at hrest
    exact hrest.trans (suffix_of_digitRun hwhole)

end Numeral

/-- Whether all characters of a text are characters of formulas. -/
def IsFormulaText (t : Text) : Prop := ∀ c ∈ t, isFormulaChar c = true

instance (t : Text) : Decidable (IsFormulaText t) :=
  inferInstanceAs (Decidable (∀ c ∈ t, isFormulaChar c = true))

theorem IsFormulaText.suffix {s t : Text} (ht : IsFormulaText t) (h : s <:+ t) : IsFormulaText s :=
  fun c hc => ht c (h.subset hc)

@[simp]
theorem isFormulaText_nil : IsFormulaText [] := List.forall_mem_nil _

@[simp]
theorem isFormulaText_cons {c : Char} {t : Text} :
    IsFormulaText (c :: t) ↔ isFormulaChar c = true ∧ IsFormulaText t := List.forall_mem_cons

@[simp]
theorem isFormulaText_append {s t : Text} :
    IsFormulaText (s ++ t) ↔ IsFormulaText s ∧ IsFormulaText t := List.forall_mem_append

theorem IsFormulaText.tail {c : Char} {t : Text} (h : IsFormulaText (c :: t)) : IsFormulaText t :=
  (isFormulaText_cons.mp h).2

namespace Token

variable {x : Char} {r : Text}

theorem formulaChar_ne {c : Char} (h : isFormulaChar c = true) :
    c ≠ '=' ∧ c ≠ '\n' ∧ c ≠ '\r' ∧ c ≠ '#' ∧ c ≠ ',' ∧ isSpace c = false := by
  refine ⟨ne_of_class h (by decide), ne_of_class h (by decide), ne_of_class h (by decide),
    ne_of_class h (by decide), ne_of_class h (by decide), ?_⟩
  by_contra hspace
  simp only [isSpace, Bool.not_eq_false, decide_eq_true_eq] at hspace
  rcases hspace with rfl | rfl | rfl <;> exact absurd h (by decide)

/-- No formula begins with the second half of an inequality sign. -/
theorem head_ne_of_isText {t : Text} (ht : IsFormulaText t) : ∀ d, t.head? = some d → d ≠ '=' :=
  fun d hd => (formulaChar_ne (ht d (List.mem_of_head? hd))).1

private theorem isSpace_of_break (h : x ∈ breakChars) : isSpace x = decide (x = ' ') := by
  revert h; revert x; decide

private theorem startsWithBang_cons {c : Char} {cs : Text} (h : ∀ d, cs.head? = some d → d ≠ '=') :
    startsWithBang (c :: cs) = decide (c = '!') := by
  unfold startsWithBang
  split <;> simp_all

/-- What the token at the start of a formula is, by its first character. -/
theorem next?_cons (inside : Bool) {c : Char} {cs : Text} (hc : isFormulaChar c = true)
    (hcs : ∀ d, cs.head? = some d → d ≠ '=') :
    next? inside (c :: cs) =
      if c = '(' then some ([opening], cs)
      else if c = ')' then some ([closing], cs)
      else if c = '!' then some ([bang], cs)
      else if Text.isNameStart c then
        some ([name (c :: cs.takeWhile Text.isWordChar)], cs.dropWhile Text.isWordChar)
      else
        match Numeral.read? (c :: cs) with
        | some (n, rest) => some (ofNumeral n rest)
        | none => (operator? c cs).map fun (o, rest) => ([op o], rest) := by
  obtain ⟨-, hline, hreturn, hcomment, hcomma, hspace⟩ := formulaChar_ne hc
  rw [next?.eq_def]
  dsimp only
  cases Numeral.read? (c :: cs) <;>
    simp only [hspace, hline, hreturn, hcomment, hcomma, startsWithBang_cons hcs,
      Bool.false_eq_true, if_false, false_and, decide_eq_true_eq]

/-- The tokens at the start of a formula that begins with the given character, and what follows
them. -/
inductive Starts (c : Char) (cs : Text) : List Token → Text → Prop
  | opening : c = '(' → Starts c cs [.opening] cs
  | closing : c = ')' → Starts c cs [.closing] cs
  | bang : c = '!' → Starts c cs [.bang] cs
  | name : Text.isNameStart c = true →
      Starts c cs [.name (c :: cs.takeWhile Text.isWordChar)] (cs.dropWhile Text.isWordChar)
  | number {n : Numeral} {rest : Text} : Numeral.read? (c :: cs) = some (n, rest) →
      Starts c cs [.number n] rest
  | imaginary {n : Numeral} {e : Char} {rest : Text} : e = 'j' ∨ e = 'J' →
      Numeral.read? (c :: cs) = some (n, e :: rest) →
      Starts c cs [.number n, .op .times, .name ['I']] rest
  | op {o : Operator} {rest : Text} : Numeral.read? (c :: cs) = none →
      operator? c cs = some (o, rest) → Starts c cs [.op o] rest

theorem starts_of_next? {inside : Bool} {c : Char} {cs rest : Text} {ts : List Token}
    (ht : IsFormulaText (c :: cs)) (h : next? inside (c :: cs) = some (ts, rest)) :
    Starts c cs ts rest := by
  rw [next?_cons inside (ht c List.mem_cons_self) (head_ne_of_isText ht.tail)] at h
  split at h
  · next hopening =>
    cases h
    exact .opening hopening
  split at h
  · next hclosing =>
    cases h
    exact .closing hclosing
  split at h
  · next hbang =>
    cases h
    exact .bang hbang
  split at h
  · next hname =>
    cases h
    exact .name hname
  cases hread : Numeral.read? (c :: cs) with
  | none =>
    simp only [hread, Option.map_eq_some_iff, Prod.mk.injEq, Prod.exists] at h
    obtain ⟨o, rest', ho, rfl, rfl⟩ := h
    exact .op hread ho
  | some nr =>
    obtain ⟨n, tail⟩ := nr
    simp only [hread, Option.some.injEq] at h
    unfold ofNumeral at h
    split at h
    · split at h
      · next hunit =>
        cases h
        exact .imaginary hunit.1 hread
      · cases h
        exact .number hread
    · cases h
      exact .number hread

/-- The operators of one character. -/
def operatorChars : List (Char × Operator) :=
  [('+', .plus), ('-', .minus), ('*', .times), ('/', .over), ('^', .power)]

theorem operatorChars_spec : ∀ p ∈ operatorChars, isFormulaChar p.1 = true ∧ p.1 ≠ '(' ∧ p.1 ≠ ')' ∧
    p.1 ≠ '!' ∧ p.1 ≠ '.' ∧ Text.isNameStart p.1 = false ∧ Numeral.isPlainDigit p.1 = false := by
  decide

/-- An operator of one character, unless it is the first half of one of two. -/
theorem next?_operator {x : Char} {o : Operator} (hx : (x, o) ∈ operatorChars) (inside : Bool)
    {t : Text} (ht : IsFormulaText t) (hdouble : ∀ c, t.head? = some c → c ≠ '*' ∧ c ≠ '/') :
    next? inside (x :: t) = some ([op o], t) := by
  obtain ⟨hchar, hopening, hclosing, hbang, hpoint, hname, hdigit⟩ := operatorChars_spec _ hx
  have hread : Numeral.read? (x :: t) = none := by
    simp [Numeral.read?, Numeral.digitRun, hdigit, hpoint]
  have hafter : ∀ c, c = '*' ∨ c = '/' → after? c t = none := by
    intro c hc
    cases t with
    | nil => rfl
    | cons d t =>
      have hspace := (formulaChar_ne (ht d (by simp))).2.2.2.2.2
      have hd := hdouble d rfl
      simp only [after?, List.dropWhile_cons, hspace, Bool.false_eq_true, if_false]
      rcases hc with rfl | rfl <;> simp [hd]
  have hop : operator? x t = some (o, t) := by
    simp only [operatorChars, List.mem_cons, Prod.mk.injEq, List.not_mem_nil, or_false] at hx
    rcases hx with ⟨rfl, rfl⟩ | ⟨rfl, rfl⟩ | ⟨rfl, rfl⟩ | ⟨rfl, rfl⟩ | ⟨rfl, rfl⟩ <;>
      simp [operator?, hafter]
  rw [next?_cons inside hchar (head_ne_of_isText ht), hread, hop]
  simp [hopening, hclosing, hbang, hname]

theorem plainDigit_spec {c : Char} (h : Numeral.isPlainDigit c = true) : isFormulaChar c = true ∧
    c ≠ '(' ∧ c ≠ ')' ∧ c ≠ '!' ∧ Text.isNameStart c = false := by
  have hhigh : c.toNat ≤ 57 := by
    simp only [Numeral.isPlainDigit, decide_eq_true_eq] at h
    exact h.2
  refine ⟨by simp [isFormulaChar, h], ne_of_class h (by decide), ne_of_class h (by decide),
    ne_of_class h (by decide), ?_⟩
  rw [Text.isNameStart, Text.nameStartRuns, inRuns_cons, if_pos (by omega)]

/-- Digits without a zero in front are one numeral. -/
theorem next?_digits (inside : Bool) {ds : Text} (hds : ∀ c ∈ ds, Numeral.isPlainDigit c = true)
    (hne : ds ≠ []) (hzero : ds = ['0'] ∨ ds.head? ≠ some '0') :
    next? inside ds = some ([number (.integer 10 ds)], []) := by
  have hread := Numeral.read?_digits hds hne hzero
  cases ds with
  | nil => simp at hne
  | cons d ds =>
    have hd := hds d (by simp)
    obtain ⟨hchar, hopening, hclosing, hbang, hname⟩ := plainDigit_spec hd
    have hhead : ∀ c, ds.head? = some c → c ≠ '=' := by
      rintro c hc rfl
      exact absurd (hds '=' (List.mem_cons_of_mem d (List.mem_of_head? hc))) (by decide)
    rw [next?_cons inside hchar hhead, hread]
    simp [hopening, hclosing, hbang, hname, ofNumeral]

private theorem after?_append {c : Char} {cs : Text} (hc : c = '*' ∨ c = '/')
    (hx : BreaksAfter x (c :: cs)) (hcs : IsFormulaText cs) :
    after? c (cs ++ x :: r) = (after? c cs).map (· ++ x :: r) := by
  cases cs with
  | nil =>
    -- the first character of a double operator is the last one of the text
    have hne : x ≠ '*' ∧ x ≠ '/' ∧ x ≠ ' ' := by
      refine ⟨?_, ?_, ?_⟩ <;> rintro rfl <;> have h := hx.noDouble (by simp) c rfl <;> tauto
    have hspace : isSpace x = false := by simp [isSpace_of_break hx.isBreak, hne.2.2]
    have hxc : x ≠ c := by rcases hc with rfl | rfl <;> tauto
    simp [after?, hspace, hxc]
  | cons d ds =>
    have hspace := (formulaChar_ne (hcs d (by simp))).2.2.2.2.2
    simp only [after?, List.cons_append, List.dropWhile_cons, hspace, Bool.false_eq_true, if_false]
    split <;> rfl

private theorem operator?_append {c : Char} {cs : Text} (hc : isFormulaChar c = true)
    (hx : BreaksAfter x (c :: cs)) (hcs : IsFormulaText cs) :
    operator? c (cs ++ x :: r) = (operator? c cs).map fun (o, rest) => (o, rest ++ x :: r) := by
  by_cases hdouble : c = '*' ∨ c = '/'
  · have hafter := after?_append (r := r) hdouble hx hcs
    rcases hdouble with rfl | rfl <;> simp only [operator?, hafter] <;>
      cases after? _ cs <;> rfl
  · unfold operator?
    have hless : c ≠ '<' := ne_of_class hc (by decide)
    have hgreater : c ≠ '>' := ne_of_class hc (by decide)
    split <;> simp_all

private theorem ofNumeral_append (hx : x ∈ breakChars) (n : Numeral) (cs : Text) :
    ofNumeral n (cs ++ x :: r) = ((ofNumeral n cs).1, (ofNumeral n cs).2 ++ x :: r) := by
  obtain ⟨-, -, -, -, -, hj, hJ, -⟩ := break_ne hx
  cases cs with
  | nil => simp [ofNumeral, hj, hJ]
  | cons c cs =>
    simp only [List.cons_append, ofNumeral]
    split <;> rfl

theorem takeWhile_append_stop {p : Char → Bool} (hp : p x = false) (t : Text) :
    (t ++ x :: r).takeWhile p = t.takeWhile p := by
  induction t with
  | nil => simp [hp]
  | cons c cs ih => by_cases hc : p c <;> simp [hc, ih]

theorem dropWhile_append_stop {p : Char → Bool} (hp : p x = false) (t : Text) :
    (t ++ x :: r).dropWhile p = t.dropWhile p ++ x :: r := by
  induction t with
  | nil => simp [hp]
  | cons c cs ih => by_cases hc : p c <;> simp [hc, ih]

private theorem next?_append (inside : Bool) {c : Char} {cs : Text} (ht : IsFormulaText (c :: cs))
    (hx : BreaksAfter x (c :: cs)) :
    next? inside (c :: cs ++ x :: r) =
      (next? inside (c :: cs)).map fun (ts, rest) => (ts, rest ++ x :: r) := by
  have hc : isFormulaChar c = true := ht c (by simp)
  have hword := not_wordChar_of_break hx.isBreak
  have hhead := head_ne_of_isText ht.tail
  have hhead' : ∀ d, (cs ++ x :: r).head? = some d → d ≠ '=' := by
    intro d hd
    cases cs with
    | nil =>
      simp only [List.nil_append, List.head?_cons, Option.some.injEq] at hd
      exact hd ▸ (break_ne hx.isBreak).2.2.2.2.1
    | cons c' cs' => exact hhead d (by simpa using hd)
  rw [List.cons_append, next?_cons inside hc hhead, next?_cons inside hc hhead',
    takeWhile_append_stop hword, dropWhile_append_stop hword]
  split
  · rfl
  split
  · rfl
  split
  · rfl
  split
  · rfl
  rw [← List.cons_append, Numeral.read?_append hx.isBreak hx.noExponent]
  cases hread : Numeral.read? (c :: cs) with
  | none =>
    simp only [Option.map_none, operator?_append hc hx ht.tail, Option.map_map]
    rfl
  | some nr =>
    obtain ⟨n, rest⟩ := nr
    simp [ofNumeral_append hx.isBreak]

private theorem after?_suffix {c : Char} {cs rest : Text} (h : after? c cs = some rest) :
    rest <:+ cs := by
  unfold after? at h
  have hdrop := List.dropWhile_suffix isSpace (l := cs)
  split at h
  · next d r heq =>
    split at h
    · simp only [Option.some.injEq] at h
      rw [heq] at hdrop
      exact h ▸ (List.suffix_cons d r).trans hdrop
    · simp at h
  · simp at h

private theorem operator?_suffix {c : Char} {cs rest : Text} {o : Operator}
    (h : operator? c cs = some (o, rest)) : rest <:+ cs := by
  have hself : cs <:+ cs := List.suffix_refl cs
  have hafter (d : Char) : ∀ r, after? d cs = some r → r <:+ cs := fun r => after?_suffix
  unfold operator? at h
  split at h
  case h_3 => have := hafter '*'; cases ha : after? '*' cs <;> simp_all
  case h_4 => have := hafter '/'; cases ha : after? '/' cs <;> simp_all
  case h_10 =>
    have := hafter '<'
    have := hafter '='
    cases ha : after? '<' cs <;> cases hb : after? '=' cs <;> simp_all
  case h_11 =>
    have := hafter '>'
    have := hafter '='
    cases ha : after? '>' cs <;> cases hb : after? '=' cs <;> simp_all
  all_goals simp_all

theorem next?_suffix {inside : Bool} {c : Char} {cs rest : Text} {ts : List Token}
    (ht : IsFormulaText (c :: cs)) (h : next? inside (c :: cs) = some (ts, rest)) :
    rest <:+ c :: cs := by
  have htail : cs <:+ c :: cs := List.suffix_cons c cs
  cases starts_of_next? ht h with
  | opening => exact htail
  | closing => exact htail
  | bang => exact htail
  | name => exact (List.dropWhile_suffix _).trans htail
  | number hread => exact Numeral.read?_suffix hread
  | imaginary _ hread => exact (List.suffix_cons _ _).trans (Numeral.read?_suffix hread)
  | op _ ho => exact (operator?_suffix ho).trans htail

/-- Reading a text that is followed by a character that begins a token of its own. -/
theorem lex_append (depth : Int) {t : Text} (ht : IsFormulaText t) (hx : BreaksAfter x t) :
    lex depth (t ++ x :: r) =
      (lex depth t).bind fun ts => (lex (depth + (ts.map opens).sum) (x :: r)).map (ts ++ ·) := by
  induction hlen : t.length using Nat.strongRecOn generalizing t depth with
  | ind n ih =>
    cases t with
    | nil =>
      have hnil : lex depth [] = some [] := by rw [lex.eq_def]; rfl
      simp [hnil]
    | cons c cs =>
      have hnonempty : (c :: cs ++ x :: r).isEmpty = false := rfl
      rw [lex.eq_def depth (c :: cs ++ x :: r), lex.eq_def depth (c :: cs)]
      simp only [hnonempty, List.isEmpty_cons, Bool.false_eq_true, if_false,
        next?_append _ ht hx]
      cases hnext : next? (decide (0 < depth)) (c :: cs) with
      | none => rfl
      | some p =>
        obtain ⟨ts, rest⟩ := p
        have hsuffix := next?_suffix ht hnext
        simp only [Option.map_some, Option.bind_eq_bind, Option.bind_some, List.length_append]
        by_cases hshort : rest.length < (c :: cs).length
        · have hrest := ih rest.length (by omega) (depth + (ts.map opens).sum)
            (ht.suffix hsuffix) (hx.suffix hsuffix) rfl
          rw [if_pos hshort, if_pos (by omega), hrest]
          cases lex (depth + (ts.map opens).sum) rest with
          | none => rfl
          | some us =>
            have hsum : depth + (ts.map opens).sum + (us.map opens).sum =
                depth + ((ts ++ us).map opens).sum := by
              rw [List.map_append, List.sum_append, Int.add_assoc]
            simp only [Option.bind_some, Option.pure_def, hsum]
            cases lex (depth + ((ts ++ us).map opens).sum) (x :: r) <;> simp
        · rw [if_neg hshort, if_neg (by omega)]
          rfl

/-- Reading one token and then the rest of a text. -/
theorem lex_of_next? {depth : Int} {t rest : Text} {ts : List Token}
    (h : next? (decide (0 < depth)) t = some (ts, rest)) (hrest : rest.length < t.length) :
    lex depth t = (lex (depth + (ts.map opens).sum) rest).map (ts ++ ·) := by
  have hne : t.isEmpty = false := by cases t <;> simp_all
  rw [lex.eq_def]
  simp only [hne, Bool.false_eq_true, if_false, h, Option.bind_eq_bind, Option.bind_some,
    if_pos hrest]
  cases lex (depth + (ts.map opens).sum) rest <;> rfl

theorem lex_opening (depth : Int) (t : Text) :
    lex depth ('(' :: t) = (lex (depth + 1) t).map (opening :: ·) :=
  lex_of_next? (show next? _ ('(' :: t) = some ([opening], t) from rfl) (by simp)

theorem lex_closing (depth : Int) (t : Text) :
    lex depth (')' :: t) = (lex (depth - 1) t).map (closing :: ·) :=
  lex_of_next? (show next? _ (')' :: t) = some ([closing], t) from rfl) (by simp)

end Token

theorem isFormulaText_digits {ds : Text} (hds : ∀ c ∈ ds, Numeral.isPlainDigit c = true) :
    IsFormulaText ds :=
  fun c hc => (Token.plainDigit_spec (hds c hc)).1

end DeskCalc
