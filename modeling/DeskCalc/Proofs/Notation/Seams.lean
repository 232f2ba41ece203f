import DeskCalc.Proofs.Notation.Calls
import Mathlib.Data.List.DropRight

/-!
# Seams of a text

The names that are rewritten are whole words, and the factorials are those of whole digit runs. So a
text may be cut where neither is cut apart, and the two sides are rewritten each for itself.
Rewriting does not bring a digit or an exclamation mark to a place where it would touch a digit run.
-/

namespace DeskCalc.Notation

variable {a b s t w ds name new : Text} {c x : Char}

theorem isDigit_of_isPlainLetter (hx : isPlainLetter x = true) : Text.isDigit x = false := by
  simp only [isPlainLetter, Bool.or_eq_true, decide_eq_true_eq] at hx
  have hrange : 65 ≤ x.toNat ∧ x.toNat ≤ 122 := by
    rcases hx with ⟨hlow, hhigh⟩ | ⟨hlow, hhigh⟩
    · have hlow' : 65 ≤ x.toNat := hlow
      have hhigh' : x.toNat ≤ 90 := hhigh
      omega
    · have hlow' : 97 ≤ x.toNat := hlow
      have hhigh' : x.toNat ≤ 122 := hhigh
      omega
  rw [Text.isDigit_eq (by omega), Numeral.isPlainDigit, decide_eq_false_iff_not]
  intro hdigit
  have htop : x.toNat ≤ 57 := hdigit.2
  omega

section words

/-- Whether a text consists of letters only. -/
def IsWord (w : Text) : Prop := ∀ c ∈ w, isPlainLetter c = true

/-- Whether no letter stands at the start of a text. -/
def StartsOpen (t : Text) : Prop := ∀ c, t.head? = some c → isPlainLetter c = false

theorem startsOpen_cons (hx : isPlainLetter x = false) (t : Text) : StartsOpen (x :: t) := by
  intro c hc
  obtain rfl : x = c := Option.some.inj hc
  exact hx

theorem IsWord.not_mem_opening (hw : IsWord w) : '(' ∉ w := not_mem_of_class hw (by decide)

theorem endsOpen_nil : EndsOpen [] := by
  intro c hc
  exact absurd hc (by simp)

theorem endsOpen_cons (ha : EndsOpen a) (hx : a = [] → isPlainLetter x = false) :
    EndsOpen (x :: a) := by
  intro c hc
  cases a with
  | nil =>
    obtain rfl : x = c := Option.some.inj hc
    exact hx rfl
  | cons d a => exact ha c (by simpa using hc)

theorem endsOpen_append (ha : EndsOpen a) (hb : EndsOpen b) : EndsOpen (a ++ b) := by
  intro c hc
  rw [List.getLast?_append] at hc
  cases hlast : b.getLast? with
  | none =>
    rw [hlast] at hc
    exact ha c hc
  | some d =>
    rw [hlast] at hc
    exact hb c (hlast.trans hc)

theorem exists_first_word (t : Text) : ∃ w s, t = w ++ s ∧ IsWord w ∧ StartsOpen s := by
  refine ⟨t.takeWhile isPlainLetter, t.dropWhile isPlainLetter, ?_, ?_, ?_⟩
  · exact List.takeWhile_append_dropWhile.symm
  · intro c hc
    exact List.mem_takeWhile_imp hc
  · intro c hc
    have hnot := List.head?_dropWhile_not isPlainLetter t
    rw [hc] at hnot
    simpa using hnot

theorem exists_last_word (t : Text) : ∃ a w, t = a ++ w ∧ EndsOpen a ∧ IsWord w := by
  refine ⟨t.rdropWhile isPlainLetter, t.rtakeWhile isPlainLetter, ?_, ?_, ?_⟩
  · exact List.rdropWhile_append_rtakeWhile.symm
  · intro c hc
    have hne : t.rdropWhile isPlainLetter ≠ [] := by
      intro hnil
      rw [hnil] at hc
      simp at hc
    have hlast := List.rdropWhile_last_not isPlainLetter t hne
    rw [List.getLast?_eq_getLast_of_ne_nil hne, Option.some.injEq] at hc
    simpa [hc] using hlast
  · intro c hc
    exact List.mem_rtakeWhile_imp hc

end words

section renamed

private theorem renameFrom_word (hw : IsWord w) :
    renameFrom name new 0 true (w ++ ['(']) = w ++ ['('] := by
  induction w with
  | nil => rfl
  | cons c w ih =>
    have hc : isPlainLetter c = true := hw c (by simp)
    simp only [List.cons_append, renameFrom, hc, Bool.not_true, Bool.false_and, Bool.false_eq_true,
      if_false]
    rw [ih fun d hd => hw d (by simp [hd])]

private theorem rename_word (hw : IsWord w) (hne : name ≠ w) :
    rename name new (w ++ ['(']) = w ++ ['('] := by
  have hstart : (name ++ ['(']).isPrefixOf (w ++ ['(']) = false := by
    rw [Bool.eq_false_iff]
    intro h
    obtain ⟨r, hr⟩ := List.isPrefixOf_iff_prefix.mp h
    rcases List.eq_nil_or_concat r with rfl | ⟨r, d, rfl⟩
    · rw [List.append_nil] at hr
      exact hne (List.append_cancel_right hr)
    · rw [List.concat_eq_append, ← List.append_assoc] at hr
      have hmem : name ++ ['('] ++ r = w := (List.append_inj' hr rfl).1
      exact hw.not_mem_opening (hmem ▸ by simp)
  cases w with
  | nil =>
    simp only [List.nil_append] at hstart
    simp [rename, renameFrom, hstart]
  | cons c w =>
    have hc : isPlainLetter c = true := hw c (by simp)
    rw [List.cons_append] at hstart
    simp only [rename, List.cons_append, renameFrom, hstart, hc, Bool.and_false, Bool.false_eq_true,
      if_false]
    rw [renameFrom_word fun d hd => hw d (by simp [hd])]

theorem renamed_cons (hx : isPlainLetter x = false) (t : Text) :
    renamed (x :: t) = x :: renamed t := by
  have hend : EndsOpen [x] := endsOpen_append_singleton hx []
  have hone : renamed [x] = [x] := by
    by_cases hopening : x = '('
    · rw [hopening]
      decide
    · exact renamed_of_no_call (by simp [Ne.symm hopening])
  rw [← List.singleton_append, renamed_append hend, hone, List.singleton_append]

private theorem renamed_name : ∀ r ∈ renames, renamed (r.1 ++ ['(']) = r.2 := by decide

theorem renamed_named (h : (name, new) ∈ renames) (t : Text) :
    renamed (name ++ '(' :: t) = new ++ renamed t := by
  have hend : EndsOpen (name ++ ['(']) := endsOpen_append_singleton (by decide) name
  rw [List.append_cons, renamed_append hend, renamed_name _ h]

/-- A word stays as it is, unless it is the name in a call that is renamed. -/
theorem renamed_word (hw : IsWord w) (ht : StartsOpen t)
    (hname : t.head? = some '(' → ∀ r ∈ renames, r.1 ≠ w) : renamed (w ++ t) = w ++ renamed t := by
  cases t with
  | nil => exact renamed_of_no_call (by simpa using hw.not_mem_opening)
  | cons d t =>
    have hd : isPlainLetter d = false := ht d rfl
    have hword : renamed (w ++ [d]) = w ++ [d] := by
      by_cases hopening : d = '('
      · subst hopening
        apply foldl_rename_eq
        intro r hr
        exact rename_word hw (hname rfl r hr)
      · exact renamed_of_no_call (by simp [hw.not_mem_opening, Ne.symm hopening])
    rw [List.append_cons, renamed_append (endsOpen_append_singleton hd w), hword, renamed_cons hd,
      List.append_assoc]
    rfl

/-- A text may be cut before a character that is no letter and opens no call. -/
theorem renamed_cut (hx : isPlainLetter x = false) (hopening : x ≠ '(') (a b : Text) :
    renamed (a ++ x :: b) = renamed a ++ x :: renamed b := by
  obtain ⟨a, w, rfl, ha, hw⟩ := exists_last_word a
  have hword : renamed (w ++ x :: b) = w ++ renamed (x :: b) :=
    renamed_word hw (startsOpen_cons hx b) fun h => absurd (Option.some.inj h) hopening
  rw [List.append_assoc, renamed_append ha, renamed_append ha, hword,
    renamed_of_no_call hw.not_mem_opening, renamed_cons hx, List.append_assoc]

theorem getLast?_renamed (t : Text) : (renamed t).getLast? = t.getLast? := by
  rcases exists_last_opening t with ht | ⟨a, b, rfl, hb⟩
  · rw [renamed_of_no_call ht]
  · obtain ⟨v, hv⟩ := renamed_tail hb a
    simp only [hv, List.getLast?_append, List.getLast?_cons, Option.some_or]

end renamed

section factorials

theorem factorials_cons (hx : Text.isDigit x = false) (t : Text) :
    factorials (x :: t) = x :: factorials t := by
  simp [factorials, factorialsFrom, hx]

theorem factorials_word (hw : IsWord w) (t : Text) : factorials (w ++ t) = w ++ factorials t := by
  induction w with
  | nil => rfl
  | cons c w ih =>
    have hc := isDigit_of_isPlainLetter (hw c (by simp))
    rw [List.cons_append, factorials_cons hc, ih fun d hd => hw d (by simp [hd])]
    rfl

theorem factorials_factorial (hds : ∀ c ∈ ds, Text.isDigit c = true) (hne : ds ≠ []) (t : Text) :
    factorials (ds ++ '!' :: t) = text "factorial(" ++ ds ++ ')' :: factorials t := by
  have hbang : Text.isDigit '!' = false := by decide
  rw [factorials, factorialsFrom_digits hds]
  simp [factorialsFrom, hbang, hne, factorials]

private theorem factorials_digits_cons (hds : ∀ c ∈ ds, Text.isDigit c = true)
    (hx : Text.isDigit x = false) (hbang : x ≠ '!') (t : Text) :
    factorials (ds ++ x :: t) = ds ++ factorials (x :: t) := by
  rw [factorials_append hx hbang, factorials_digits hds, factorials_cons hx]

private theorem factorialsFrom_cut (run : Text)
    (ha : ∀ c, a.getLast? = some c → Text.isDigit c = false) (hrun : a = [] → run = []) (b : Text) :
    factorialsFrom run (a ++ b) = factorialsFrom run a ++ factorials b := by
  induction a generalizing run with
  | nil =>
    rw [hrun rfl]
    rfl
  | cons c a ih =>
    have htail : ∀ d, a.getLast? = some d → Text.isDigit d = false := by
      intro d hd
      apply ha d
      rw [List.getLast?_cons, hd]
      rfl
    simp only [List.cons_append, factorialsFrom]
    split
    · next hc =>
      apply ih _ htail
      rintro rfl
      exact absurd (ha c rfl) (by simp [hc])
    · split <;> simp [ih [] htail]

/-- A text may be cut behind a character that is no digit. -/
theorem factorials_cut (ha : ∀ c, a.getLast? = some c → Text.isDigit c = false) (b : Text) :
    factorials (a ++ b) = factorials a ++ factorials b :=
  factorialsFrom_cut [] ha (fun _ => rfl) b

section digits

variable (hds : ∀ c ∈ ds, Text.isDigit c = true)

include hds

private theorem factorials_digits_word (hw : IsWord w) (hne : w ≠ []) (t : Text) :
    factorials (ds ++ (w ++ t)) = ds ++ factorials (w ++ t) := by
  obtain ⟨c, w, rfl⟩ := List.exists_cons_of_ne_nil hne
  have hc : isPlainLetter c = true := hw c (by simp)
  exact factorials_digits_cons hds (isDigit_of_isPlainLetter hc) (ne_of_class hc (by decide)) _

/-- The digit that a quotient begins with is not the last one of a factorial. -/
private theorem factorials_digits_named (h : (name, new) ∈ renames) (t : Text) :
    factorials (ds ++ (new ++ t)) = ds ++ factorials (new ++ t) := by
  have hnew : (∃ v, new = '1' :: '/' :: v) ∨ ∃ v, new = text "log" ++ v := by
    simp only [renames, List.map_cons, List.map_nil, List.mem_cons, Prod.mk.injEq,
      List.not_mem_nil, or_false] at h
    rcases h with ⟨-, rfl⟩ | ⟨-, rfl⟩ | ⟨-, rfl⟩ | ⟨-, rfl⟩ | ⟨-, rfl⟩
    · exact .inl ⟨_, rfl⟩
    · exact .inl ⟨_, rfl⟩
    · exact .inl ⟨_, rfl⟩
    · exact .inr ⟨_, rfl⟩
    · exact .inr ⟨_, rfl⟩
  rcases hnew with ⟨v, rfl⟩ | ⟨v, rfl⟩
  · have hone : ∀ c ∈ ['1'], Text.isDigit c = true := by decide
    have hboth : ∀ c ∈ ds ++ ['1'], Text.isDigit c = true := by
      intro c hc
      exact (List.mem_append.mp hc).elim (hds c) (hone c)
    have hslash : ∀ ds : Text, (∀ c ∈ ds, Text.isDigit c = true) →
        factorials (ds ++ '/' :: (v ++ t)) = ds ++ factorials ('/' :: (v ++ t)) :=
      fun ds hds => factorials_digits_cons hds (by decide) (by decide) _
    have hleft := hslash (ds ++ ['1']) hboth
    have hright := hslash ['1'] hone
    simp only [List.append_assoc, List.singleton_append] at hleft hright
    rw [List.cons_append, List.cons_append, hleft, hright]
  · rw [List.append_assoc]
    exact factorials_digits_word hds (by unfold IsWord; decide) (by decide) _

/-- Renaming what follows a digit run does not turn the run into a factorial. -/
theorem factorials_digits_renamed (ht : ∀ c, t.head? = some c → Text.isDigit c = false ∧ c ≠ '!') :
    factorials (ds ++ renamed t) = ds ++ factorials (renamed t) := by
  obtain ⟨w, s, rfl, hw, hs⟩ := exists_first_word t
  by_cases hname : s.head? = some '(' ∧ ∃ r ∈ renames, r.1 = w
  · -- the run may become longer by the digit that a quotient begins with
    obtain ⟨hopening, r, hr, rfl⟩ := hname
    obtain ⟨s, rfl⟩ := List.head?_eq_some_iff.mp hopening
    rw [renamed_named hr]
    exact factorials_digits_named hds hr _
  · have hkept : s.head? = some '(' → ∀ r ∈ renames, r.1 ≠ w :=
      fun hopening r hr hrw => hname ⟨hopening, r, hr, hrw⟩
    rw [renamed_word hw hs hkept]
    by_cases hne : w = []
    · subst hne
      cases s with
      | nil =>
        have hnil : [] ++ renamed [] = ([] : Text) := rfl
        have hempty : factorials [] = [] := rfl
        rw [hnil, hempty, List.append_nil]
        exact factorials_digits hds
      | cons d s =>
        obtain ⟨hd, hbang⟩ := ht d rfl
        rw [List.nil_append, renamed_cons (hs d rfl)]
        exact factorials_digits_cons hds hd hbang _
    · exact factorials_digits_word hds hw hne _

end digits

end factorials

end DeskCalc.Notation
