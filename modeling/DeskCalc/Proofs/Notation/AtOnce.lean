import DeskCalc.Keypad
import DeskCalc.Proofs.Notation.Seams

/-!
# One pass over a text

The steps from keypad notation to a formula in radians never touch what another step has written.
So all of them together are one pass over the text from left to right: at every place it is decided
by the text as it was typed whether something begins there that is replaced. A text falls into
pieces, each of which is either replaced as a whole or stays as it is, and both ways of rewriting
agree on every piece.
-/

namespace DeskCalc.Notation

section pass

/-- The calls that are replaced, and what replaces each. -/
def callReplacements : List (Text × Text) :=
  [("cot(", "1/tan("), ("sec(", "1/cos("), ("csc(", "1/sin("), ("log(", "log10("),
    ("ln(", "log(")].map fun (old, new) => (text old, text new)

/-- The call that a text starts with, if no letter stands before it, and what replaces it. -/
def callAt? (before : Option Char) (t : Text) : Option (Text × Text) :=
  if before.any isPlainLetter then none
  else callReplacements.find? fun (old, _) => old.isPrefixOf t

/-- The factorial of a whole digit run that a text starts with, and what replaces it. -/
def factorialAt? (before : Option Char) (t : Text) : Option (Text × Text) :=
  let ds := t.takeWhile Text.isDigit
  if before.any Text.isDigit = false ∧ ds ≠ [] ∧ (ds ++ ['!']).isPrefixOf t then
    some (ds ++ ['!'], text "factorial(" ++ ds ++ [')'])
  else none

/-- The letter `π` that a text starts with, and what replaces it. -/
def piAt? (t : Text) : Option (Text × Text) :=
  if t.head? = some piLetter then some ([piLetter], text "pi") else none

/-- What is replaced at a place, and by what. The character before the place and the text behind it
are those that were typed. -/
def replacementAt? (before : Option Char) (t : Text) : Option (Text × Text) :=
  (callAt? before t).or ((factorialAt? before t).or (piAt? t))

/-- Replaces from left to right. The first `skip` characters belong to what has been replaced. -/
def replaceFrom (skip : Nat) (before : Option Char) : Text → Text
  | [] => []
  | c :: cs =>
    match skip with
    | k + 1 => replaceFrom k (some c) cs
    | 0 =>
      match replacementAt? before (c :: cs) with
      | some (old, new) => new ++ replaceFrom (old.length - 1) (some c) cs
      | none => c :: replaceFrom 0 (some c) cs

/-- Replaces everything there is to replace in a text, all at once. -/
def replaceAtOnce (t : Text) : Text := replaceFrom 0 none t

end pass

variable {t u w ds name new old : Text} {before : Option Char} {c : Char}

section pieces

/-- A text, piece by piece, and what it is rewritten to in radians. -/
inductive Rewritten : Text → Text → Prop
  | nil : Rewritten [] []
  | named {name new t u : Text} (h : (name, new) ∈ renames) (ht : Rewritten t u) :
      Rewritten (name ++ '(' :: t) (new ++ u)
  | word {w t u : Text} (hne : w ≠ []) (hw : IsWord w) (hs : StartsOpen t)
      (hname : t.head? = some '(' → ∀ r ∈ renames, r.1 ≠ w) (ht : Rewritten t u) :
      Rewritten (w ++ t) (w ++ u)
  | factorial {ds t u : Text} (hne : ds ≠ []) (hds : ∀ c ∈ ds, Text.isDigit c = true)
      (ht : Rewritten t u) : Rewritten (ds ++ '!' :: t) (text "factorial(" ++ ds ++ ')' :: u)
  | digits {ds t u : Text} (hne : ds ≠ []) (hds : ∀ c ∈ ds, Text.isDigit c = true)
      (hs : ∀ c, t.head? = some c → Text.isDigit c = false ∧ c ≠ '!') (ht : Rewritten t u) :
      Rewritten (ds ++ t) (ds ++ u)
  | pi {t u : Text} (ht : Rewritten t u) : Rewritten (piLetter :: t) (text "pi" ++ u)
  | other {c : Char} {t u : Text} (hletter : isPlainLetter c = false)
    (hdigit : Text.isDigit c = false)
      (hpi : c ≠ piLetter) (ht : Rewritten t u) : Rewritten (c :: t) (c :: u)

theorem radians_eq (t : Text) : normalize .radians t = nameConstants (factorials (renamed t)) := rfl

theorem renames_text : ∀ r ∈ renames, r.1 ≠ [] ∧ IsWord r.1 ∧ factorials r.2 = r.2 ∧
    nameConstants r.2 = r.2 ∧ ∀ c, r.2.getLast? = some c → Text.isDigit c = false := by
  unfold IsWord
  decide

theorem isPlainLetter_of_isDigit (hc : Text.isDigit c = true) : isPlainLetter c = false := by
  rw [Bool.eq_false_iff]
  intro hletter
  exact ne_of_class hc (isDigit_of_isPlainLetter hletter) rfl

private theorem renamed_digits (hds : ∀ c ∈ ds, Text.isDigit c = true) (t : Text) :
    renamed (ds ++ t) = ds ++ renamed t := by
  induction ds with
  | nil => rfl
  | cons d ds ih =>
    have hd := isPlainLetter_of_isDigit (hds d (by simp))
    rw [List.cons_append, renamed_cons hd, ih fun c hc => hds c (by simp [hc])]
    rfl

private theorem radians_named (h : (name, new) ∈ renames) (t : Text) :
    normalize .radians (name ++ '(' :: t) = new ++ normalize .radians t := by
  obtain ⟨-, -, hfactorials, hconstants, hlast⟩ := renames_text _ h
  rw [radians_eq, renamed_named h, factorials_cut hlast, nameConstants_append, hfactorials,
    hconstants, radians_eq]

private theorem radians_word (hw : IsWord w) (hs : StartsOpen t)
    (hname : t.head? = some '(' → ∀ r ∈ renames, r.1 ≠ w) :
    normalize .radians (w ++ t) = w ++ normalize .radians t := by
  have hpi : piLetter ∉ w := not_mem_of_class hw (by decide)
  rw [radians_eq, renamed_word hw hs hname, factorials_word hw, nameConstants_append,
    nameConstants_eq hpi, radians_eq]

theorem radians_factorial (hds : ∀ c ∈ ds, Text.isDigit c = true) (hne : ds ≠ []) (t : Text) :
    normalize .radians (ds ++ '!' :: t) =
      text "factorial(" ++ ds ++ ')' :: normalize .radians t := by
  have hname : nameConstants (text "factorial(") = text "factorial(" := nameConstants_eq (by decide)
  rw [radians_eq, renamed_digits hds, renamed_cons (by decide), factorials_factorial hds hne,
    nameConstants_append, nameConstants_append, nameConstants_cons (by decide),
    nameConstants_digits hds, hname, radians_eq]

theorem radians_digits (hds : ∀ c ∈ ds, Text.isDigit c = true)
    (hs : ∀ c, t.head? = some c → Text.isDigit c = false ∧ c ≠ '!') :
    normalize .radians (ds ++ t) = ds ++ normalize .radians t := by
  rw [radians_eq, renamed_digits hds, factorials_digits_renamed hds hs, nameConstants_append,
    nameConstants_digits hds, radians_eq]

theorem radians_cons (hletter : isPlainLetter c = false) (hdigit : Text.isDigit c = false)
    (t : Text) : normalize .radians (c :: t) = nameConstants [c] ++ normalize .radians t := by
  rw [radians_eq, renamed_cons hletter, factorials_cons hdigit, ← List.singleton_append,
    nameConstants_append, radians_eq]

theorem exists_first_digits (hc : Text.isDigit c = true) (s : Text) :
    ∃ ds r, c :: s = ds ++ r ∧ ds ≠ [] ∧ (∀ d ∈ ds, Text.isDigit d = true) ∧
      ∀ d, r.head? = some d → Text.isDigit d = false := by
  refine ⟨(c :: s).takeWhile Text.isDigit, (c :: s).dropWhile Text.isDigit, ?_, ?_, ?_, ?_⟩
  · exact List.takeWhile_append_dropWhile.symm
  · simp [hc]
  · intro d hd
    exact List.mem_takeWhile_imp hd
  · intro d hd
    have hnot := List.head?_dropWhile_not Text.isDigit (c :: s)
    rw [hd] at hnot
    simpa using hnot

/-- Whether a text starts with a piece, so that it falls into pieces if the shorter
text behind does. -/
def StartsWithPiece (t : Text) : Prop :=
  ∃ r, r.length < t.length ∧
    (Rewritten r (normalize .radians r) → Rewritten t (normalize .radians t))

private theorem startsWithPiece_word (hne : w ≠ []) (hw : IsWord w) (hs : StartsOpen t) :
    StartsWithPiece (w ++ t) := by
  have hpos := List.length_pos_of_ne_nil hne
  by_cases hname : t.head? = some '(' ∧ ∃ r ∈ renames, r.1 = w
  · obtain ⟨hopening, r, hr, rfl⟩ := hname
    obtain ⟨t, rfl⟩ := List.head?_eq_some_iff.mp hopening
    refine ⟨t, ?_, ?_⟩
    · simp only [List.length_append, List.length_cons]
      omega
    · intro hrest
      rw [radians_named hr]
      exact .named hr hrest
  · have hkept : t.head? = some '(' → ∀ r ∈ renames, r.1 ≠ w :=
      fun hopening r hr hrw => hname ⟨hopening, r, hr, hrw⟩
    refine ⟨t, ?_, ?_⟩
    · rw [List.length_append]
      omega
    · intro hrest
      rw [radians_word hw hs hkept]
      exact .word hne hw hs hkept hrest

private theorem startsWithPiece_digit (hc : Text.isDigit c = true) (t : Text) :
    StartsWithPiece (c :: t) := by
  obtain ⟨ds, r, hcut, hne, hds, hr⟩ := exists_first_digits hc t
  have hpos := List.length_pos_of_ne_nil hne
  rw [hcut]
  by_cases hbang : r.head? = some '!'
  · obtain ⟨r, rfl⟩ := List.head?_eq_some_iff.mp hbang
    refine ⟨r, ?_, ?_⟩
    · simp only [List.length_append, List.length_cons]
      omega
    · intro hrest
      rw [radians_factorial hds hne]
      exact .factorial hne hds hrest
  · have hend : ∀ d, r.head? = some d → Text.isDigit d = false ∧ d ≠ '!' :=
      fun d hd => ⟨hr d hd, fun h => hbang (h ▸ hd)⟩
    refine ⟨r, ?_, ?_⟩
    · rw [List.length_append]
      omega
    · intro hrest
      rw [radians_digits hds hend]
      exact .digits hne hds hend hrest

private theorem startsWithPiece_other (hletter : isPlainLetter c = false)
    (hdigit : Text.isDigit c = false) (t : Text) : StartsWithPiece (c :: t) := by
  refine ⟨t, Nat.lt_add_one _, ?_⟩
  intro hrest
  rw [radians_cons hletter hdigit]
  by_cases hpi : c = piLetter
  · subst hpi
    exact .pi hrest
  · rw [nameConstants_cons hpi]
    exact .other hletter hdigit hpi hrest

private theorem startsWithPiece (hne : t ≠ []) : StartsWithPiece t := by
  obtain ⟨w, s, rfl, hw, hs⟩ := exists_first_word t
  by_cases hword : w = []
  · subst hword
    obtain ⟨c, s, rfl⟩ := List.exists_cons_of_ne_nil hne
    cases hdigit : Text.isDigit c with
    | true => exact startsWithPiece_digit hdigit s
    | false => exact startsWithPiece_other (hs c rfl) hdigit s
  · exact startsWithPiece_word hword hw hs

/-- Every text falls into pieces. -/
theorem rewritten (t : Text) : Rewritten t (normalize .radians t) := by
  by_cases hne : t = []
  · subst hne
    exact .nil
  · obtain ⟨r, hlength, hpiece⟩ := startsWithPiece hne
    exact hpiece (rewritten r)
termination_by t.length

end pieces

section agreement

private theorem callReplacements_eq : callReplacements = renames.map fun r => (r.1 ++ ['('], r.2) :=
  rfl

private theorem replaceFrom_skip (s : Text) (c : Char) (t : Text) (before : Option Char) :
    replaceFrom (s.length + 1) before (s ++ c :: t) = replaceFrom 0 (some c) t := by
  induction s generalizing before with
  | nil => rfl
  | cons d s ih => exact ih (some d)

private theorem replaceFrom_of_some
    (h : replacementAt? before (old ++ c :: t) = some (old ++ [c], new)) :
    replaceFrom 0 before (old ++ c :: t) = new ++ replaceFrom 0 (some c) t := by
  cases old with
  | nil =>
    rw [List.nil_append] at h
    simp only [List.nil_append, replaceFrom, h]
    rfl
  | cons d old =>
    rw [List.cons_append] at h
    have hlength : (d :: old ++ [c]).length - 1 = old.length + 1 := by simp
    simp only [List.cons_append, replaceFrom, h]
    rw [← List.cons_append, hlength, replaceFrom_skip]

private theorem replaceFrom_of_none (h : replacementAt? before (c :: t) = none) :
    replaceFrom 0 before (c :: t) = c :: replaceFrom 0 (some c) t := by
  simp only [replaceFrom, h]

private theorem callAt?_after_letter (hc : isPlainLetter c = true) (t : Text) :
    callAt? (some c) t = none := by
  simp [callAt?, hc]

private theorem callAt?_named (h : (name, new) ∈ renames)
    (hbefore : before.any isPlainLetter = false) (t : Text) :
    callAt? before (name ++ '(' :: t) = some (name ++ ['('], new) := by
  rw [callAt?, hbefore, callReplacements_eq]
  simp only [renames, List.map_cons, List.map_nil, List.mem_cons, Prod.mk.injEq,
    List.not_mem_nil, or_false] at h
  rcases h with ⟨rfl, rfl⟩ | ⟨rfl, rfl⟩ | ⟨rfl, rfl⟩ | ⟨rfl, rfl⟩ | ⟨rfl, rfl⟩ <;>
    simp [renames, text, List.find?, List.isPrefixOf]

private theorem callAt?_word (hw : IsWord w) (hs : StartsOpen t)
    (hname : t.head? = some '(' → ∀ r ∈ renames, r.1 ≠ w) (before : Option Char) :
    callAt? before (w ++ t) = none := by
  rw [callAt?, callReplacements_eq]
  split
  · rfl
  · rw [List.find?_eq_none]
    intro old hold hstart
    obtain ⟨r, hr, rfl⟩ := List.mem_map.mp hold
    obtain ⟨s, hs'⟩ := List.isPrefixOf_iff_prefix.mp hstart
    obtain ⟨-, hletters, -⟩ := renames_text r hr
    simp only [List.append_assoc, List.singleton_append] at hs'
    -- a name is a whole word, so neither of the two words goes on behind the other
    rcases List.append_eq_append_iff.mp hs' with ⟨v, rfl, hv⟩ | ⟨v, hv, ht⟩
    · cases v with
      | nil =>
        obtain rfl : '(' :: s = t := hv
        exact hname rfl r hr (by simp)
      | cons d v =>
        obtain ⟨rfl, -⟩ := List.cons.inj hv
        exact absurd (hw '(' (by simp)) (by decide)
    · cases v with
      | nil => exact hname (by simp [ht]) r hr (by simpa using hv)
      | cons d v =>
        have hd : isPlainLetter d = true := hletters d (by simp [hv])
        rw [hs d (by simp [ht])] at hd
        exact absurd hd (by simp)

private theorem callAt?_of_not_letter (hc : isPlainLetter c = false) (before : Option Char)
    (t : Text) : callAt? before (c :: t) = none := by
  have hempty : IsWord [] := fun d hd => absurd hd (by simp)
  exact callAt?_word hempty (startsOpen_cons hc t) (fun _ r hr => (renames_text r hr).1) before

private theorem factorialAt?_of_not_digit (hc : Text.isDigit c = false) (before : Option Char)
    (t : Text) : factorialAt? before (c :: t) = none := by
  simp [factorialAt?, hc]

private theorem factorialAt?_after_digit (hc : Text.isDigit c = true) (t : Text) :
    factorialAt? (some c) t = none := by
  simp [factorialAt?, hc]

private theorem takeWhile_digits (hds : ∀ c ∈ ds, Text.isDigit c = true)
    (hs : ∀ c, t.head? = some c → Text.isDigit c = false) :
    (ds ++ t).takeWhile Text.isDigit = ds := by
  cases t with
  | nil => simpa using hds
  | cons c t => rw [Token.takeWhile_append_stop (hs c rfl), List.takeWhile_eq_self_iff.mpr hds]

private theorem factorialAt?_digits (hds : ∀ c ∈ ds, Text.isDigit c = true)
    (hs : ∀ c, t.head? = some c → Text.isDigit c = false ∧ c ≠ '!') :
    factorialAt? before (ds ++ t) = none := by
  have htake : (ds ++ t).takeWhile Text.isDigit = ds := takeWhile_digits hds fun c hc => (hs c hc).1
  have hbang : ¬['!'] <+: t := by
    rintro ⟨r, rfl⟩
    exact (hs '!' rfl).2 rfl
  simp [factorialAt?, htake, hbang]

private theorem piAt?_of_ne (hc : c ≠ piLetter) (t : Text) : piAt? (c :: t) = none := by
  simp [piAt?, hc]

private theorem replacementAt?_named (h : (name, new) ∈ renames)
    (hbefore : before.any isPlainLetter = false) (t : Text) :
    replacementAt? before (name ++ '(' :: t) = some (name ++ ['('], new) := by
  rw [replacementAt?, callAt?_named h hbefore]
  rfl

private theorem replacementAt?_factorial (hds : ∀ c ∈ ds, Text.isDigit c = true) (hne : ds ≠ [])
    (hbefore : before.any Text.isDigit = false) (t : Text) :
    replacementAt? before (ds ++ '!' :: t) =
      some (ds ++ ['!'], text "factorial(" ++ ds ++ [')']) := by
  have htake : (ds ++ '!' :: t).takeWhile Text.isDigit = ds := by
    rw [Token.takeWhile_append_stop (by decide), List.takeWhile_eq_self_iff.mpr hds]
  have hcall : callAt? before (ds ++ '!' :: t) = none := by
    obtain ⟨c, ds, rfl⟩ := List.exists_cons_of_ne_nil hne
    exact callAt?_of_not_letter (isPlainLetter_of_isDigit (hds c (by simp))) _ _
  simp [replacementAt?, hcall, factorialAt?, htake, hbefore, hne]

private theorem replacementAt?_pi (t : Text) :
    replacementAt? before (piLetter :: t) = some ([piLetter], text "pi") := by
  rw [replacementAt?, callAt?_of_not_letter (by decide), factorialAt?_of_not_digit (by decide)]
  simp [piAt?]

private theorem replacementAt?_other (hletter : isPlainLetter c = false)
    (hdigit : Text.isDigit c = false) (hpi : c ≠ piLetter) (t : Text) :
    replacementAt? before (c :: t) = none := by
  rw [replacementAt?, callAt?_of_not_letter hletter, factorialAt?_of_not_digit hdigit,
    piAt?_of_ne hpi]
  rfl

private theorem replaceFrom_letter (hc : isPlainLetter c = true)
    (hcall : callAt? before (c :: t) = none) :
    replaceFrom 0 before (c :: t) = c :: replaceFrom 0 (some c) t := by
  apply replaceFrom_of_none
  have hpi : c ≠ piLetter := ne_of_class hc (by decide)
  rw [replacementAt?, hcall, factorialAt?_of_not_digit (isDigit_of_isPlainLetter hc),
    piAt?_of_ne hpi]
  rfl

private theorem replaceFrom_word (hw : IsWord (c :: w))
    (hcall : callAt? before (c :: (w ++ t)) = none) :
    ∃ d, isPlainLetter d = true ∧
      replaceFrom 0 before (c :: (w ++ t)) = c :: (w ++ replaceFrom 0 (some d) t) := by
  have hc : isPlainLetter c = true := hw c (by simp)
  rw [replaceFrom_letter hc hcall]
  induction w generalizing c before with
  | nil => exact ⟨c, hc, rfl⟩
  | cons e w ih =>
    have he : isPlainLetter e = true := hw e (by simp)
    have hnone : callAt? (some c) (e :: (w ++ t)) = none := callAt?_after_letter hc _
    obtain ⟨d, hd, hrest⟩ := ih (fun x hx => hw x (List.mem_cons_of_mem c hx)) hnone he
    refine ⟨d, hd, ?_⟩
    rw [List.cons_append, replaceFrom_letter he hnone, hrest]
    rfl

private theorem replaceFrom_digit (hc : Text.isDigit c = true)
    (hfactorial : factorialAt? before (c :: t) = none) :
    replaceFrom 0 before (c :: t) = c :: replaceFrom 0 (some c) t := by
  apply replaceFrom_of_none
  have hpi : c ≠ piLetter := ne_of_class hc (by decide)
  rw [replacementAt?, callAt?_of_not_letter (isPlainLetter_of_isDigit hc), hfactorial,
    piAt?_of_ne hpi]
  rfl

private theorem replaceFrom_digits (hds : ∀ d ∈ c :: ds, Text.isDigit d = true)
    (hfactorial : factorialAt? before (c :: (ds ++ t)) = none) :
    ∃ d, Text.isDigit d = true ∧
      replaceFrom 0 before (c :: (ds ++ t)) = c :: (ds ++ replaceFrom 0 (some d) t) := by
  have hc : Text.isDigit c = true := hds c (by simp)
  rw [replaceFrom_digit hc hfactorial]
  induction ds generalizing c before with
  | nil => exact ⟨c, hc, rfl⟩
  | cons e ds ih =>
    have he : Text.isDigit e = true := hds e (by simp)
    have hnone : factorialAt? (some c) (e :: (ds ++ t)) = none := factorialAt?_after_digit hc _
    obtain ⟨d, hd, hrest⟩ := ih (fun x hx => hds x (List.mem_cons_of_mem c hx)) hnone he
    refine ⟨d, hd, ?_⟩
    rw [List.cons_append, replaceFrom_digit he hnone, hrest]
    rfl

/-- Whether a place cuts neither a word nor a digit run apart. -/
def IsSeam (before : Option Char) (t : Text) : Prop :=
  ∀ c d, before = some c → t.head? = some d →
    ¬(isPlainLetter c = true ∧ isPlainLetter d = true) ∧
      ¬(Text.isDigit c = true ∧ Text.isDigit d = true)

private theorem isSeam_none (t : Text) : IsSeam none t := by
  intro c d hc
  exact absurd hc (by simp)

private theorem isSeam_of_other (hletter : isPlainLetter c = false)
    (hdigit : Text.isDigit c = false) (t : Text) : IsSeam (some c) t := by
  intro d e hd _
  obtain rfl : c = d := Option.some.inj hd
  simp [hletter, hdigit]

private theorem isSeam_of_letter (hc : isPlainLetter c = true) (ht : StartsOpen t) :
    IsSeam (some c) t := by
  intro d e hd he
  obtain rfl : c = d := Option.some.inj hd
  simp [ht e he, isDigit_of_isPlainLetter hc]

private theorem isSeam_of_digit (hc : Text.isDigit c = true)
    (ht : ∀ d, t.head? = some d → Text.isDigit d = false) : IsSeam (some c) t := by
  intro d e hd he
  obtain rfl : c = d := Option.some.inj hd
  simp [ht e he, isPlainLetter_of_isDigit hc]

private theorem IsSeam.before_word (hseam : IsSeam before (w ++ t)) (hne : w ≠ []) (hw : IsWord w) :
    before.any isPlainLetter = false := by
  obtain ⟨c, w, rfl⟩ := List.exists_cons_of_ne_nil hne
  cases before with
  | none => rfl
  | some d => simpa [hw c (by simp)] using (hseam d c rfl rfl).1

private theorem IsSeam.before_digits (hseam : IsSeam before (ds ++ t)) (hne : ds ≠ [])
    (hds : ∀ c ∈ ds, Text.isDigit c = true) : before.any Text.isDigit = false := by
  obtain ⟨c, ds, rfl⟩ := List.exists_cons_of_ne_nil hne
  cases before with
  | none => rfl
  | some d => simpa [hds c (by simp)] using (hseam d c rfl rfl).2

private theorem Rewritten.replaceFrom (h : Rewritten t u) (hseam : IsSeam before t) :
    replaceFrom 0 before t = u := by
  -- the pass comes to the start of each piece, with a seam before it
  induction h generalizing before with
  | nil => rfl
  | @named name new t u h ht ih =>
    obtain ⟨hne, hletters, -⟩ := renames_text _ h
    have hnamed := replacementAt?_named h (hseam.before_word hne hletters) t
    rw [replaceFrom_of_some hnamed, ih (isSeam_of_other (by decide) (by decide) t)]
  | @word w t u hne hw hs hname ht ih =>
    have hcall : callAt? before (w ++ t) = none := callAt?_word hw hs hname before
    obtain ⟨c, w, rfl⟩ := List.exists_cons_of_ne_nil hne
    obtain ⟨d, hd, hrest⟩ := replaceFrom_word hw hcall
    rw [List.cons_append, hrest, ih (isSeam_of_letter hd hs)]
    rfl
  | @factorial ds t u hne hds ht ih =>
    have hfactorial := replacementAt?_factorial hds hne (hseam.before_digits hne hds) t
    rw [replaceFrom_of_some hfactorial, ih (isSeam_of_other (by decide) (by decide) t)]
    simp
  | @digits ds t u hne hds hs ht ih =>
    have hfactorial : factorialAt? before (ds ++ t) = none := factorialAt?_digits hds hs
    obtain ⟨c, ds, rfl⟩ := List.exists_cons_of_ne_nil hne
    obtain ⟨d, hd, hrest⟩ := replaceFrom_digits hds hfactorial
    rw [List.cons_append, hrest, ih (isSeam_of_digit hd fun e he => (hs e he).1)]
    rfl
  | @pi t u ht ih =>
    have hpi : replacementAt? before ([] ++ piLetter :: t) = some ([] ++ [piLetter], text "pi") :=
      replacementAt?_pi t
    have hstep := replaceFrom_of_some hpi
    rwa [ih (isSeam_of_other (by decide) (by decide) t)] at hstep
  | @other c t u hletter hdigit hpi ht ih =>
    rw [replaceFrom_of_none (replacementAt?_other hletter hdigit hpi t),
      ih (isSeam_of_other hletter hdigit t)]

end agreement

section survival

variable {a b : Text}

/-- The inverse and the hyperbolic functions. -/
def keptNames : List Text :=
  Keypad.trigonometricPairs.map (·.inverse) ++
    Keypad.hyperbolicPairs.flatMap fun p => [p.primary, p.inverse]

private theorem keptNames_spec : ∀ name ∈ keptNames, name ≠ [] ∧ IsWord name ∧ 3 < name.length := by
  unfold IsWord
  decide

private theorem renames_length : ∀ r ∈ renames, r.1.length ≤ 3 := by decide

/-- A text may be cut where no call is cut apart and the right side begins with neither a digit nor
an exclamation mark. -/
theorem radians_append (hcut : renamed (a ++ t) = renamed a ++ renamed t)
    (hstart : (renamed t).head? = some c) (hdigit : Text.isDigit c = false) (hbang : c ≠ '!') :
    normalize .radians (a ++ t) = normalize .radians a ++ normalize .radians t := by
  obtain ⟨s, hs⟩ := List.head?_eq_some_iff.mp hstart
  rw [radians_eq, hcut, hs, factorials_append hdigit hbang, ← factorials_cons hdigit, ← hs,
    nameConstants_append, radians_eq, radians_eq]

private theorem radians_append_named (ha : EndsOpen a) (h : (name, new) ∈ renames)
    (hstart : new.head? = some c) (hc : isPlainLetter c = true) (b : Text) :
    normalize .radians (a ++ (name ++ '(' :: b)) =
      normalize .radians a ++ (new ++ normalize .radians b) := by
  have hhead : (renamed (name ++ '(' :: b)).head? = some c := by
    rw [renamed_named h, List.head?_append, hstart]
    rfl
  have hbang : c ≠ '!' := ne_of_class hc (by decide)
  rw [radians_append (renamed_append ha _) hhead (isDigit_of_isPlainLetter hc) hbang,
    radians_named h]

/-- A name that is longer than those that are renamed is kept, whatever stands before it. -/
private theorem radians_append_kept (hword : IsWord name) (hlong : 3 < name.length) (a b : Text) :
    normalize .radians (a ++ (name ++ '(' :: b)) =
      normalize .radians a ++ (name ++ '(' :: normalize .radians b) := by
  have hkept : ∀ w, 3 < w.length → ∀ r ∈ renames, r.1 ≠ w := by
    rintro w hw r hr rfl
    exact absurd (renames_length r hr) (by omega)
  have hopen : StartsOpen ('(' :: b) := startsOpen_cons (by decide) b
  have hname : renamed (name ++ '(' :: b) = name ++ renamed ('(' :: b) :=
    renamed_word hword hopen fun _ => hkept name hlong
  have hcut : renamed (a ++ (name ++ '(' :: b)) = renamed a ++ renamed (name ++ '(' :: b) := by
    -- letters before the name only make it longer
    obtain ⟨a, w, rfl, ha, hw⟩ := exists_last_word a
    have hboth : IsWord (w ++ name) := fun d hd => (List.mem_append.mp hd).elim (hw d) (hword d)
    have hlong' : 3 < (w ++ name).length := by
      rw [List.length_append]
      omega
    have hjoined : renamed (w ++ name ++ '(' :: b) = w ++ name ++ renamed ('(' :: b) :=
      renamed_word hboth hopen fun _ => hkept _ hlong'
    simp only [List.append_assoc] at hjoined
    rw [List.append_assoc, renamed_append ha, renamed_append ha, hjoined, hname,
      renamed_of_no_call hw.not_mem_opening, List.append_assoc]
  obtain ⟨c, name, rfl⟩ := List.exists_cons_of_length_pos (show 0 < name.length by omega)
  have hc : isPlainLetter c = true := hword c (by simp)
  have hbang : c ≠ '!' := ne_of_class hc (by decide)
  have hhead : (renamed (c :: name ++ '(' :: b)).head? = some c := by
    rw [hname]
    rfl
  rw [radians_append hcut hhead (isDigit_of_isPlainLetter hc) hbang,
    radians_word hword hopen fun _ => hkept _ hlong, radians_cons (by decide) (by decide)]
  rfl

/-- In radians all steps together are one pass from left to right over the text as it was typed. A
logarithm that the other one has left its name to is not renamed again, and the inverse and the
hyperbolic functions keep their names. -/
theorem radians_at_once (a b t : Text) :
    normalize .radians t = replaceAtOnce t ∧
      (EndsOpen a → normalize .radians (a ++ (text "ln" ++ '(' :: b)) =
        normalize .radians a ++ (text "log(" ++ normalize .radians b)) ∧
      ∀ name ∈ keptNames, normalize .radians (a ++ (name ++ '(' :: b)) =
        normalize .radians a ++ (name ++ '(' :: normalize .radians b) := by
  refine ⟨?_, ?_, ?_⟩
  · exact ((rewritten t).replaceFrom (isSeam_none t)).symm
  · intro ha
    exact radians_append_named ha (by decide) (show (text "log(").head? = some 'l' from rfl)
      (by decide) b
  · intro name hname
    obtain ⟨-, hword, hlong⟩ := keptNames_spec name hname
    exact radians_append_kept hword hlong a b

theorem radians_at_once_beside_product :
    EndsOpen (text "3*") ∧ text "acot" ∈ keptNames ∧
      normalize .radians (text "3*ln(5!)") = text "3*log(factorial(5))" ∧
      normalize .radians (text "3*acot(5!)") = text "3*acot(factorial(5))" := by
  have hends : EndsOpen (text "3*") := by
    unfold EndsOpen
    decide
  have hname : text "acot" ∈ keptNames := by decide
  obtain ⟨-, hlogarithm, hkept⟩ := radians_at_once (text "3*") (text "5!)") []
  exact ⟨hends, hname, (hlogarithm hends).trans (by decide), (hkept _ hname).trans (by decide)⟩

example : replaceAtOnce (text "2cot(3!)+acot(ln(٣π!))") =
    text "21/tan(factorial(3))+acot(log(٣pi!))" := by decide

end survival

end DeskCalc.Notation
