import DeskCalc.Proofs.Notation.Keypad
import Mathlib.Data.List.TakeWhile

/-!
# Angles in texts

Where no name of an angle function can begin, the rewriting from degrees changes nothing.
Neither a text of arithmetic nor the calls that its factorials become hold two letters that
begin such a name. In the call of an angle function the factor of radians is written before the
first closing parenthesis.
-/

namespace DeskCalc.Notation

/-- Whether two characters do not begin the name of an angle function. -/
def StartsNoAngle (c d : Char) : Prop := (c, d) ∉ [('s', 'i'), ('c', 'o'), ('t', 'a')]

theorem angleFunctions_eq :
    angleFunctions = [['s', 'i', 'n'], ['c', 'o', 's'], ['t', 'a', 'n']] := rfl

private theorem angleCall?_of_startsNoAngle {c d : Char} (h : StartsNoAngle c d) (t : Text) :
    angleCall? (c :: d :: t) = none := by
  simp only [StartsNoAngle, List.mem_cons, Prod.mk.injEq, List.not_mem_nil, or_false, not_or,
    not_and] at h
  simp only [angleCall?, angleFunctions_eq, List.findSome?_eq_none_iff]
  intro name hname
  have hstart : (name ++ ['(']).isPrefixOf (c :: d :: t) = false := by
    rw [Bool.eq_false_iff]
    intro hstart
    simp only [List.mem_cons, List.not_mem_nil, or_false] at hname
    rcases hname with rfl | rfl | rfl <;>
      simp only [List.cons_append, List.isPrefixOf, Bool.and_eq_true, beq_iff_eq] at hstart <;>
      obtain ⟨rfl, rfl, -⟩ := hstart <;> simp at h
  simp [hstart]

private theorem angleCall?_singleton (c : Char) : angleCall? [c] = none := by
  simp [angleCall?, angleFunctions_eq]

private theorem convertFrom_eq {t : Text} (ht : ∀ s, s <:+ t → angleCall? s = none)
    (afterLetter : Bool) : convertFrom 0 afterLetter t = t := by
  induction t generalizing afterLetter with
  | nil => rfl
  | cons c t ih =>
    simp only [convertFrom, ht _ (List.suffix_refl _), ite_self]
    rw [ih fun s hs => ht s (hs.trans (List.suffix_cons c t))]

theorem convertFrom_of_chain {t : Text} (ht : t.IsChain StartsNoAngle) (afterLetter : Bool) :
    convertFrom 0 afterLetter t = t := by
  refine convertFrom_eq (fun s hs => ?_) afterLetter
  have hchain := ht.suffix hs
  match s with
  | [] => rfl
  | [c] => exact angleCall?_singleton c
  | c :: d :: s => exact angleCall?_of_startsNoAngle (List.isChain_cons_cons.mp hchain).1 s

/-- A character that begins no name may stand before anything. -/
theorem chain_append {s t : Text} (hs : ∀ c ∈ s, c ∉ ['s', 'c', 't'])
    (ht : t.IsChain StartsNoAngle) : (s ++ t).IsChain StartsNoAngle := by
  induction s with
  | nil => exact ht
  | cons c s ih =>
    have htail := ih fun d hd => hs d (by simp [hd])
    have hc := hs c (by simp)
    rw [List.cons_append]
    cases hst : s ++ t with
    | nil => exact List.isChain_singleton c
    | cons d r =>
      rw [hst] at htail
      refine List.isChain_cons_cons.mpr ⟨?_, htail⟩
      simp only [List.mem_cons, List.not_mem_nil, or_false, not_or] at hc
      simp [StartsNoAngle, hc]

private theorem factorialsFrom_chain {run t : Text} (hrun : ∀ c ∈ run, c ∉ ['s', 'c', 't'])
    (ht : ∀ c ∈ t, c ∉ ['s', 'c', 't']) : (factorialsFrom run t).IsChain StartsNoAngle := by
  induction t generalizing run with
  | nil =>
    have h := chain_append (s := run.reverse) (t := []) (by simpa using hrun) List.isChain_nil
    simpa [factorialsFrom] using h
  | cons c t ih =>
    have hc := ht c (by simp)
    have ht' : ∀ d ∈ t, d ∉ ['s', 'c', 't'] := fun d hd => ht d (by simp [hd])
    have hrest : (factorialsFrom [] t).IsChain StartsNoAngle := ih (by simp) ht'
    simp only [factorialsFrom]
    split
    · exact ih (by simpa using ⟨by simpa using hc, by simpa using hrun⟩) ht'
    · split
      · have harg : ('(' :: run.reverse ++ [')'] ++ factorialsFrom [] t).IsChain StartsNoAngle := by
          refine chain_append (fun d hd => ?_) hrest
          simp only [List.cons_append, List.mem_cons, List.mem_append, List.mem_reverse,
            List.not_mem_nil, or_false] at hd
          rcases hd with rfl | hd | rfl
          · decide
          · exact hrun d hd
          · decide
        have hcall : text "factorial(" ++ run.reverse ++ ')' :: factorialsFrom [] t =
            'f' :: 'a' :: 'c' :: 't' :: 'o' :: 'r' :: 'i' :: 'a' :: 'l' ::
              ('(' :: run.reverse ++ [')'] ++ factorialsFrom [] t) := by
          simp [text]
        rw [hcall]
        simpa [List.isChain_cons_cons, StartsNoAngle] using harg
      · rw [← List.singleton_append, ← List.append_assoc]
        refine chain_append ?_ hrest
        intro d hd
        rcases List.mem_append.mp hd with h | h
        · exact hrun d (by simpa using h)
        · exact List.mem_singleton.mp h ▸ hc

private theorem factorials_chain {t : Text} (ht : ∀ c ∈ t, c ∉ ['s', 'c', 't']) :
    (factorials t).IsChain StartsNoAngle := factorialsFrom_chain (by simp) ht

/-- The letters that begin the names that are rewritten. -/
def nameLetters : List Char := ['c', 's', 'l', 't', piLetter]

/-- Where no name can begin, nothing but factorials is rewritten. -/
theorem normalize_of_no_name {t : Text} (ht : ∀ c ∈ t, c ∉ nameLetters) (unit : AngleUnit) :
    normalize unit t = factorials t := by
  have hletters : ∀ r ∈ renames, r.1.head?.any (· ∈ nameLetters) = true := by decide
  have hrename : ∀ r ∈ renames, rename r.1 r.2 t = t := by
    intro r hr
    obtain ⟨n, hn, hmem⟩ := (Option.any_eq_true _ _).mp (hletters r hr)
    rw [← List.cons_head?_tail hn]
    exact renameFrom_of_no_name (fun h => ht n h (of_decide_eq_true hmem)) false
  have hpi : piLetter ∉ factorials t := by
    intro h
    rcases mem_factorials h with h | h
    · exact ht _ h (by decide)
    · exact absurd h (by decide)
  have hangle : ∀ c ∈ t, c ∉ ['s', 'c', 't'] := by
    intro c hc h
    have hall : ∀ d ∈ ['s', 'c', 't'], d ∈ nameLetters := by decide
    exact ht c hc (hall c h)
  simp only [normalize, foldl_rename_eq hrename, nameConstants_eq hpi]
  cases unit with
  | degrees => exact convertFrom_of_chain (factorials_chain hangle) false
  | radians => rfl

section texts

variable {name t : Text}

theorem angleFunctions_spec : ∀ name ∈ angleFunctions,
    (∀ r ∈ renames, rename r.1 r.2 (name ++ ['(']) = name ++ ['('] ∧
      ∀ c ∈ r.1, isPlainLetter c = true) ∧
    factorials name = name ∧ nameConstants name = name ∧
      Evaluation.dropLeadingZeros true name = name ∧ IsFormulaText name := by
  decide

theorem argument?_closing (ht : ')' ∉ t) (hne : t ≠ []) (r : Text) :
    argument? (t ++ ')' :: r) = some t := by
  have hall : ∀ c ∈ t, decide (c ≠ ')') = true := by
    intro c hc
    rw [decide_eq_true_eq]
    rintro rfl
    exact ht hc
  rw [argument?, Token.takeWhile_append_stop (by decide), Token.dropWhile_append_stop (by decide),
    List.takeWhile_eq_self_iff.mpr hall, List.dropWhile_eq_nil_iff.mpr hall]
  cases t with
  | nil => exact absurd rfl hne
  | cons c t => rfl

theorem angleCall?_call (hname : name ∈ angleFunctions) (ht : ')' ∉ t) (hne : t ≠ []) (r : Text) :
    angleCall? (name ++ '(' :: (t ++ ')' :: r)) = some (name, t) := by
  have hargument := argument?_closing ht hne r
  simp only [angleFunctions_eq, List.mem_cons, List.not_mem_nil, or_false] at hname
  rcases hname with rfl | rfl | rfl <;>
    simp [angleCall?, angleFunctions_eq, hargument]

private theorem convertFrom_skip (s : Text) (c : Char) (r : Text) (afterLetter : Bool) :
    convertFrom (s.length + 1) afterLetter (s ++ c :: r) = convertFrom 0 (isPlainLetter c) r := by
  induction s generalizing afterLetter with
  | nil => rfl
  | cons d s ih => exact ih (isPlainLetter d)

/-- The factor of radians is written before the first closing parenthesis. -/
theorem convertDegrees_call (hname : name ∈ angleFunctions) (ht : ')' ∉ t) (hne : t ≠ [])
    (r : Text) :
    convertDegrees (name ++ '(' :: (t ++ ')' :: r)) =
      name ++ '(' :: (t ++ (text " * pi/180)" ++ convertFrom 0 false r)) := by
  have hcall := angleCall?_call hname ht hne r
  cases name with
  | nil => exact absurd hname (by decide)
  | cons n name =>
    have hskip := convertFrom_skip (name ++ '(' :: t) ')' r (isPlainLetter n)
    have hlength : (n :: name).length + t.length + 1 = (name ++ '(' :: t).length + 1 := by
      simp
      omega
    rw [convertDegrees, List.cons_append, convertFrom]
    simp only [List.cons_append] at hcall
    simp only [hcall, Bool.false_eq_true, if_false, hlength]
    rw [show name ++ '(' :: (t ++ ')' :: r) = (name ++ '(' :: t) ++ ')' :: r by simp, hskip]
    simp [show isPlainLetter ')' = false from rfl]

end texts

section calls

end calls

end DeskCalc.Notation
