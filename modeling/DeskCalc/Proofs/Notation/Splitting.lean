import DeskCalc.Evaluation
import DeskCalc.Notation
import Mathlib.Data.List.Basic
import Mathlib.Data.List.Chain

/-!
# Rewriting texts put together

Every step from keypad notation to a formula works on names and digit runs. A character that belongs
to neither splits a text: the two sides are rewritten each for itself.
-/

namespace DeskCalc.Notation

section rename

variable {name new : Text}

/-- Whether no letter stands at the end of a text, so that a name may begin right after it. -/
def EndsOpen (t : Text) : Prop := ∀ c, t.getLast? = some c → isPlainLetter c = false

theorem EndsOpen.tail {c : Char} {t : Text} (h : EndsOpen (c :: t)) : EndsOpen t := by
  intro d hd
  refine h d ?_
  cases t with
  | nil => simp at hd
  | cons e t => simpa using hd

theorem endsOpen_append_singleton {x : Char} (hx : isPlainLetter x = false) (t : Text) :
    EndsOpen (t ++ [x]) := by
  intro c hc
  rw [List.getLast?_append, List.getLast?_singleton, Option.some_or, Option.some.injEq] at hc
  exact hc ▸ hx

private theorem isPrefixOf_append (hname : ∀ c ∈ name, isPlainLetter c = true) {a : Text}
    (ha : EndsOpen a) (hne : a ≠ []) (b : Text) :
    (name ++ ['(']).isPrefixOf (a ++ b) = (name ++ ['(']).isPrefixOf a := by
  induction name generalizing a with
  | nil =>
    cases a with
    | nil => simp at hne
    | cons c a => simp [List.isPrefixOf]
  | cons n name ih =>
    have hname' : ∀ c ∈ name, isPlainLetter c = true := fun c hc => hname c (by simp [hc])
    cases a with
    | nil => simp at hne
    | cons c a =>
      simp only [List.cons_append, List.isPrefixOf]
      by_cases hcn : n = c
      · have ha' : a ≠ [] := by
          rintro rfl
          have hletter := hname n (by simp)
          rw [hcn, ha c (by simp)] at hletter
          exact absurd hletter (by simp)
        rw [ih hname' ha.tail ha']
      · have hbeq : (n == c) = false := beq_eq_false_iff_ne.mpr hcn
        rw [hbeq, Bool.false_and, Bool.false_and]

private theorem renameFrom_append (hname : ∀ c ∈ name, isPlainLetter c = true) {a : Text}
    (ha : EndsOpen a) (b : Text) {skip : Nat} (hskip : skip ≤ a.length) (afterLetter : Bool)
    (hletter : a = [] → afterLetter = false) :
    renameFrom name new skip afterLetter (a ++ b) =
      renameFrom name new skip afterLetter a ++ renameFrom name new 0 false b := by
  induction a generalizing skip afterLetter with
  | nil =>
    simp only [List.length_nil, Nat.le_zero] at hskip
    simp [hskip, hletter rfl, renameFrom]
  | cons c a ih =>
    have hlast : a = [] → isPlainLetter c = false := by
      rintro rfl
      exact ha c (by simp)
    cases skip with
    | succ k =>
      have hk : k ≤ a.length := by simpa using hskip
      simp only [List.cons_append, renameFrom]
      exact ih ha.tail hk _ hlast
    | zero =>
      have hstart := isPrefixOf_append hname ha (by simp) b
      rw [List.cons_append] at hstart
      simp only [List.cons_append, renameFrom, hstart]
      split
      · next h =>
        have hle : name.length ≤ a.length := by
          simp only [Bool.and_eq_true, List.isPrefixOf_iff_prefix] at h
          simpa using h.2.length_le
        rw [ih ha.tail hle _ hlast, List.append_assoc]
      · rw [ih ha.tail (Nat.zero_le _) _ hlast, List.cons_append]

theorem rename_append (hname : ∀ c ∈ name, isPlainLetter c = true) {a : Text} (ha : EndsOpen a)
    (b : Text) : rename name new (a ++ b) = rename name new a ++ rename name new b :=
  renameFrom_append hname ha b (Nat.zero_le _) false fun _ => rfl

/-- Text without parentheses has no calls to be rewritten. -/
theorem renameFrom_of_no_call {t : Text} (ht : '(' ∉ t) (afterLetter : Bool) :
    renameFrom name new 0 afterLetter t = t := by
  induction t generalizing afterLetter with
  | nil => rfl
  | cons c t ih =>
    have hstart : (name ++ ['(']).isPrefixOf (c :: t) = false := by
      rw [Bool.eq_false_iff]
      intro h
      rw [List.isPrefixOf_iff_prefix] at h
      exact ht (h.subset (by simp))
    simp only [renameFrom, hstart, Bool.and_false, Bool.false_eq_true, if_false]
    rw [ih (fun h => ht (List.mem_cons_of_mem c h))]

theorem rename_of_no_call {t : Text} (ht : '(' ∉ t) : rename name new t = t :=
  renameFrom_of_no_call ht false

/-- Text in which a name cannot begin has no calls to be rewritten. -/
theorem renameFrom_of_no_name {n : Char} {t : Text} (ht : n ∉ t) (afterLetter : Bool) :
    renameFrom (n :: name) new 0 afterLetter t = t := by
  induction t generalizing afterLetter with
  | nil => rfl
  | cons c t ih =>
    have hne : n ≠ c := fun h => ht (h ▸ List.mem_cons_self)
    have hstart : (n :: name ++ ['(']).isPrefixOf (c :: t) = false := by
      simp [List.isPrefixOf, hne]
    simp only [renameFrom, hstart, Bool.and_false, Bool.false_eq_true, if_false]
    rw [ih (fun h => ht (List.mem_cons_of_mem c h))]

end rename

section factorials

private theorem factorialsFrom_append {x : Char} (hx : Text.isDigit x = false) (hbang : x ≠ '!')
    (run a b : Text) :
    factorialsFrom run (a ++ x :: b) = factorialsFrom run a ++ x :: factorialsFrom [] b := by
  induction a generalizing run with
  | nil => simp [factorialsFrom, hx, hbang]
  | cons c a ih =>
    simp only [List.cons_append, factorialsFrom]
    split
    · exact ih _
    · split
      · simp [ih]
      · simp [ih]

theorem factorials_append {x : Char} (hx : Text.isDigit x = false) (hbang : x ≠ '!') (a b : Text) :
    factorials (a ++ x :: b) = factorials a ++ x :: factorials b :=
  factorialsFrom_append hx hbang [] a b

theorem factorialsFrom_digits {ds : Text} (hds : ∀ c ∈ ds, Text.isDigit c = true) (run t : Text) :
    factorialsFrom run (ds ++ t) = factorialsFrom (ds.reverse ++ run) t := by
  induction ds generalizing run with
  | nil => rfl
  | cons d ds ih =>
    have hd := hds d (by simp)
    simp only [List.cons_append, factorialsFrom, hd, if_true]
    rw [ih fun c hc => hds c (by simp [hc])]
    simp

theorem factorials_digits {ds : Text} (hds : ∀ c ∈ ds, Text.isDigit c = true) :
    factorials ds = ds := by
  have h := factorialsFrom_digits hds [] []
  simpa [factorials, factorialsFrom] using h

theorem factorials_bang {ds : Text} (hds : ∀ c ∈ ds, Text.isDigit c = true) (hne : ds ≠ []) :
    factorials (ds ++ ['!']) = text "factorial(" ++ ds ++ [')'] := by
  have hbang : Text.isDigit '!' = false := by decide
  have h := factorialsFrom_digits hds [] ['!']
  simp only [List.append_nil] at h
  simp [factorials, h, factorialsFrom, hbang, hne]

private theorem mem_factorialsFrom {c : Char} {run t : Text} (h : c ∈ factorialsFrom run t) :
    c ∈ run ∨ c ∈ t ∨ c ∈ text "factorial()" := by
  induction t generalizing run with
  | nil => exact .inl (by simpa [factorialsFrom] using h)
  | cons d t ih =>
    simp only [factorialsFrom] at h
    split at h
    · rcases ih h with h | h | h
      · rcases List.mem_cons.mp h with rfl | h
        · exact .inr (.inl (by simp))
        · exact .inl h
      · exact .inr (.inl (by simp [h]))
      · exact .inr (.inr h)
    · split at h
      · simp only [List.mem_append, List.mem_cons, List.mem_reverse] at h
        rcases h with (h | h) | h | h
        · exact .inr (.inr (List.mem_append_left [')'] h))
        · exact .inl h
        · exact .inr (.inr (by simp [h, text]))
        · rcases ih h with h | h | h
          · simp at h
          · exact .inr (.inl (by simp [h]))
          · exact .inr (.inr h)
      · simp only [List.mem_append, List.mem_cons, List.mem_reverse] at h
        rcases h with h | rfl | h
        · exact .inl h
        · exact .inr (.inl (by simp))
        · rcases ih h with h | h | h
          · simp at h
          · exact .inr (.inl (by simp [h]))
          · exact .inr (.inr h)

theorem mem_factorials {c : Char} {t : Text} (h : c ∈ factorials t) :
    c ∈ t ∨ c ∈ text "factorial()" := by
  rcases mem_factorialsFrom h with h | h
  · simp at h
  · exact h

end factorials

section nameConstants

variable {t : Text}

theorem nameConstants_append (s t : Text) :
    nameConstants (s ++ t) = nameConstants s ++ nameConstants t := List.flatMap_append

theorem nameConstants_cons {c : Char} (hc : c ≠ piLetter) (t : Text) :
    nameConstants (c :: t) = c :: nameConstants t := by
  rw [nameConstants, List.flatMap_cons, if_neg hc]
  rfl

theorem nameConstants_eq (ht : piLetter ∉ t) : nameConstants t = t := by
  induction t with
  | nil => rfl
  | cons c t ih =>
    simp only [List.mem_cons, not_or] at ht
    rw [nameConstants_cons (Ne.symm ht.1), ih ht.2]

theorem isDigit_piLetter : Text.isDigit piLetter = false := by decide

theorem nameConstants_digits (ht : ∀ c ∈ t, Text.isDigit c = true) : nameConstants t = t := by
  refine nameConstants_eq fun h => ?_
  have hdigit := ht _ h
  rw [isDigit_piLetter] at hdigit
  exact absurd hdigit (by simp)

end nameConstants

end DeskCalc.Notation

namespace DeskCalc.Evaluation

theorem dropLeadingZeros_append {x : Char} (hx : Text.isDigit x = false) (free : Bool)
    (a b : Text) :
    dropLeadingZeros free (a ++ x :: b) =
      dropLeadingZeros free a ++ x :: dropLeadingZeros (x ≠ '.') b := by
  have hzero : x ≠ '0' := by
    rintro rfl
    exact absurd hx (by decide)
  induction a generalizing free with
  | nil =>
    rw [List.nil_append, dropLeadingZeros, dropLeadingZeros]
    simp [hzero, hx]
  | cons c a ih =>
    have hhead : (a ++ x :: b).head?.any Text.isDigit = a.head?.any Text.isDigit := by
      cases a with
      | nil => simp [hx]
      | cons d a => simp
    rw [List.cons_append, dropLeadingZeros, dropLeadingZeros, hhead]
    split
    · exact ih _
    · rw [ih, List.cons_append]

theorem dropLeadingZeros_digits {ds : Text} (hds : ∀ c ∈ ds, Text.isDigit c = true) :
    dropLeadingZeros false ds = ds := by
  induction ds with
  | nil => rfl
  | cons d ds ih =>
    have hd := hds d (by simp)
    have htail := ih fun c hc => hds c (by simp [hc])
    simp [dropLeadingZeros, hd, htail]

theorem mem_dropLeadingZeros {c : Char} {free : Bool} {t : Text}
    (h : c ∈ dropLeadingZeros free t) : c ∈ t := by
  induction t generalizing free with
  | nil => simp [dropLeadingZeros] at h
  | cons d t ih =>
    simp only [dropLeadingZeros] at h
    split at h
    · exact List.mem_cons_of_mem d (ih h)
    · rcases List.mem_cons.mp h with rfl | h
      · simp
      · exact List.mem_cons_of_mem d (ih h)

end DeskCalc.Evaluation
