import DeskCalc.Proofs.Evaluation.Results
import DeskCalc.Proofs.Notation.Composition

/-!
# Zeros before a number

Zeros written before the digits of a number change nothing but the expression that is recorded.
Every step to the formula carries the digits that stand before a number along, whatever they are: in
the number itself, in the factorial it belongs to and in the argument of a call that is converted
from degrees. Where a numeral may begin they are still where a numeral may begin, and there the
zeros are dropped.
-/

namespace DeskCalc

open Notation Evaluation

variable {a b s t x y zs name arg : Text} {c d : Char}

/-- Whether a numeral may begin right behind a text. -/
def EndsFree (t : Text) : Prop := ∀ c, t.getLast? = some c → Text.isDigit c = false ∧ c ≠ '.'

instance (t : Text) : Decidable (EndsFree t) :=
  inferInstanceAs (Decidable (∀ c, t.getLast? = some c → Text.isDigit c = false ∧ c ≠ '.'))

section ends

private theorem endsFree_nil : EndsFree [] := by decide

private theorem endsFree_concat : EndsFree (t ++ [c]) ↔ Text.isDigit c = false ∧ c ≠ '.' := by
  simp [EndsFree]

private theorem EndsFree.of_getLast? (ht : EndsFree t) (h : s.getLast? = t.getLast?) :
    EndsFree s := by
  intro c hc
  exact ht c (h ▸ hc)

private theorem EndsFree.radians (ha : EndsFree a) : EndsFree (normalize .radians a) := by
  have hrenamed : EndsFree (renamed a) := ha.of_getLast? (getLast?_renamed a)
  rcases List.eq_nil_or_concat (renamed a) with h | ⟨t, c, h⟩
  · rw [radians_eq, h]
    exact endsFree_nil
  · rw [List.concat_eq_append] at h
    rw [h, endsFree_concat] at hrenamed
    obtain ⟨w, d, hw, hd⟩ := factorialsFrom_concat [] t c
    have hfree : Text.isDigit d = false ∧ d ≠ '.' := by
      rcases hd with rfl | ⟨-, rfl⟩
      · exact hrenamed
      · decide
    rw [radians_eq, h, factorials, hw, nameConstants_append]
    by_cases hpi : d = piLetter
    · have hname : nameConstants [d] = ['p'] ++ ['i'] := by rw [hpi]; rfl
      rw [hname, ← List.append_assoc, endsFree_concat]
      decide
    · rw [nameConstants_cons hpi]
      exact endsFree_concat.mpr hfree

end ends

section carried

/-- A rewriting carries the digits before a number along, whatever they are, and leaves the numeral
where one may begin. -/
def Carries (rewrite : Text → Text) (a : Text) (d : Char) (b : Text) : Prop :=
  ∃ x y, EndsFree x ∧ ∀ zs, (∀ c ∈ zs, Text.isDigit c = true) →
    rewrite (a ++ (zs ++ d :: b)) = x ++ (zs ++ d :: y)

private theorem radians_append_digits (ha : EndsFree a) {ds : Text}
    (hds : ∀ c ∈ ds, Text.isDigit c = true) (hne : ds ≠ []) (t : Text) :
    normalize .radians (a ++ (ds ++ t)) = normalize .radians a ++ normalize .radians (ds ++ t) := by
  obtain ⟨c, ds, rfl⟩ := List.exists_cons_of_ne_nil hne
  have hc : Text.isDigit c = true := hds c (by simp)
  have hopening : c ≠ '(' := ne_of_class hc (by decide)
  have hlast : ∀ e, (renamed a).getLast? = some e → Text.isDigit e = false := by
    intro e he
    rw [getLast?_renamed] at he
    exact (ha e he).1
  have hletter := isPlainLetter_of_isDigit hc
  rw [List.cons_append, radians_eq, renamed_cut hletter hopening, factorials_cut hlast,
    nameConstants_append, ← renamed_cons hletter, radians_eq, radians_eq]

private theorem carries_radians (ha : EndsFree a) (hd : Text.isDigit d = true) (b : Text) :
    Carries (normalize .radians) a d b := by
  obtain ⟨ds, r, hcut, hne, hds, hr⟩ := exists_first_digits hd b
  obtain ⟨e, ds, rfl⟩ := List.exists_cons_of_ne_nil hne
  obtain ⟨rfl, hb⟩ := List.cons.inj hcut
  have hb' : b = ds ++ r := hb
  subst hb'
  have hall : ∀ zs, (∀ c ∈ zs, Text.isDigit c = true) →
      ∀ c ∈ zs ++ d :: ds, Text.isDigit c = true :=
    fun zs hzs c hc => (List.mem_append.mp hc).elim (hzs c) (hds c)
  have hseam : ∀ zs, (∀ c ∈ zs, Text.isDigit c = true) →
      normalize .radians (a ++ (zs ++ d :: (ds ++ r))) =
        normalize .radians a ++ normalize .radians (zs ++ d :: ds ++ r) := by
    intro zs hzs
    have happend := radians_append_digits ha (hall zs hzs) (by simp) r
    simp only [List.append_assoc, List.cons_append] at happend ⊢
    exact happend
  by_cases hbang : r.head? = some '!'
  · -- the number is that of a factorial, which becomes a call
    obtain ⟨r, rfl⟩ := List.head?_eq_some_iff.mp hbang
    refine ⟨normalize .radians a ++ text "factorial(", ds ++ ')' :: normalize .radians r, ?_, ?_⟩
    · have hlast : normalize .radians a ++ text "factorial(" =
          (normalize .radians a ++ text "factorial") ++ ['('] := by
        simp [text]
      rw [hlast]
      exact endsFree_concat.mpr (by decide)
    · intro zs hzs
      rw [hseam zs hzs, radians_factorial (hall zs hzs) (by simp)]
      simp
  · refine ⟨normalize .radians a, ds ++ normalize .radians r, ha.radians, ?_⟩
    intro zs hzs
    rw [hseam zs hzs, radians_digits (hall zs hzs) fun c hc => ⟨hr c hc, fun h => hbang (h ▸ hc)⟩]
    simp

private theorem closes_digits (hzs : ∀ c ∈ zs, Text.isDigit c = true) (hd : Text.isDigit d = true)
    (r y : Text) : Closes (r ++ (zs ++ d :: y)) ↔ Closes (r ++ d :: y) := by
  have hnone : ')' ∉ zs := not_mem_of_class hzs (by decide)
  have hd' : d ≠ ')' := ne_of_class hd (by decide)
  cases r with
  | nil =>
    cases zs with
    | nil => rfl
    | cons e zs =>
      simp only [List.mem_cons, not_or] at hnone
      simp [Closes, hd', hd'.symm, hnone.1, Ne.symm hnone.1, hnone.2]
  | cons e r => simp [Closes, hnone]

/-- The digits before a number belong to the same call or to none, whatever they are. -/
private theorem angleCall?_digits (hzs : ∀ c ∈ zs, Text.isDigit c = true)
    (hd : Text.isDigit d = true) (h : angleCall? (x ++ d :: y) = none) :
    angleCall? (x ++ (zs ++ d :: y)) = none := by
  rw [angleCall?_eq_none_iff]
  intro name hname v hv hclosed
  obtain ⟨e, r, he, hdigit⟩ : ∃ e r, zs ++ d :: y = e :: r ∧ Text.isDigit e = true := by
    cases zs with
    | nil => exact ⟨d, y, rfl, hd⟩
    | cons e zs => exact ⟨e, zs ++ d :: y, rfl, hzs e (by simp)⟩
  rw [he] at hv
  obtain ⟨s, rfl, rfl⟩ :=
    call_before_cut hname (isPlainLetter_of_isDigit hdigit) (ne_of_class hdigit (by decide)) hv
  rw [← he, closes_digits hzs hd] at hclosed
  refine angleCall?_eq_none_iff.mp h name hname (s ++ d :: y) ?_ hclosed
  simp

private theorem converted_digits (hzs : ∀ c ∈ zs, Text.isDigit c = true)
    (hd : Text.isDigit d = true) (ht : Converted false t s) (b : Bool) :
    Converted b (zs ++ d :: t) (zs ++ d :: s) :=
  converted_append (fun c hc => isPlainLetter_of_isDigit (hzs c hc))
    (converted_cons (isPlainLetter_of_isDigit hd) ht) b

/-- A call that begins before a number and is converted is closed before the number or holds it in
its argument. -/
private theorem angleCall?_at_digit (hd : Text.isDigit d = true)
    (h : angleCall? (x ++ d :: y) = some (name, arg)) :
    (∃ r, x = name ++ '(' :: (arg ++ ')' :: r)) ∨
      ∃ q w r, x = name ++ '(' :: q ∧ arg = q ++ d :: w ∧ y = w ++ ')' :: r := by
  obtain ⟨hname, -, -, r, hr⟩ := angleCall?_eq_some h
  have hclosing : d ≠ ')' := ne_of_class hd (by decide)
  obtain ⟨q, rfl, hv⟩ :=
    call_before_cut hname (isPlainLetter_of_isDigit hd) (ne_of_class hd (by decide)) hr
  rcases List.append_eq_append_iff.mp hv with ⟨w, rfl, hw⟩ | ⟨w, rfl, hw⟩
  · cases w with
    | nil => exact absurd (List.cons.inj hw).1.symm hclosing
    | cons e w =>
      obtain ⟨rfl, -⟩ := List.cons.inj hw
      exact .inl ⟨w, rfl⟩
  · cases w with
    | nil => exact absurd (List.cons.inj hw).1 hclosing
    | cons e w =>
      obtain ⟨rfl, hy⟩ := List.cons.inj hw
      exact .inr ⟨q, w, r, rfl, rfl, hy⟩

/-- Where a number stands, the conversion is the same for all digits before it, and the character
that it stands behind stays. -/
private theorem exists_converted (hd : Text.isDigit d = true) (b : Bool) (x y : Text) :
    ∃ x' y', x'.getLast? = x.getLast? ∧ ∀ zs, (∀ c ∈ zs, Text.isDigit c = true) →
      Converted b (x ++ (zs ++ d :: y)) (x' ++ (zs ++ d :: y')) := by
  cases x with
  | nil =>
    exact ⟨[], convertFrom 0 false y, rfl,
      fun zs hzs => converted_digits hzs hd (converted false y) b⟩
  | cons c x =>
    by_cases hcall : b = false → angleCall? (c :: (x ++ d :: y)) = none
    · obtain ⟨x', y', hlast, hx⟩ := exists_converted hd (isPlainLetter c) x y
      refine ⟨c :: x', y', ?_, ?_⟩
      · rw [List.getLast?_cons, List.getLast?_cons, hlast]
      · intro zs hzs
        exact .keep (fun hb => angleCall?_digits (x := c :: x) hzs hd (hcall hb)) (hx zs hzs)
    · push Not at hcall
      obtain ⟨rfl, hsome⟩ := hcall
      obtain ⟨⟨name, arg⟩, hpair⟩ := Option.ne_none_iff_exists'.mp hsome
      obtain ⟨hname, hne, harg, -⟩ := angleCall?_eq_some hpair
      rcases angleCall?_at_digit (x := c :: x) hd hpair with ⟨r, hr⟩ | ⟨q, w, r, hq, rfl, rfl⟩
      · -- the number comes after the call
        have hlength : r.length < (c :: x).length := by
          rw [hr]
          simp only [List.length_append, List.length_cons]
          omega
        obtain ⟨x', y', hlast, hx⟩ := exists_converted hd false r y
        rw [hr]
        refine ⟨name ++ '(' :: (arg ++ (text " * pi/180)" ++ x')), y', ?_, ?_⟩
        · simp [text, List.getLast?_append, List.getLast?_cons, hlast]
        · intro zs hzs
          simpa using Converted.call hname hne harg (hx zs hzs)
      · -- the factor is written behind the number
        refine ⟨name ++ '(' :: q, w ++ (text " * pi/180)" ++ convertFrom 0 false r), by rw [hq], ?_⟩
        intro zs hzs
        have hinside : ')' ∉ q ++ (zs ++ d :: w) := by
          simpa [not_mem_of_class (x := ')') hzs (by decide)] using harg
        rw [hq]
        simpa using Converted.call hname (by simp) hinside (converted false r)
termination_by x.length
decreasing_by
  · exact Nat.lt_add_one _
  · exact hlength

private theorem carries_normalize (unit : AngleUnit) (ha : EndsFree a) (hd : Text.isDigit d = true)
    (b : Text) : Carries (normalize unit) a d b := by
  obtain ⟨x, y, hx, hradians⟩ := carries_radians ha hd b
  cases unit with
  | radians => exact ⟨x, y, hx, hradians⟩
  | degrees =>
    obtain ⟨x', y', hlast, hconverted⟩ := exists_converted hd false x y
    refine ⟨x', y', hx.of_getLast? hlast, ?_⟩
    intro zs hzs
    rw [degrees_eq, hradians zs hzs, (hconverted zs hzs).eq]

end carried

section results

private theorem dropLeadingZeros_replicate (hd : Text.isDigit d = true) (k : Nat) (t : Text) :
    dropLeadingZeros true (List.replicate k '0' ++ d :: t) = dropLeadingZeros true (d :: t) := by
  induction k with
  | zero => rfl
  | succ k ih =>
    have hhead : (List.replicate k '0' ++ d :: t).head?.any Text.isDigit = true := by
      cases k with
      | zero => exact hd
      | succ k => rfl
    rw [List.replicate_succ, List.cons_append, dropLeadingZeros, if_pos ⟨rfl, rfl, hhead⟩, ih]

private theorem EndsFree.dropLeadingZeros_zeros (hx : EndsFree x) (hd : Text.isDigit d = true)
    (k : Nat) (t : Text) :
    dropLeadingZeros true (x ++ (List.replicate k '0' ++ d :: t)) =
      dropLeadingZeros true (x ++ d :: t) := by
  rcases List.eq_nil_or_concat x with rfl | ⟨x, e, rfl⟩
  · exact dropLeadingZeros_replicate hd k t
  · rw [List.concat_eq_append] at hx ⊢
    obtain ⟨he, hpoint⟩ := endsFree_concat.mp hx
    simp only [List.append_assoc, List.singleton_append]
    rw [dropLeadingZeros_append he, dropLeadingZeros_append he, decide_eq_true hpoint,
      dropLeadingZeros_replicate hd]

/-- Behind a point zeros count. -/
example : ¬EndsFree (text "2.") ∧ dropLeadingZeros true (text "2.005") = text "2.005" := by decide

private theorem Carries.tree?_zeros {rewrite : Text → Text} (h : Carries rewrite a d b)
    (hd : Text.isDigit d = true) (k : Nat) :
    tree? (rewrite (a ++ (List.replicate k '0' ++ d :: b))) = tree? (rewrite (a ++ d :: b)) := by
  obtain ⟨x, y, hx, hcarried⟩ := h
  have hzeros : ∀ c ∈ List.replicate k '0', Text.isDigit c = true := by
    intro c hc
    rw [List.eq_of_mem_replicate hc]
    decide
  have hplain := hcarried [] (by simp)
  rw [List.nil_append, List.nil_append] at hplain
  rw [hplain, hcarried _ hzeros, tree?, tree?, hx.dropLeadingZeros_zeros hd]

end results

namespace Answer

section run

variable [Stack]

/-- What holds a digit is evaluated as it stands, since it is not what the buffer shows
after a failure. -/
theorem run_of_digit (unit : AngleUnit) (limit : Int) (history : List DocText)
    (hd : Text.isDigit d = true) (ht : d ∈ t) :
    run unit limit history t = ofResult limit t history (result? (normalize unit t)) := by
  have hsentinel : ∀ c ∈ errorSentinel, Text.isDigit c = false := by decide
  have hexpression : expression t = t := by
    apply if_neg
    rintro rfl
    rw [hsentinel d ht] at hd
    exact absurd hd (by simp)
  simp only [run, runWith, hexpression]
  rfl

omit [Stack] in
/-- What is shown for a result does not depend on the expression that is recorded. -/
theorem ofResult_shown (limit : Int) (history : List DocText) (r : Option Text) (s t : Text) :
    (ofResult limit s history r).ok = (ofResult limit t history r).ok ∧
      (ofResult limit s history r).buffer = (ofResult limit t history r).buffer := by
  cases r with
  | none => exact ⟨rfl, rfl⟩
  | some shown => exact ⟨rfl, rfl⟩

/-- Zeros before a number do not change what the equals key shows, nor whether there is a result;
what is recorded is the expression with the zeros. -/
theorem run_leading_zeros (unit : AngleUnit) (limit : Int) (history : List DocText) (k : Nat)
    (ha : EndsFree a) (hd : Text.isDigit d = true) (b : Text) :
    let padded := a ++ (List.replicate k '0' ++ d :: b)
    let plain := run unit limit history (a ++ d :: b)
    (run unit limit history padded).buffer = plain.buffer ∧
      (run unit limit history padded).cursor = plain.cursor ∧
      (run unit limit history padded).ok = plain.ok ∧
      (run unit limit history padded).history =
        if plain.ok then History.record limit (.ofText padded) history else history := by
  intro padded plain
  have hplain : plain =
      ofResult limit (a ++ d :: b) history (result? (normalize unit (a ++ d :: b))) :=
    run_of_digit unit limit history hd (by simp)
  have hpadded : run unit limit history padded =
      ofResult limit padded history (result? (normalize unit (a ++ d :: b))) := by
    have htree := (carries_normalize unit ha hd b).tree?_zeros hd k
    rw [run_of_digit unit limit history hd (by simp [padded]), result?_congr htree]
  rw [hpadded, hplain]
  cases result? (normalize unit (a ++ d :: b)) with
  | none => exact ⟨rfl, rfl, rfl, rfl⟩
  | some shown => exact ⟨rfl, rfl, rfl, rfl⟩

end run

attribute [local instance] Stack.shallow

theorem run_leading_zeros_of_factorial :
    EndsFree (text "sin(") ∧ Text.isDigit '3' = true ∧
      (run .degrees 15 [] (text "sin(" ++ (List.replicate 2 '0' ++ '3' :: text "0!)+1"))).buffer =
        (run .degrees 15 [] (text "sin(" ++ '3' :: text "0!)+1")).buffer := by
  have ha : EndsFree (text "sin(") := by decide
  have hd : Text.isDigit '3' = true := by decide
  exact ⟨ha, hd, (run_leading_zeros .degrees 15 [] 2 ha hd (text "0!)+1")).1⟩

end Answer

end DeskCalc
