import DeskCalc.Proofs.Notation.Insertion

/-!
# Operators split an expression

The formula of two expressions with an operator between them is the operator between their formulas.
In degrees the left expression must leave no call open, since the argument of a call that is
converted goes on to the next closing parenthesis, across any operator.
-/

namespace DeskCalc.Notation

variable {a p t u v : Text} {x : Char} {b : Bool}

/-- Whether every opening parenthesis of a text is followed by a closing one, further on in it. -/
def ClosesAll (t : Text) : Prop := ∀ s ∈ t.tails, s.head? = some '(' → ')' ∈ s

instance (t : Text) : Decidable (ClosesAll t) :=
  inferInstanceAs (Decidable (∀ s ∈ t.tails, s.head? = some '(' → ')' ∈ s))

section closesAll

private theorem closesAll_cons : ClosesAll (x :: t) ↔ (x = '(' → ')' ∈ t) ∧ ClosesAll t := by
  rw [ClosesAll, List.tails, List.forall_mem_cons]
  refine and_congr ?_ Iff.rfl
  constructor
  · rintro h rfl
    rcases List.mem_cons.mp (h rfl) with h | h
    · exact absurd h (by decide)
    · exact h
  · intro h hx
    exact List.mem_cons_of_mem x (h (Option.some.inj hx))

private theorem closesAll_append (hp : '(' ∉ p) : ClosesAll (p ++ t) ↔ ClosesAll t := by
  induction p with
  | nil => rfl
  | cons c p ih =>
    simp only [List.mem_cons, not_or] at hp
    rw [List.cons_append, closesAll_cons, ih hp.2]
    exact and_iff_right fun hc => absurd hc.symm hp.1

private theorem ClosesAll.of_append (h : ClosesAll (p ++ t)) : ClosesAll t := by
  induction p with
  | nil => exact h
  | cons c p ih => exact ih (closesAll_cons.mp h).2

/-- Whether a text that replaces another one drops no closing parenthesis, and no opening one is
left without a closing one behind it. -/
structure KeepsClosed (t u : Text) : Prop where
  closing : ')' ∈ t → ')' ∈ u
  closesAll : ClosesAll t → ClosesAll u

private theorem KeepsClosed.cons (h : KeepsClosed t u) (x : Char) :
    KeepsClosed (x :: t) (x :: u) where
  closing hx := by
    rcases List.mem_cons.mp hx with rfl | ht
    · exact List.mem_cons_self
    · exact List.mem_cons_of_mem x (h.closing ht)
  closesAll hx := by
    obtain ⟨hopening, ht⟩ := closesAll_cons.mp hx
    exact closesAll_cons.mpr ⟨fun hx => h.closing (hopening hx), h.closesAll ht⟩

private theorem KeepsClosed.append (h : KeepsClosed t u) {q : Text} (hopening : '(' ∉ p)
    (hclosing : ')' ∉ p) (hq : '(' ∉ q) : KeepsClosed (p ++ t) (q ++ u) where
  closing hp := by
    apply List.mem_append_right
    exact h.closing ((List.mem_append.mp hp).resolve_left hclosing)
  closesAll hp := by
    rw [closesAll_append hq]
    exact h.closesAll ((closesAll_append hopening).mp hp)

private theorem renames_opening : ∀ r ∈ renames, '(' ∉ r.1 ∧ ')' ∉ r.1 ∧ '(' ∉ r.2.dropLast ∧
    r.2 = r.2.dropLast ++ ['('] := by decide

/-- Rewriting neither opens a parenthesis that it does not close nor drops a closing one. -/
theorem Rewritten.keepsClosed (h : Rewritten t u) : KeepsClosed t u := by
  induction h with
  | nil => exact ⟨id, id⟩
  | @named name new t u h _ ih =>
    obtain ⟨hopening, hclosing, hnew, hlast⟩ := renames_opening _ h
    have hcall := (ih.cons '(').append hopening hclosing hnew
    rw [List.append_cons new.dropLast, ← hlast] at hcall
    exact hcall
  | word hne hw _ _ _ ih =>
    have hopening := not_mem_of_class (x := '(') hw (by decide)
    exact ih.append hopening (not_mem_of_class hw (by decide)) hopening
  | @factorial ds t u hne hds _ ih =>
    have hopening := not_mem_of_class (x := '(') hds (by decide)
    refine ⟨fun _ => by simp, fun ht => ?_⟩
    have hbang : ClosesAll ('!' :: t) := (closesAll_append hopening).mp ht
    have hu : ClosesAll u := ih.closesAll (closesAll_cons.mp hbang).2
    have hcall : ClosesAll (text "factorial" ++ '(' :: (ds ++ ')' :: u)) := by
      rw [closesAll_append (by decide), closesAll_cons, closesAll_append hopening, closesAll_cons]
      exact ⟨fun _ => by simp, fun h => absurd h (by decide), hu⟩
    simpa [text] using hcall
  | digits hne hds _ _ ih =>
    have hopening := not_mem_of_class (x := '(') hds (by decide)
    exact ih.append hopening (not_mem_of_class hds (by decide)) hopening
  | pi _ ih => exact ih.append (p := [piLetter]) (by decide) (by decide) (by decide)
  | other _ _ _ _ ih => exact ih.cons _

end closesAll

section composition

/-- Where no call is left open a text may be cut before a character that is part of no call. -/
private theorem Converted.cut (h : Converted b a u) (ha : ClosesAll a)
    (hx : isPlainLetter x = false) (hopening : x ≠ '(') (ht : Converted false t v) :
    Converted b (a ++ x :: t) (u ++ x :: v) := by
  induction h with
  | nil => exact converted_cons hx ht _
  | @call name arg a u hname hne harg _ ih =>
    have hrest : ClosesAll a := by
      have h : ClosesAll ((name ++ '(' :: arg ++ [')']) ++ a) := by simpa using ha
      exact h.of_append
    simpa using Converted.call hname hne harg (ih hrest)
  | @keep b c a u hcall _ ih =>
    refine .keep (fun hb => ?_) (ih (closesAll_cons.mp ha).2)
    rw [angleCall?_eq_none_iff]
    intro name hname s hs hclosed
    -- such a call is opened before the cut, so it is closed before the cut
    obtain ⟨r, hr, rfl⟩ := call_before_cut (a := c :: a) hname hx hopening hs
    have hopened : ClosesAll ('(' :: r) := by
      rw [hr] at ha
      exact ha.of_append
    have hclosing : ')' ∈ r := (closesAll_cons.mp hopened).1 rfl
    refine angleCall?_eq_none_iff.mp (hcall hb) name hname r hr ⟨hclosing, ?_⟩
    obtain ⟨d, r, rfl⟩ := List.exists_cons_of_ne_nil (List.ne_nil_of_mem hclosing)
    exact hclosed.2

private theorem operators_spec {op : Char} (hop : [op] ∈ Keypad.binaryOperators) :
    isPlainLetter op = false ∧ Text.isDigit op = false ∧ op ≠ '(' ∧ op ≠ '!' ∧ op ≠ piLetter := by
  have hall : ∀ t ∈ Keypad.binaryOperators, ∀ c ∈ t, isPlainLetter c = false ∧
      Text.isDigit c = false ∧ c ≠ '(' ∧ c ≠ '!' ∧ c ≠ piLetter := by
    decide
  exact hall _ hop op (by simp)

private theorem radians_operator {op : Char} (hop : [op] ∈ Keypad.binaryOperators) (a b : Text) :
    normalize .radians (a ++ op :: b) = normalize .radians a ++ op :: normalize .radians b := by
  obtain ⟨hletter, hdigit, hopening, hbang, hpi⟩ := operators_spec hop
  have hcut : renamed (a ++ op :: b) = renamed a ++ renamed (op :: b) := by
    rw [renamed_cut hletter hopening, renamed_cons hletter]
  have hstart : (renamed (op :: b)).head? = some op := by
    rw [renamed_cons hletter]
    rfl
  rw [radians_append hcut hstart hdigit hbang, radians_cons hletter hdigit, nameConstants_cons hpi]
  rfl

/-- The formula of an operator between two expressions, the first of which leaves no call open if
angles are in degrees. -/
theorem normalize_operator (unit : AngleUnit) {op : Char} (hop : [op] ∈ Keypad.binaryOperators)
    (a b : Text) (ha : unit = .degrees → ClosesAll a) :
    normalize unit (a ++ op :: b) = normalize unit a ++ op :: normalize unit b := by
  cases unit with
  | radians => exact radians_operator hop a b
  | degrees =>
    obtain ⟨hletter, -, hopening, -⟩ := operators_spec hop
    have hclosed : ClosesAll (normalize .radians a) := (rewritten a).keepsClosed.closesAll (ha rfl)
    have hcut := (converted false (normalize .radians a)).cut hclosed hletter hopening
      (converted false (normalize .radians b))
    rw [degrees_eq, degrees_eq, degrees_eq, radians_operator hop, hcut.eq]

theorem normalize_operator_between_calls :
    [('+' : Char)] ∈ Keypad.binaryOperators ∧ ClosesAll (text "cot(sin(3!))") ∧
      normalize .degrees (text "cot(sin(3!))+cos(60)") =
        normalize .degrees (text "cot(sin(3!))") ++ '+' :: normalize .degrees (text "cos(60)") := by
  have hop : [('+' : Char)] ∈ Keypad.binaryOperators := by decide
  have hclosed : ClosesAll (text "cot(sin(3!))") := by decide
  exact ⟨hop, hclosed, normalize_operator .degrees hop _ (text "cos(60)") fun _ => hclosed⟩

/-- An open call reaches across the operator. -/
example : normalize .degrees (text "sin(1+2)") ≠
    normalize .degrees (text "sin(1") ++ '+' :: normalize .degrees (text "2)") := by decide

end composition

end DeskCalc.Notation
