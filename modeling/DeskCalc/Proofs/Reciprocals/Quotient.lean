import DeskCalc.Proofs.Formula.Splice

/-!
# Quotients of one in a formula

A quotient of one and a call binds what stands around it as a group of its own would if a term
begins with it, at the start or after a sign between two operands, and neither a power nor a
factorial follows.
-/

namespace DeskCalc.Formula

section elements

variable {es ms : List Element} {a c x : Tree}

/-- Whether a term may begin right after the given elements. -/
def BeginsTerm (es : List Element) : Prop :=
  es = [] ∨ ∃ fs y s, es = fs ++ [.operand y, .op s] ∧ (s = .plus ∨ s = .minus)

end elements

section items

/-- Whether an operand can end with an item. -/
def Item.isOperand : Item → Bool
  | .operand _ | .group _ | .name _ => true
  | _ => false

private theorem eq_nil_or_getLast? {i j : Item} {rest : List Item}
    (h : (j :: rest).getLast? = some i) : rest = [] ∨ rest.getLast? = some i := by
  by_cases hne : rest = []
  · exact .inl hne
  · rw [List.getLast?_cons_of_ne_nil hne] at h
    exact .inr h

/-- The first elements, up to an operand, may be all of them; otherwise the others decide how they
end. -/
private theorem ends_operand_append {rest : List Item} {i : Item} {gs : List Element}
    (front : List Element) (x : Tree)
    (ih : ∀ es, elements? rest = some es → rest.getLast? = some i →
      ∃ fs y, es = fs ++ [.operand y])
    (hgs : elements? rest = some gs) (hrest : rest = [] ∨ rest.getLast? = some i) :
    ∃ fs y, front ++ .operand x :: gs = fs ++ [.operand y] := by
  rcases hrest with rfl | hrest
  · simp only [elements?, Option.some.injEq] at hgs
    exact ⟨front, x, by rw [← hgs]⟩
  · obtain ⟨fs, y, rfl⟩ := ih gs hgs hrest
    exact ⟨front ++ .operand x :: fs, y, by simp⟩

private theorem elements?_operand {is : List Item} {es : List Element} {i : Item}
    (h : elements? is = some es) (hi : is.getLast? = some i) (hoperand : i.isOperand = true) :
    ∃ fs x, es = fs ++ [.operand x] := by
  fun_induction elements? is generalizing es with
  | case1 => simp at hi
  | case2 rest ih =>
    rcases eq_nil_or_getLast? hi with rfl | hi
    · simp only [List.getLast?_singleton, Option.some.injEq] at hi
      rw [← hi] at hoperand
      simp [Item.isOperand] at hoperand
    · exact ih h hi
  | case3 x rest ih =>
    simp only [Option.map_eq_some_iff] at h
    obtain ⟨gs, hgs, rfl⟩ := h
    exact ends_operand_append [] x (fun _ => ih) hgs (eq_nil_or_getLast? hi)
  | case4 f g rest ih =>
    simp only [Option.bind_eq_bind, Option.pure_def, Option.bind_eq_some_iff,
      Option.some.injEq] at h
    obtain ⟨x, -, gs, hgs, rfl⟩ := h
    rw [List.getLast?_cons_of_ne_nil (by simp)] at hi
    exact ends_operand_append [] x (fun _ => ih) hgs (eq_nil_or_getLast? hi)
  | case5 c rest ih =>
    simp only [Option.map_eq_some_iff] at h
    obtain ⟨gs, hgs, rfl⟩ := h
    exact ends_operand_append [] _ (fun _ => ih) hgs (eq_nil_or_getLast? hi)
  | case6 s g rest ih =>
    simp only [Option.bind_eq_bind, Option.pure_def, Option.bind_eq_some_iff,
      Option.some.injEq] at h
    obtain ⟨x, -, gs, hgs, rfl⟩ := h
    rw [List.getLast?_cons_of_ne_nil (by simp)] at hi
    exact ends_operand_append [.operand (.symbol s)] x (fun _ => ih) hgs (eq_nil_or_getLast? hi)
  | case7 g rest ih =>
    simp only [Option.bind_eq_bind, Option.pure_def, Option.bind_eq_some_iff,
      Option.some.injEq] at h
    obtain ⟨x, -, gs, hgs, rfl⟩ := h
    exact ends_operand_append [] x (fun _ => ih) hgs (eq_nil_or_getLast? hi)
  | case8 o rest ih =>
    simp only [Option.map_eq_some_iff] at h
    obtain ⟨gs, hgs, rfl⟩ := h
    rcases eq_nil_or_getLast? hi with rfl | hi
    · simp only [List.getLast?_singleton, Option.some.injEq] at hi
      rw [← hi] at hoperand
      simp [Item.isOperand] at hoperand
    · obtain ⟨fs, y, rfl⟩ := ih hgs hi
      exact ⟨.op o :: fs, y, rfl⟩
  | case9 => simp at h
  | case10 => simp at h
  | case11 => simp at h

/-- Whether a term may begin right after the given items, last first. -/
def TermMayFollow (before : List Nested) : Prop :=
  before = [] ∨ ∃ s d i earlier, before = ⟨.op s, d⟩ :: i :: earlier ∧ (s = .plus ∨ s = .minus) ∧
    (Nested.item i).isOperand = true

private theorem TermMayFollow.elements {before : List Nested} (h : TermMayFollow before) :
    ∃ front : Option (List Element), (∀ js, elements? (before.reverse.map (·.item) ++ js) =
        front.bind fun es => (elements? js).map (es ++ ·)) ∧
      ∀ es, front = some es → BeginsTerm es := by
  obtain rfl | ⟨s, d, i, earlier, rfl, hs, hi⟩ := h
  · refine ⟨some [], fun js => ?_, ?_⟩
    · simp
    · rintro es ⟨rfl⟩
      exact .inl rfl
  · refine ⟨(elements? ((i :: earlier).reverse.map (·.item))).map (· ++ [.op s]), fun js => ?_, ?_⟩
    · have hop := elements?_op ((i :: earlier).reverse.map (·.item)) js s
      rw [List.reverse_cons, List.map_append, List.append_assoc, List.map_singleton,
        List.singleton_append, hop]
      cases elements? ((i :: earlier).reverse.map (·.item)) with
      | none => rfl
      | some es => cases elements? js <;> simp
    · intro es hes
      simp only [Option.map_eq_some_iff] at hes
      obtain ⟨fs, hfs, rfl⟩ := hes
      obtain ⟨gs, y, rfl⟩ := elements?_operand hfs (by simp) hi
      exact .inr ⟨gs, y, s, by simp, hs⟩

end items

end DeskCalc.Formula
