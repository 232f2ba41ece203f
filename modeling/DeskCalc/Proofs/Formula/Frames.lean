import DeskCalc.Proofs.Formula.Steps

/-!
# Reading inside other groups

Reading goes on from what has been read so far and looks no further back than to the last two items
of the present group and, when it ends, to the group around it. Tokens whose parentheses match are
therefore read alike inside any groups, and what stands further back in a group stays as it is.
-/

namespace DeskCalc.Formula

namespace Progress

variable {p : Progress} {ts us : List Token}

/-- The same reading inside more groups. -/
def inside (enclosing : List (List Nested)) (p : Progress) : Progress :=
  { p with enclosing := p.enclosing ++ enclosing }

end Progress

/-- How many groups are open after the given tokens, if none ends that is not open. -/
def openAfter? : Nat → List Token → Option Nat
  | n, [] => some n
  | n, .opening :: ts => openAfter? (n + 1) ts
  | 0, .closing :: _ => none
  | n + 1, .closing :: ts => openAfter? n ts
  | n, _ :: ts => openAfter? n ts

/-- Whether the parentheses of the tokens match. -/
def Matched (ts : List Token) : Prop := ∀ n us, openAfter? n (ts ++ us) = openAfter? n us

section matched

variable {ts us : List Token}

private theorem matched_nil : Matched [] := fun _ _ => rfl

private theorem openAfter?_flat {t : Token} (ht : t.isFlat = true) (n : Nat) (ts : List Token) :
    openAfter? n (t :: ts) = openAfter? n ts := by
  cases t <;> first | rfl | simp [Token.isFlat] at ht

theorem Matched.flat (h : ∀ t ∈ ts, t.isFlat = true) : Matched ts := by
  induction ts with
  | nil => exact matched_nil
  | cons t ts ih =>
    intro n us
    rw [List.cons_append, openAfter?_flat (h t (by simp))]
    exact ih (fun t' ht' => h t' (List.mem_cons_of_mem t ht')) n us

theorem Matched.append (ht : Matched ts) (hu : Matched us) : Matched (ts ++ us) := by
  intro n vs
  rw [List.append_assoc, ht, hu]

theorem Matched.parentheses (h : Matched ts) : Matched (.opening :: ts ++ [.closing]) := by
  intro n us
  simp only [List.cons_append, List.append_assoc, List.nil_append, openAfter?, h (n + 1)]

end matched

/-- Texts whose parentheses match. -/
inductive Balanced : Text → Prop
  | flat {t} : '(' ∉ t → ')' ∉ t → Balanced t
  | parentheses {s t u} : '(' ∉ s → ')' ∉ s → Balanced t → Balanced u →
      Balanced (s ++ '(' :: (t ++ ')' :: u))

namespace Balanced

/-- A character that is no parenthesis may stand before a text. -/
theorem cons {c : Char} {t : Text} (hopening : c ≠ '(') (hclosing : c ≠ ')') (h : Balanced t) :
    Balanced (c :: t) := by
  cases h with
  | flat ho hc => exact .flat (by simp [ho, Ne.symm hopening]) (by simp [hc, Ne.symm hclosing])
  | @parentheses s t u ho hc ht hu =>
    exact .parentheses (s := c :: s) (by simp [ho, Ne.symm hopening])
      (by simp [hc, Ne.symm hclosing]) ht hu

end Balanced

/-- Exclamation marks turn the last items into one operand. -/
theorem applyBangs_cases {n : Nat} {xs ys : List Nested} (h : applyBangs n xs = some ys) :
    n = 0 ∧ ys = xs ∨ ∃ f last used before x,
      xs = last :: used ++ before ∧ (used = [] ∨ ∃ m d, used = [⟨.name m, d⟩]) ∧
        ys = ⟨.operand (.call f x), deepest (last :: used) + 1⟩ :: before := by
  by_cases hn : n = 0
  · simp only [applyBangs, hn, if_true, Option.some.injEq] at h
    exact .inl ⟨hn, h.symm⟩
  · simp only [applyBangs, hn, if_false, Option.bind_eq_bind, Option.bind_eq_some_iff] at h
    obtain ⟨f, -, h⟩ := h
    have hsingle :
        ∀ last before, ((factorialOf? f [last]).bind fun i => some (i :: before)) = some ys →
        ∃ x, ys = ⟨.operand (.call f x), deepest [last] + 1⟩ :: before := by
      intro last before h
      simp only [factorialOf?, Option.bind_eq_bind, Option.pure_def, Option.bind_eq_some_iff,
        Option.some.injEq] at h
      obtain ⟨i, ⟨x, -, rfl⟩, rfl⟩ := h
      exact ⟨x, rfl⟩
    refine .inr ?_
    split at h
    · simp at h
    · next last before =>
      split at h
      · obtain ⟨x, rfl⟩ := hsingle last _ h
        exact ⟨f, last, [], _, x, rfl, .inl rfl, rfl⟩
      · next m d earlier _ =>
        simp only [factorialOf?, Option.bind_eq_bind, Option.pure_def, Option.bind_eq_some_iff,
          Option.some.injEq] at h
        obtain ⟨i, ⟨x, -, rfl⟩, rfl⟩ := h
        refine ⟨f, last, [⟨.name m, d⟩], earlier, x, rfl, .inr ⟨m, d, rfl⟩, ?_⟩
        rw [← deepest_reverse]
        rfl
      · obtain ⟨x, rfl⟩ := hsingle last _ h
        exact ⟨f, last, [], _, x, rfl, .inl rfl, rfl⟩

/-- Exclamation marks look no further back than to a name. -/
theorem applyBangs_append {later before : List Nested} (hne : later ≠ [])
    (hbefore : ∀ i, before.head? = some i → ∀ m, i.item ≠ .name m) (n : Nat) :
    applyBangs n (later ++ before) = (applyBangs n later).map (· ++ before) := by
  by_cases hn : n = 0
  · simp [applyBangs, hn]
  simp only [applyBangs, hn, if_false]
  cases factorial? n with
  | none => rfl
  | some f =>
    cases later with
    | nil => exact absurd rfl hne
    | cons last later =>
      obtain ⟨item, d⟩ := last
      have hlast : ∀ us : List Nested,
        ((factorialOf? f [⟨item, d⟩]).bind fun i => some (i :: (us ++ before))) =
          ((factorialOf? f [⟨item, d⟩]).bind fun i => some (i :: us)).map (· ++ before) := by
        intro us
        cases factorialOf? f [⟨item, d⟩] <;> rfl
      cases item with
      | operand z => exact hlast later
      | _ =>
        cases later with
        | nil =>
          cases before with
          | nil => exact hlast []
          | cons i before =>
            obtain ⟨jtem, e⟩ := i
            cases jtem with
            | name m => exact absurd rfl (hbefore _ rfl m)
            | _ => exact hlast []
        | cons i later =>
          obtain ⟨jtem, e⟩ := i
          have hmore := hlast (⟨jtem, e⟩ :: later)
          cases jtem with
          | name m =>
            simp only [List.cons_append, Option.bind_eq_bind, Option.bind_some]
            cases factorialOf? f _ <;> rfl
          | _ => exact hmore

theorem applyBangs_plain {n : Nat} {xs ys : List Nested} (hxs : ∀ i ∈ xs, i.item.isPlain = true)
    (h : applyBangs n xs = some ys) : ∀ i ∈ ys, i.item.isPlain = true := by
  obtain ⟨-, rfl⟩ | ⟨f, last, used, before, x, rfl, -, rfl⟩ := applyBangs_cases h
  · exact hxs
  · intro i hi
    rcases List.mem_cons.mp hi with rfl | hi
    · rfl
    · exact hxs i (by simp [hi])

namespace Progress

variable {ts : List Token}

end Progress

namespace Progress

/-- Whether there are neither commas nor blanks among the items read so far. -/
def IsPlain (p : Progress) : Prop :=
  (∀ i ∈ p.items, i.item.isPlain = true) ∧
    ∀ group ∈ p.enclosing, ∀ i ∈ group, i.item.isPlain = true

theorem Step.plain {p q : Progress} {next : Option Token} {t : Token} (h : p.Step next t q)
    (hp : p.IsPlain) (ht : t.isPlain = true) : q.IsPlain := by
  cases h with
  | item hi hitems =>
    refine ⟨fun j hj => ?_, hp.2⟩
    rcases List.mem_cons.mp hj with rfl | hj
    · exact Token.isPlain_of_item? hi ht
    · exact applyBangs_plain hp.1 hitems j hj
  | gap => simp [Token.isPlain] at ht
  | bang => exact hp
  | opening hitems =>
    refine ⟨by simp, fun group hgroup => ?_⟩
    rcases List.mem_cons.mp hgroup with rfl | hgroup
    · exact applyBangs_plain hp.1 hitems
    · exact hp.2 group hgroup
  | @closing items outer enclosing g hitems henclosing hg =>
    have houter : ∀ group ∈ outer :: enclosing, ∀ i ∈ group, i.item.isPlain = true :=
      henclosing ▸ hp.2
    refine ⟨fun j hj => ?_, fun group hgroup => houter group (List.mem_cons_of_mem _ hgroup)⟩
    rcases List.mem_cons.mp hj with rfl | hj
    · rfl
    · exact houter outer List.mem_cons_self j hj

end Progress

end DeskCalc.Formula
