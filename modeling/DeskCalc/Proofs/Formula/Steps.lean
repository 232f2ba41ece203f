import DeskCalc.Proofs.Formula.Reading
import DeskCalc.Proofs.Formula.Tokens

/-!
# What one token makes of a reading

Most tokens stand for an item, which comes after the others once the exclamation marks before it
have been applied. A blank that counts, a mark and the two parentheses are read in ways of their
own. What each of these steps keeps is kept by all the tokens that are read.
-/

namespace DeskCalc

open Formula

namespace Token

/-- Whether a token stands for an item of its own, if for anything. -/
def isItem : Token → Bool
  | gap | bang | opening | closing => false
  | _ => true

/-- The item that a token stands for; `next` is the token after it. -/
def item? (next : Option Token) : Token → Option Nested
  | number x => some ⟨.operand (.number x), 1⟩
  | name s =>
    if s ∈ reservedWords then none
    else
      match vocabulary.lookup s with
      | some m => some ⟨.name m, 0⟩
      | none => if next = some opening then some ⟨.head s, 1⟩ else some ⟨.operand (.symbol s), 1⟩
  | op o => some ⟨.op o, 0⟩
  | comma => some ⟨.comma, 0⟩
  | lineEnd => some ⟨.blank, 0⟩
  | _ => none

variable {next : Option Token} {t : Token} {i : Nested}

private theorem isItem_of_item? (h : t.item? next = some i) : t.isItem = true := by
  cases t <;> first | rfl | simp [item?] at h

/-- An unknown name is a factor of the group right after it, and an operand elsewhere. -/
theorem item?_name {s : Text} (h : (name s).item? next = some i) :
    (∃ m, i = ⟨.name m, 0⟩) ∨ next = some opening ∧ i = ⟨.head s, 1⟩ ∨
      next ≠ some opening ∧ i = ⟨.operand (.symbol s), 1⟩ := by
  simp only [item?] at h
  split at h
  · simp at h
  · split at h
    · next m _ => exact .inl ⟨m, (Option.some.inj h).symm⟩
    · split at h
      · next hnext => exact .inr (.inl ⟨hnext, (Option.some.inj h).symm⟩)
      · next hnext => exact .inr (.inr ⟨hnext, (Option.some.inj h).symm⟩)

theorem isPlain_of_item? (h : t.item? next = some i) (ht : t.isPlain = true) :
    i.item.isPlain = true := by
  cases t with
  | name s => obtain ⟨m, rfl⟩ | ⟨-, rfl⟩ | ⟨-, rfl⟩ := item?_name h <;> rfl
  | number n => exact Option.some.inj h ▸ rfl
  | op o => exact Option.some.inj h ▸ rfl
  | _ => simp [item?, isPlain] at h ht

theorem eq_op_of_item? {o : Operator} (h : t.item? next = some i) (hi : i.item = .op o) :
    t = op o := by
  cases t with
  | name s => obtain ⟨m, rfl⟩ | ⟨-, rfl⟩ | ⟨-, rfl⟩ := item?_name h <;> simp at hi
  | op o' =>
    obtain rfl := Option.some.inj h
    rw [Item.op.inj hi]
  | _ => simp [item?] at h <;> simp [← h] at hi

end Token

namespace Formula.Progress

variable {p q : Progress} {next : Option Token} {t : Token} {ts : List Token}

/-- A token that stands for an item pushes it. -/
theorem read_item (p : Progress) (next : Option Token) (ht : t.isItem = true) :
    p.read next t = (t.item? next).bind fun i => p.push i.item i.depth := by
  cases t with
  | name s =>
    simp only [read, Token.item?]
    split
    · rfl
    · cases vocabulary.lookup s with
      | some m => rfl
      | none =>
        by_cases hnext : next = some .opening <;> simp only [hnext, if_true, if_false] <;> rfl
  | number _ | op _ | comma | lineEnd => rfl
  | _ => simp [Token.isItem] at ht

/-- What one token makes of a reading. -/
inductive Step (p : Progress) (next : Option Token) : Token → Progress → Prop
  | item {t : Token} {i : Nested} {items : List Nested} : t.item? next = some i →
      applyBangs p.bangs p.items = some items → Step p next t ⟨p.enclosing, i :: items, 0⟩
  | gap : Step p next .gap ⟨p.enclosing, ⟨.blank, 0⟩ :: p.items, 0⟩
  | bang : Step p next .bang ⟨p.enclosing, p.items, p.bangs + 1⟩
  | opening {items : List Nested} : applyBangs p.bangs p.items = some items →
      Step p next .opening ⟨items :: p.enclosing, [], 0⟩
  | closing {items outer : List Nested} {enclosing : List (List Nested)} {g : Group} :
      applyBangs p.bangs p.items = some items → p.enclosing = outer :: enclosing →
      group? (items.reverse.map (·.item)) = some g →
      Step p next .closing ⟨enclosing, ⟨.group g, deepest items + 1⟩ :: outer, 0⟩

theorem read_eq_some_iff : p.read next t = some q ↔ p.Step next t q := by
  constructor
  · intro h
    by_cases ht : t.isItem = true
    · rw [read_item p next ht, Option.bind_eq_some_iff] at h
      obtain ⟨i, hi, h⟩ := h
      simp only [push, Option.bind_eq_bind, Option.pure_def, Option.bind_eq_some_iff,
        Option.some.injEq] at h
      obtain ⟨items, hitems, rfl⟩ := h
      exact .item hi hitems
    cases t with
    | gap =>
      obtain rfl := Option.some.inj h
      exact .gap
    | bang =>
      obtain rfl := Option.some.inj h
      exact .bang
    | opening =>
      simp only [read, Option.bind_eq_bind, Option.pure_def, Option.bind_eq_some_iff,
        Option.some.injEq] at h
      obtain ⟨items, hitems, rfl⟩ := h
      exact .opening hitems
    | closing =>
      simp only [read, close, Option.bind_eq_bind, Option.bind_eq_some_iff] at h
      obtain ⟨items, hitems, h⟩ := h
      split at h
      · simp at h
      · next outer enclosing henclosing =>
        simp only [Option.pure_def, Option.bind_eq_some_iff, Option.some.injEq] at h
        obtain ⟨g, hg, rfl⟩ := h
        exact .closing hitems henclosing hg
    | _ => exact absurd rfl ht
  · intro h
    cases h with
    | item hi hitems =>
      rw [read_item p next (Token.isItem_of_item? hi), hi, Option.bind_some, push, hitems]
      rfl
    | gap => rfl
    | bang => rfl
    | opening hitems =>
      rw [read, hitems]
      rfl
    | closing hitems henclosing hg =>
      simp only [read, close, hitems, henclosing, hg, Option.bind_eq_bind, Option.bind_some]
      rfl

/-- What each step keeps is kept by all of them. -/
theorem readAll_induction {P : Progress → Prop}
    (hstep : ∀ {p q next t}, t ∈ ts → (∀ u ∈ next, u ∈ ts) → P p → p.Step next t q → P q)
    (hp : P p) (h : p.readAll ts = some q) : P q := by
  induction ts generalizing p with
  | nil => exact Option.some.inj h ▸ hp
  | cons t ts ih =>
    simp only [readAll, Option.bind_eq_some_iff] at h
    obtain ⟨r, hr, hq⟩ := h
    have hr' : P r := hstep List.mem_cons_self
      (fun u hu => List.mem_cons_of_mem t (List.mem_of_head? hu)) hp (read_eq_some_iff.mp hr)
    refine ih ?_ hr' hq
    intro p q next u hu hnext
    exact hstep (List.mem_cons_of_mem t hu) fun v hv => List.mem_cons_of_mem t (hnext v hv)

end Formula.Progress

end DeskCalc
