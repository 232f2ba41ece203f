import DeskCalc.Proofs.Formula.Frames
import Mathlib.Data.List.Forall2

/-!
# Groups in place of a part of a formula

A part of the items of a group may be replaced by one group of its own. If the group around it stays
the same whatever follows the part, the readings of the two formulas stay side by side, token by
token, and end in the same tree, except that parentheses may be nested deeper in one of them.
-/

namespace DeskCalc.Formula

section rel

variable {α β γ δ : Type} {r : α → β → Prop} {s : γ → δ → Prop} {x : Option α} {y : Option β}

private theorem rel_bind {f : α → Option γ} {g : β → Option δ} (h : Option.Rel r x y)
    (hfg : ∀ a b, r a b → Option.Rel s (f a) (g b)) : Option.Rel s (x.bind f) (y.bind g) := by
  cases h with
  | none => exact .none
  | some h => exact hfg _ _ h

private theorem rel_map {f : α → γ} {g : β → δ} (h : Option.Rel r x y)
    (hfg : ∀ a b, x = some a → r a b → s (f a) (g b)) : Option.Rel s (x.map f) (y.map g) := by
  cases h with
  | none => exact .none
  | some h => exact .some (hfg _ _ rfl h)

end rel

/-- Whether items are the same, and in the first one parentheses are nested no deeper. -/
structure Nested.Within (i j : Nested) : Prop where
  item : i.item = j.item
  depth : i.depth ≤ j.depth

section within

variable {xs ys : List Nested}

private theorem items_within (h : List.Forall₂ Nested.Within xs ys) :
    xs.map (·.item) = ys.map (·.item) := by
  induction h with
  | nil => rfl
  | cons hi _ ih => rw [List.map_cons, List.map_cons, hi.item, ih]

private theorem deepest_within (h : List.Forall₂ Nested.Within xs ys) :
    deepest xs ≤ deepest ys := by
  induction h with
  | nil => exact Nat.le_refl _
  | cons hi _ ih =>
    have hdepth := hi.depth
    rw [deepest_cons, deepest_cons]
    omega

private theorem factorialOf?_within (h : List.Forall₂ Nested.Within xs ys) (f : Operation) :
    Option.Rel Nested.Within (factorialOf? f xs) (factorialOf? f ys) := by
  simp only [factorialOf?, items_within h]
  cases part? (ys.map (·.item)) with
  | none => exact .none
  | some x => exact .some ⟨rfl, Nat.succ_le_succ (deepest_within h)⟩

private theorem applyBangs_within (h : List.Forall₂ Nested.Within xs ys) (n : Nat) :
    Option.Rel (List.Forall₂ Nested.Within) (applyBangs n xs) (applyBangs n ys) := by
  by_cases hn : n = 0
  · simpa only [applyBangs, hn, if_true] using .some h
  simp only [applyBangs, hn, if_false]
  cases factorial? n with
  | none => exact .none
  | some f =>
    have hcons : ∀ {us vs bs cs}, List.Forall₂ Nested.Within us vs →
        List.Forall₂ Nested.Within bs cs → Option.Rel (List.Forall₂ Nested.Within)
          ((factorialOf? f us).bind fun i => some (i :: bs))
          ((factorialOf? f vs).bind fun i => some (i :: cs)) := by
      intro us vs bs cs hus hbs
      exact rel_bind (factorialOf?_within hus f) fun i j hij => .some (.cons hij hbs)
    cases h with
    | nil => exact .none
    | @cons i j before before' hij hbefore =>
      obtain ⟨item, d⟩ := i
      obtain ⟨_, e⟩ := j
      obtain ⟨rfl, hde⟩ := hij
      have hsame : Nested.Within ⟨item, d⟩ ⟨item, e⟩ := ⟨rfl, hde⟩
      have hlast := hcons (.cons hsame .nil) hbefore
      cases item with
      | operand z => exact hlast
      | _ =>
        cases hbefore with
        | nil => exact hlast
        | @cons k l earlier earlier' hkl hearlier =>
          obtain ⟨ktem, a⟩ := k
          obtain ⟨_, b⟩ := l
          obtain ⟨rfl, hab⟩ := hkl
          cases ktem with
          | name m =>
            have hname : Nested.Within ⟨.name m, a⟩ ⟨.name m, b⟩ := ⟨rfl, hab⟩
            exact hcons (.cons hname (.cons hsame .nil)) hearlier
          | _ => exact hlast

end within

/-- Whether one group may take the place of a part of the items, given last first, after those
before it. -/
structure Replaces (whole : Nested) (part before : List Nested) : Prop where
  whole_ne_name : ∀ m, whole.item ≠ .name m
  part_ne_nil : part ≠ []
  part_ne_name : ∀ i, part.head? = some i → ∀ m, i.item ≠ .name m
  depth : deepest part ≤ whole.depth
  group : ∀ later : List Nested, (∀ i ∈ later, i.item.isPlain = true) →
    (∀ i, later.getLast? = some i → i.item ≠ .op .power) →
    group? ((later ++ (part ++ before)).reverse.map (·.item)) =
      group? ((later ++ whole :: before).reverse.map (·.item))

/-- Items that are the same up to the part that is replaced; `fresh` says that nothing need follow
the part yet. -/
inductive Alike (whole : Nested) (part before : List Nested) :
    Bool → List Nested → List Nested → Prop
  | same {fresh xs ys} : List.Forall₂ Nested.Within xs ys → Alike whole part before fresh xs ys
  | replaced {fresh later later'} : List.Forall₂ Nested.Within later later' →
      (later = [] → fresh = true) → (∀ i ∈ later, i.item.isPlain = true) →
      (∀ i, later.getLast? = some i → i.item ≠ .op .power) →
      Alike whole part before fresh (later ++ (part ++ before)) (later' ++ whole :: before)

section alike

variable {whole : Nested} {part before xs ys : List Nested} {fresh : Bool}

private theorem Alike.weaken (h : Alike whole part before fresh xs ys) :
    Alike whole part before true xs ys := by
  cases h with
  | same h => exact .same h
  | replaced h _ hplain hpower => exact .replaced h (fun _ => rfl) hplain hpower

private theorem Alike.cons {i j : Nested} (h : Alike whole part before fresh xs ys)
    (hij : i.Within j) (hplain : i.item.isPlain = true)
    (hpower : fresh = true → i.item ≠ .op .power) :
    Alike whole part before false (i :: xs) (j :: ys) := by
  cases h with
  | same h => exact .same (.cons hij h)
  | @replaced later later' h hfresh hlater hlast =>
    rw [← List.cons_append, ← List.cons_append]
    refine .replaced (.cons hij h) (by simp) ?_ ?_
    · intro k hk
      rcases List.mem_cons.mp hk with rfl | hk
      · exact hplain
      · exact hlater k hk
    · intro k hk
      rw [List.getLast?_cons, Option.some.injEq] at hk
      cases hl : later.getLast? with
      | none =>
        rw [hl, Option.getD_none] at hk
        exact hk ▸ hpower (hfresh (List.getLast?_eq_none_iff.mp hl))
      | some l =>
        rw [hl, Option.getD_some] at hk
        exact hk ▸ hlast l hl

private theorem Alike.applyBangs (hr : Replaces whole part before)
    (h : Alike whole part before fresh xs ys) {n : Nat} (hn : fresh = true → n = 0) :
    Option.Rel (Alike whole part before fresh) (applyBangs n xs) (applyBangs n ys) := by
  cases h with
  | same h =>
    have hrel : Option.Rel (Alike whole part before fresh) ((Formula.applyBangs n xs).map id)
        ((Formula.applyBangs n ys).map id) :=
      rel_map (applyBangs_within h n) fun _ _ _ hus => .same hus
    simpa only [Option.map_id, id] using hrel
  | @replaced later later' h hfresh hlater hlast =>
    by_cases hzero : n = 0
    · simp only [Formula.applyBangs, hzero, if_true]
      exact .some (.replaced h hfresh hlater hlast)
    have hne : later ≠ [] := fun hnil => hzero (hn (hfresh hnil))
    have hne' : later' ≠ [] := by
      rintro rfl
      exact hne (List.forall₂_nil_right_iff.mp h)
    have hpart : ∀ i, (part ++ before).head? = some i → ∀ m, i.item ≠ .name m := by
      intro i hi
      rw [List.head?_append_of_ne_nil _ hr.part_ne_nil] at hi
      exact hr.part_ne_name i hi
    have hwhole : ∀ i, (whole :: before).head? = some i → ∀ m, i.item ≠ .name m := by
      rintro i ⟨rfl⟩
      exact hr.whole_ne_name
    rw [applyBangs_append hne hpart, applyBangs_append hne' hwhole]
    refine rel_map (applyBangs_within h n) fun us vs hus hwithin =>
      .replaced hwithin ?_ (applyBangs_plain hlater hus) ?_
    · rintro rfl
      obtain ⟨-, hnil⟩ | ⟨_, _, _, _, _, -, -, hnil⟩ := applyBangs_cases hus
      · exact absurd hnil.symm hne
      · simp at hnil
    -- the marks make an operand, or leave what stands right after the part
    · obtain ⟨hzero', -⟩ | ⟨f, last, used, rest, x, rfl, -, rfl⟩ := applyBangs_cases hus
      · exact absurd hzero' hzero
      · intro i hi
        rw [List.getLast?_cons, Option.some.injEq] at hi
        cases hrest : rest.getLast? with
        | none =>
          rw [hrest, Option.getD_none] at hi
          rw [← hi]
          simp
        | some k =>
          rw [hrest, Option.getD_some] at hi
          rw [← hi]
          exact hlast k (by rw [List.getLast?_append, hrest, Option.some_or])

/-- Items that are alike form the same group. -/
theorem Alike.group (hr : Replaces whole part before) (h : Alike whole part before fresh xs ys) :
    group? (xs.reverse.map (·.item)) = group? (ys.reverse.map (·.item)) ∧
      deepest xs ≤ deepest ys := by
  cases h with
  | same h =>
    rw [List.map_reverse, List.map_reverse, items_within h]
    exact ⟨rfl, deepest_within h⟩
  | replaced h _ hlater hlast =>
    constructor
    · rw [hr.group _ hlater hlast]
      simp only [List.map_reverse, List.map_append, items_within h]
    · have hdepth := hr.depth
      have hlater := deepest_within h
      rw [deepest_append, deepest_append, deepest_append, deepest_cons]
      omega

end alike

namespace Progress

/-- Readings that are the same up to the part that is replaced. -/
structure Alike (whole : Nested) (part before : List Nested) (fresh : Bool) (p q : Progress) :
    Prop where
  bangs : p.bangs = q.bangs
  marks : fresh = true → p.bangs = 0
  items : Formula.Alike whole part before fresh p.items q.items
  enclosing : List.Forall₂ (Formula.Alike whole part before true) p.enclosing q.enclosing

variable {whole : Nested} {part before : List Nested} {fresh : Bool} {p q : Progress}
variable {t : Token} {ts : List Token}

private theorem Alike.applyBangs (hr : Replaces whole part before)
    (h : p.Alike whole part before fresh q) :
    Option.Rel (Formula.Alike whole part before fresh) (applyBangs p.bangs p.items)
      (applyBangs q.bangs q.items) := by
  rw [← h.bangs]
  exact h.items.applyBangs hr h.marks

private theorem Alike.push (hr : Replaces whole part before) (h : p.Alike whole part before fresh q)
    {i : Item} (hplain : i.isPlain = true) (hpower : fresh = true → i ≠ .op .power) (d : Nat) :
    Option.Rel (Alike whole part before false) (p.push i d) (q.push i d) := by
  exact rel_bind (h.applyBangs hr) fun us vs hitems =>
    .some ⟨rfl, by simp, hitems.cons ⟨rfl, Nat.le_refl d⟩ hplain hpower, h.enclosing⟩

private theorem Alike.close (hr : Replaces whole part before)
    (h : p.Alike whole part before fresh q) :
    Option.Rel (Alike whole part before false) p.close q.close := by
  have henclosing := h.enclosing
  refine rel_bind (h.applyBangs hr) fun us vs hitems => ?_
  obtain ⟨hgroup, hdepth⟩ := hitems.group hr
  revert henclosing
  rcases p.enclosing with _ | ⟨outer, enclosing⟩ <;>
    rcases q.enclosing with _ | ⟨outer', enclosing'⟩ <;>
    intro henclosing <;> cases henclosing
  · exact .none
  · next houter henclosing =>
    simp only [Option.bind_eq_bind, hgroup]
    cases group? (vs.reverse.map (·.item)) with
    | none => exact .none
    | some g =>
      exact .some
        ⟨rfl, by simp, houter.cons ⟨rfl, Nat.succ_le_succ hdepth⟩ rfl (by simp), henclosing⟩

private theorem Alike.read (hr : Replaces whole part before) (h : p.Alike whole part before fresh q)
    (hplain : t.isPlain = true) (hfresh : fresh = true → t ≠ .bang ∧ t ≠ .op .power)
    (next : Option Token) :
    Option.Rel (Alike whole part before false) (p.read next t) (q.read next t) := by
  by_cases hitem : t.isItem = true
  · rw [read_item p next hitem, read_item q next hitem]
    cases hi : t.item? next with
    | none => exact .none
    | some i =>
      refine h.push hr (Token.isPlain_of_item? hi hplain) (fun hb ho => (hfresh hb).2 ?_) i.depth
      exact Token.eq_op_of_item? hi ho
  cases t with
  | bang =>
    refine .some ⟨congrArg (· + 1) h.bangs, by simp, ?_, h.enclosing⟩
    cases fresh with
    | true => exact absurd rfl (hfresh rfl).1
    | false => exact h.items
  | gap => simp [Token.isPlain] at hplain
  | opening =>
    exact rel_bind (h.applyBangs hr) fun us vs hitems =>
      .some ⟨rfl, by simp, .same .nil, .cons hitems.weaken h.enclosing⟩
  | closing => exact h.close hr
  | _ => exact absurd rfl hitem

private theorem Alike.readAll (hr : Replaces whole part before)
    (h : p.Alike whole part before fresh q) (hplain : ∀ t ∈ ts, t.isPlain = true)
    (hfresh : fresh = true → ∀ t, ts.head? = some t → t ≠ .bang ∧ t ≠ .op .power) :
    Option.Rel (fun p q => ∃ fresh, p.Alike whole part before fresh q) (p.readAll ts)
      (q.readAll ts) := by
  induction ts generalizing p q fresh with
  | nil => exact .some ⟨fresh, h⟩
  | cons t ts ih =>
    exact rel_bind (h.read hr (hplain t (by simp)) (fun hb => hfresh hb t rfl) ts.head?)
      fun p' q' h' => ih h' (fun u hu => hplain u (List.mem_cons_of_mem t hu)) (by simp)

end Progress

end DeskCalc.Formula
