import DeskCalc.Proofs.Degrees.Height
import DeskCalc.Proofs.Formula.Frames

/-!
# Readings that differ inside one call

Two readings that differ in what one group right after a name or an operand encloses go on to differ
in this way, or in the argument of one call, as long as the group around it is not left. The trees
that they end in have the same left height.
-/

namespace DeskCalc.Formula

/-- Whether an item may stand right before a group that it is applied to or multiplied by. -/
def Item.precedesGroup : Item → Bool
  | .operand _ | .name _ | .head _ => true
  | _ => false

/-- Items, last first, that differ in one group with an item before it, or in one call. -/
inductive Beside : List Nested → List Nested → Prop
  | group {x y : Tree} {d e : Nat} {i : Nested} (before : List Nested) :
      i.item.precedesGroup = true →
      Beside (⟨.group ⟨[x], false⟩, d⟩ :: i :: before) (⟨.group ⟨[y], false⟩, e⟩ :: i :: before)
  | call {f : Operation} {x y : Tree} {d e : Nat} (before : List Nested) :
      Beside (⟨.operand (.call f x), d⟩ :: before) (⟨.operand (.call f y), e⟩ :: before)
  | cons {xs ys : List Nested} (i : Nested) : Beside xs ys → Beside (i :: xs) (i :: ys)

section marks

variable {xs ys us vs : List Nested}

private theorem Beside.append (later : List Nested) (h : Beside xs ys) :
    Beside (later ++ xs) (later ++ ys) := by
  induction later with
  | nil => exact h
  | cons i _ ih => exact .cons i ih

private theorem Beside.split {xs ys : List Nested} (h : Beside xs ys) :
    (∃ later before i x y d e, Item.precedesGroup (Nested.item i) = true ∧
      xs = later ++ ⟨.group ⟨[x], false⟩, d⟩ :: i :: before ∧
      ys = later ++ ⟨.group ⟨[y], false⟩, e⟩ :: i :: before) ∨
    ∃ later before f x y d e, xs = later ++ ⟨.operand (.call f x), d⟩ :: before ∧
      ys = later ++ ⟨.operand (.call f y), e⟩ :: before := by
  induction h with
  | @group x y d e i before hi => exact .inl ⟨[], before, i, x, y, d, e, hi, rfl, rfl⟩
  | @call f x y d e before => exact .inr ⟨[], before, f, x, y, d, e, rfl, rfl⟩
  | cons j _ ih =>
    rcases ih with ⟨later, before, i, x, y, d, e, hi, rfl, rfl⟩ |
      ⟨later, before, f, x, y, d, e, rfl, rfl⟩
    · exact .inl ⟨j :: later, before, i, x, y, d, e, hi, rfl, rfl⟩
    · exact .inr ⟨j :: later, before, f, x, y, d, e, rfl, rfl⟩

private theorem factorialOf?_eq {f : Operation} {items : List Nested} {i : Nested}
    (h : factorialOf? f items = some i) : ∃ x d, i = ⟨.operand (.call f x), d⟩ := by
  simp only [factorialOf?, Option.bind_eq_bind, Option.pure_def, Option.bind_eq_some_iff,
    Option.some.injEq] at h
  obtain ⟨x, -, rfl⟩ := h
  exact ⟨x, _, rfl⟩

/-- What marks after an item leave of the items before it: a name goes with what it
is applied to. -/
def beforeMarks (last : Item) (before : List Nested) : List Nested :=
  match last with
  | .operand _ => before
  | _ =>
    match before with
    | ⟨.name _, _⟩ :: earlier => earlier
    | _ => before

private theorem applyBangs_cons {n : Nat} {last : Nested} {before : List Nested}
    (h : applyBangs n (last :: before) = some us) :
    n = 0 ∧ us = last :: before ∨ ∃ f x d, factorial? n = some f ∧
      us = ⟨.operand (.call f x), d⟩ :: beforeMarks last.item before := by
  by_cases hn : n = 0
  · simp only [applyBangs, hn, if_true, Option.some.injEq] at h
    exact .inl ⟨hn, h.symm⟩
  · simp only [applyBangs, hn, if_false, Option.bind_eq_bind, Option.pure_def,
      Option.bind_eq_some_iff] at h
    obtain ⟨f, hf, h⟩ := h
    have hmarked : ∀ used rest, ((factorialOf? f used).bind fun i => some (i :: rest)) = some us →
        ∃ x d, us = ⟨.operand (.call f x), d⟩ :: rest := by
      intro used rest hbind
      simp only [Option.bind_eq_some_iff, Option.some.injEq] at hbind
      obtain ⟨i, hi, rfl⟩ := hbind
      obtain ⟨x, d, rfl⟩ := factorialOf?_eq hi
      exact ⟨x, d, rfl⟩
    suffices hus : ∃ x d, us = ⟨.operand (.call f x), d⟩ :: beforeMarks last.item before by
      obtain ⟨x, d, hus⟩ := hus
      exact .inr ⟨f, x, d, hf, hus⟩
    obtain ⟨item, k⟩ := last
    cases item with
    | operand z => exact hmarked _ _ h
    | _ =>
      cases before with
      | nil => exact hmarked _ _ h
      | cons i earlier =>
        obtain ⟨item, l⟩ := i
        cases item <;> exact hmarked _ _ h

private theorem Beside.applyBangs_last {n : Nat} {a b : Nested} {before : List Nested}
    (h : Beside (a :: before) (b :: before))
    (hbefore : beforeMarks a.item before = beforeMarks b.item before)
    (hus : applyBangs n (a :: before) = some us) (hvs : applyBangs n (b :: before) = some vs) :
    Beside us vs := by
  rcases applyBangs_cons hus with ⟨hn, rfl⟩ | ⟨f, x, d, hf, rfl⟩ <;>
    rcases applyBangs_cons hvs with ⟨hn', rfl⟩ | ⟨f', y, e, hf', rfl⟩
  · exact h
  · simp [hn, factorial?] at hf'
  · simp [hn', factorial?] at hf
  · obtain rfl : f = f' := Option.some.inj (hf.symm.trans hf')
    rw [hbefore]
    exact .call _

private theorem Beside.applyBangs_later {n : Nat} {later : List Nested} (hne : later ≠ [])
    (h : Beside xs ys) (hxs : ∀ i, xs.head? = some i → ∀ m, i.item ≠ .name m)
    (hys : ∀ i, ys.head? = some i → ∀ m, i.item ≠ .name m)
    (hus : applyBangs n (later ++ xs) = some us) (hvs : applyBangs n (later ++ ys) = some vs) :
    Beside us vs := by
  rw [applyBangs_append hne hxs, Option.map_eq_some_iff] at hus
  rw [applyBangs_append hne hys, Option.map_eq_some_iff] at hvs
  obtain ⟨ws, hws, rfl⟩ := hus
  obtain ⟨ws', hws', rfl⟩ := hvs
  obtain rfl : ws = ws' := Option.some.inj (hws.symm.trans hws')
  exact h.append ws

theorem Beside.applyBangs (h : Beside xs ys) {n : Nat} (hus : applyBangs n xs = some us)
    (hvs : applyBangs n ys = some vs) : Beside us vs := by
  rcases h.split with ⟨later, before, i, x, y, d, e, hi, rfl, rfl⟩ |
    ⟨later, before, f, x, y, d, e, rfl, rfl⟩
  · have hgroup : Beside (⟨.group ⟨[x], false⟩, d⟩ :: i :: before)
        (⟨.group ⟨[y], false⟩, e⟩ :: i :: before) := .group before hi
    by_cases hne : later = []
    · subst hne
      exact hgroup.applyBangs_last rfl hus hvs
    · exact hgroup.applyBangs_later hne (by simp) (by simp) hus hvs
  · have hcall :
        Beside (⟨.operand (.call f x), d⟩ :: before) (⟨.operand (.call f y), e⟩ :: before) :=
      .call before
    by_cases hne : later = []
    · subst hne
      exact hcall.applyBangs_last rfl hus hvs
    · exact hcall.applyBangs_later hne (by simp) (by simp) hus hvs

end marks

/-- The items of nested groups, the innermost first, of which the outermost differ. -/
inductive BesideInside : List (List Nested) → List (List Nested) → Prop
  | outermost {xs ys : List Nested} : Beside xs ys → BesideInside [xs] [ys]
  | inside {gs hs : List (List Nested)} (items : List Nested) :
      BesideInside gs hs → BesideInside (items :: gs) (items :: hs)

namespace BesideInside

variable {xs ys us vs : List Nested} {gs hs : List (List Nested)}

private theorem cons (h : BesideInside (xs :: gs) (ys :: hs)) (i : Nested) :
    BesideInside ((i :: xs) :: gs) ((i :: ys) :: hs) := by
  cases h with
  | outermost h => exact .outermost (.cons i h)
  | inside _ h => exact .inside _ h

private theorem applyBangs (h : BesideInside (xs :: gs) (ys :: hs)) {n : Nat}
    (hus : Formula.applyBangs n xs = some us) (hvs : Formula.applyBangs n ys = some vs) :
    BesideInside (us :: gs) (vs :: hs) := by
  cases h with
  | outermost h => exact .outermost (h.applyBangs hus hvs)
  | inside _ h =>
    obtain rfl : us = vs := Option.some.inj (hus.symm.trans hvs)
    exact .inside us h

end BesideInside

namespace Progress

/-- Whether two readings differ in what one group or one call of the outermost items encloses. -/
structure Beside (p q : Progress) : Prop where
  bangs : p.bangs = q.bangs
  groups : BesideInside (p.items :: p.enclosing) (q.items :: q.enclosing)

variable {p q p' q' : Progress}

private theorem Beside.step {next : Option Token} {t : Token} (h : p.Beside q)
    (hp : p.Step next t p') (hq : q.Step next t q') : p'.Beside q' := by
  cases hp with
  | item hi hus =>
    cases hq with
    | item hj hvs =>
      obtain rfl := Option.some.inj (hi.symm.trans hj)
      rw [← h.bangs] at hvs
      exact ⟨rfl, (h.groups.applyBangs hus hvs).cons _⟩
    | _ => simp [Token.item?] at hi
  | gap =>
    cases hq with
    | item hj => simp [Token.item?] at hj
    | gap => exact ⟨rfl, h.groups.cons _⟩
  | bang =>
    cases hq with
    | item hj => simp [Token.item?] at hj
    | bang => exact ⟨congrArg (· + 1) h.bangs, h.groups⟩
  | opening hus =>
    cases hq with
    | item hj => simp [Token.item?] at hj
    | opening hvs =>
      rw [← h.bangs] at hvs
      exact ⟨rfl, .inside [] (h.groups.applyBangs hus hvs)⟩
  | closing hus henclosing hg =>
    cases hq with
    | item hj => simp [Token.item?] at hj
    | closing hvs henclosing' hg' =>
      -- the group that ends encloses the items that differ, so it is the same in both
      have hgroups := h.groups
      rw [henclosing, henclosing'] at hgroups
      rw [← h.bangs] at hvs
      generalize p.items = xs at hus hgroups
      generalize q.items = ys at hvs hgroups
      cases hgroups with
      | inside _ hgroups =>
        obtain rfl := Option.some.inj (hus.symm.trans hvs)
        obtain rfl := Option.some.inj (hg.symm.trans hg')
        exact ⟨rfl, hgroups.cons _⟩

theorem Beside.readAll {ts : List Token} (h : p.Beside q) (hp : p.readAll ts = some p')
    (hq : q.readAll ts = some q') : p'.Beside q' := by
  induction ts generalizing p q with
  | nil =>
    simp only [Progress.readAll, Option.some.injEq] at hp hq
    exact hp ▸ hq ▸ h
  | cons t ts ih =>
    simp only [Progress.readAll, Option.bind_eq_some_iff] at hp hq
    obtain ⟨r, hr, hp⟩ := hp
    obtain ⟨s, hs, hq⟩ := hq
    exact ih (h.step (read_eq_some_iff.mp hr) (read_eq_some_iff.mp hs)) hp hq

end Progress

section elements

private theorem firstHeight_append (es fs : List Element) :
    firstHeight (es ++ fs) = (firstHeight es).or (firstHeight fs) := by
  induction es with
  | nil => rfl
  | cons e es ih =>
    cases e with
    | operand x => rfl
    | op o => exact ih

/-- What an item and the group right after it stand for: a call, or the two of them side by side. In
either case the group shows neither in the operators nor in the height of the first operand. -/
private theorem elements?_precedesGroup {i : Item} (hi : i.precedesGroup = true) :
    ∃ around : Tree → List Element,
      (∀ x js, elements? (i :: .group ⟨[x], false⟩ :: js) = (elements? js).map (around x ++ ·)) ∧
      ∀ x y, (around x).map Element.operator? = (around y).map Element.operator? ∧
        firstHeight (around x) = firstHeight (around y) := by
  cases i with
  | operand z =>
    refine ⟨fun x => [.operand z, .operand x], fun x js => ?_, fun x y => ⟨rfl, rfl⟩⟩
    exact ((standFor_operand z).append (standFor_group x)) js
  | head s =>
    refine ⟨fun x => [.operand (.symbol s), .operand x], fun x js => ?_, fun x y => ⟨rfl, rfl⟩⟩
    simp only [elements?, Group.single?]
    cases elements? js <;> rfl
  | name m =>
    cases m with
    | constant c =>
      refine ⟨fun x => [.operand (.constant c), .operand x], fun x js => ?_, fun x y => ⟨rfl, rfl⟩⟩
      exact ((standFor_constant c).append (standFor_group x)) js
    | operation f =>
      exact ⟨fun x => [.operand (.call f x)], fun x js => standFor_call f x js,
        fun x y => ⟨rfl, rfl⟩⟩
  | _ => simp [Item.precedesGroup] at hi

/-- The elements of items that differ in one group or one call have the same operators and a first
operand of the same height. -/
private theorem Beside.elements {xs ys : List Nested} {es fs : List Element} (h : Beside xs ys)
    (hes : elements? (xs.reverse.map (·.item)) = some es)
    (hfs : elements? (ys.reverse.map (·.item)) = some fs) :
    es.map Element.operator? = fs.map Element.operator? ∧ firstHeight es = firstHeight fs := by
  -- the elements where the items differ, between those before and those after them
  have haround : ∀ (before middle middle' : List Element) (later : Option (List Element)),
      middle.map Element.operator? = middle'.map Element.operator? ∧
        firstHeight middle = firstHeight middle' →
      (later.map (middle ++ ·)).map (before ++ ·) = some es →
      (later.map (middle' ++ ·)).map (before ++ ·) = some fs →
      es.map Element.operator? = fs.map Element.operator? ∧ firstHeight es = firstHeight fs := by
    rintro before middle middle' later ⟨hops, hheight⟩ hes hfs
    cases later with
    | none => simp at hes
    | some later =>
      simp only [Option.map_some, Option.some.injEq] at hes hfs
      subst hes hfs
      exact ⟨by simp [hops], by simp [firstHeight_append, hheight]⟩
  rcases h.split with ⟨later, before, i, x, y, d, e, hi, rfl, rfl⟩ |
    ⟨later, before, f, x, y, d, e, rfl, rfl⟩
  · obtain ⟨around, haroundEq, hsame⟩ := elements?_precedesGroup hi
    have hgroup : ∀ g, (i.item :: Item.group ⟨[x], false⟩ :: later.reverse.map (·.item)).head? ≠
        some (.group g) := by
      intro g hg
      rw [List.head?_cons, Option.some.injEq] at hg
      rw [hg] at hi
      exact absurd hi (by simp [Item.precedesGroup])
    simp only [List.reverse_append, List.reverse_cons, List.append_assoc, List.cons_append,
      List.nil_append, List.map_append, List.map_cons] at hes hfs
    rw [elements?_append (by simpa using hgroup), Option.bind_eq_some_iff] at hes hfs
    obtain ⟨front, hfront, hes⟩ := hes
    obtain ⟨front', hfront', hfs⟩ := hfs
    obtain rfl : front = front' := Option.some.inj (hfront.symm.trans hfront')
    rw [haroundEq] at hes hfs
    exact haround front (around x) (around y) _ (hsame x y) hes hfs
  · simp only [List.reverse_append, List.reverse_cons, List.append_assoc, List.cons_append,
      List.nil_append, List.map_append, List.map_cons] at hes hfs
    rw [elements?_append (by simp), Option.bind_eq_some_iff] at hes hfs
    obtain ⟨front, hfront, hes⟩ := hes
    obtain ⟨front', hfront', hfs⟩ := hfs
    obtain rfl : front = front' := Option.some.inj (hfront.symm.trans hfront')
    have hcall (z : Tree) : elements? (.operand (.call f z) :: later.reverse.map (·.item)) =
        (elements? (later.reverse.map (·.item))).map ([.operand (.call f z)] ++ ·) :=
      standFor_operand _ _
    rw [hcall] at hes hfs
    exact haround front [.operand (.call f x)] [.operand (.call f y)] _ ⟨rfl, rfl⟩ hes hfs

/-- The trees of items that differ in one group or one call have the same left height. -/
theorem Beside.leftHeight {xs ys : List Nested} {x y : Tree} (h : Beside xs ys)
    (hxs : ∀ i ∈ xs, i.item.isPlain = true) (hys : ∀ i ∈ ys, i.item.isPlain = true)
    (hx : group? (xs.reverse.map (·.item)) = some ⟨[x], false⟩)
    (hy : group? (ys.reverse.map (·.item)) = some ⟨[y], false⟩) : x.leftHeight = y.leftHeight := by
  have hpart : ∀ (zs : List Nested) (z : Tree), (∀ i ∈ zs, i.item.isPlain = true) →
      group? (zs.reverse.map (·.item)) = some ⟨[z], false⟩ →
      ∃ gs, elements? (zs.reverse.map (·.item)) = some gs ∧ tree? (joinAdjacent gs) = some z := by
    intro zs z hplain hz
    have hplain' : ∀ i ∈ zs.reverse.map (·.item), i.isPlain = true := by simpa using hplain
    by_cases hne : zs = []
    · simp [hne, group?, splitAtCommas] at hz
    · rw [group?_of_plain hplain' (by simpa using hne), part?_of_plain hplain'] at hz
      simp only [Option.map_eq_some_iff, Option.bind_eq_some_iff, Group.mk.injEq, List.cons.injEq,
        and_true] at hz
      obtain ⟨_, ⟨gs, hgs, htree⟩, rfl⟩ := hz
      exact ⟨gs, hgs, htree⟩
  obtain ⟨es, hes, hx⟩ := hpart xs x hxs hx
  obtain ⟨fs, hfs, hy⟩ := hpart ys y hys hy
  obtain ⟨hops, hfirst⟩ := h.elements hes hfs
  exact tree?_leftHeight (joinAdjacent_operators hops)
    (by rw [firstHeight_joinAdjacent, firstHeight_joinAdjacent, hfirst]) hx hy

end elements

end DeskCalc.Formula
