import DeskCalc.Proofs.Formula.Reading

/-!
# How deep the first operand stands

How many operators and signs stand around the first operand of an expression depends on the
operators of the expression alone. The operands count only in so far as the first one is an
expression itself.
-/

namespace DeskCalc

/-- How many operators and signs stand around the first operand of a tree; calls hide theirs. -/
def Tree.leftHeight : Tree → Nat
  | binary _ x _ => x.leftHeight + 1
  | signed _ x => x.leftHeight + 1
  | _ => 0

namespace Formula

/-- The operator that an element is. -/
def Element.operator? : Element → Option Operator
  | .op o => some o
  | .operand _ => none

/-- The left height of the first operand. -/
def firstHeight : List Element → Option Nat
  | [] => none
  | .operand x :: _ => some x.leftHeight
  | .op _ :: es => firstHeight es

section operands

variable {es fs : List Element} {x y : Signed} {ps qs : List (Operator × Signed)}

private theorem firstHeight_operands? {signs : List Sign} (h : operands? signs es = some (x, ps)) :
    firstHeight es = some x.operand.leftHeight := by
  induction es generalizing signs with
  | nil => simp [operands?] at h
  | cons e es ih =>
    cases e with
    | operand z =>
      simp only [operands?, Option.bind_eq_bind, Option.pure_def, Option.bind_eq_some_iff,
        Option.some.injEq, Prod.mk.injEq] at h
      obtain ⟨_, -, rfl, -⟩ := h
      rfl
    | op o =>
      simp only [operands?, Option.bind_eq_bind, Option.bind_eq_some_iff] at h
      obtain ⟨s, -, h⟩ := h
      exact ih h

/-- The signs of the first operand and the operators after it depend on the operators alone. -/
private theorem operands?_operators (es fs : List Element)
    (h : es.map Element.operator? = fs.map Element.operator?) :
    (∀ signs x y ps qs, operands? signs es = some (x, ps) → operands? signs fs = some (y, qs) →
      x.signs = y.signs ∧ ps.map (·.1) = qs.map (·.1)) ∧
    ∀ ps qs, moreOperands? es = some ps → moreOperands? fs = some qs →
      ps.map (·.1) = qs.map (·.1) := by
  induction es generalizing fs with
  | nil =>
    obtain rfl : fs = [] := by simpa using h.symm
    refine ⟨fun signs x y ps qs hx => by simp [operands?] at hx, fun ps qs hp hq => ?_⟩
    rw [hp, Option.some.injEq] at hq
    rw [hq]
  | cons e es ih =>
    cases fs with
    | nil => simp at h
    | cons f fs =>
      simp only [List.map_cons, List.cons.injEq] at h
      obtain ⟨hhead, htail⟩ := h
      obtain ⟨ihOperands, ihMore⟩ := ih fs htail
      cases e with
      | operand z =>
        cases f with
        | op o => simp [Element.operator?] at hhead
        | operand w =>
          refine ⟨fun signs x y ps qs hx hy => ?_, fun ps qs hp => by simp [moreOperands?] at hp⟩
          simp only [operands?, Option.bind_eq_bind, Option.pure_def, Option.bind_eq_some_iff,
            Option.some.injEq, Prod.mk.injEq] at hx hy
          obtain ⟨_, hps, rfl, rfl⟩ := hx
          obtain ⟨_, hqs, rfl, rfl⟩ := hy
          exact ⟨rfl, ihMore _ _ hps hqs⟩
      | op o =>
        cases f with
        | operand w => simp [Element.operator?] at hhead
        | op o' =>
          obtain rfl : o = o' := by simpa [Element.operator?] using hhead
          constructor
          · intro signs x y ps qs hx hy
            simp only [operands?, Option.bind_eq_bind, Option.bind_eq_some_iff] at hx hy
            obtain ⟨s, hs, hx⟩ := hx
            obtain ⟨s', hs', hy⟩ := hy
            obtain rfl : s = s' := Option.some.inj (hs.symm.trans hs')
            exact ihOperands _ _ _ _ _ hx hy
          · intro ps qs hp hq
            by_cases ho : isBinary o
            · simp only [moreOperands?, ho, if_true, Option.bind_eq_bind, Option.pure_def,
                Option.bind_eq_some_iff, Option.some.injEq, Prod.exists] at hp hq
              obtain ⟨z, _, hz, rfl⟩ := hp
              obtain ⟨w, _, hw, rfl⟩ := hq
              simp only [List.map_cons, (ihOperands _ _ _ _ _ hz hw).2]
            · simp [moreOperands?, ho] at hp

end operands

/-- Expressions, partly resolved, with the same operators around a first operand equally deep. -/
def SameHeight (r s : Tree × List (Operator × Tree)) : Prop :=
  r.1.leftHeight = s.1.leftHeight ∧ r.2.map (·.1) = s.2.map (·.1)

private theorem applySigns_leftHeight (signs : List Sign) (x : Tree) :
    (applySigns signs x).leftHeight = signs.length + x.leftHeight := by
  induction signs with
  | nil => simp [applySigns]
  | cons s signs ih =>
    have hcons : applySigns (s :: signs) x = .signed s (applySigns signs x) := rfl
    rw [hcons, Tree.leftHeight, ih, List.length_cons]
    omega

private theorem powers_sameHeight {x y : Signed} {ps qs : List (Operator × Signed)}
    (hsigns : x.signs = y.signs) (hheight : x.operand.leftHeight = y.operand.leftHeight)
    (hops : ps.map (·.1) = qs.map (·.1)) : SameHeight (powers x ps) (powers y qs) := by
  refine ⟨?_, by rw [powers_operators, powers_operators, hops]⟩
  cases ps with
  | nil =>
    obtain rfl : qs = [] := by simpa using hops.symm
    simp only [powers, applySigns_leftHeight, hsigns, hheight]
  | cons p ps =>
    cases qs with
    | nil => simp at hops
    | cons q qs =>
      obtain ⟨o, z⟩ := p
      obtain ⟨o', w⟩ := q
      simp only [List.map_cons, List.cons.injEq] at hops
      obtain ⟨rfl, -⟩ := hops
      simp only [powers]
      split <;> simp only [applySigns_leftHeight, Tree.leftHeight, hsigns, hheight]

private theorem layer_sameHeight (ops : List Operator) {x y : Tree} {ps qs : List (Operator × Tree)}
    (h : SameHeight (x, ps) (y, qs)) : SameHeight (layer ops x ps) (layer ops y qs) := by
  refine ⟨?_, by rw [layer_operators, layer_operators, h.2]⟩
  induction ps generalizing x y qs with
  | nil =>
    obtain rfl : qs = [] := by simpa using h.2.symm
    exact h.1
  | cons p ps ih =>
    cases qs with
    | nil => simp [SameHeight] at h
    | cons q qs =>
      obtain ⟨o, z⟩ := p
      obtain ⟨o', w⟩ := q
      obtain ⟨hheight, hops⟩ := h
      simp only [List.map_cons, List.cons.injEq] at hheight hops
      obtain ⟨rfl, hops⟩ := hops
      simp only [layer]
      split
      · exact ih ⟨congrArg (· + 1) hheight, hops⟩
      · exact hheight

private theorem resolve_sameHeight (ls : List (List Operator)) {r s : Tree × List (Operator × Tree)}
    (h : SameHeight r s) : SameHeight (resolve ls r) (resolve ls s) := by
  induction ls generalizing r s with
  | nil => exact h
  | cons ops ls ih => exact ih (layer_sameHeight ops h)

/-- The left height of a tree depends on the operators and on the first operand. -/
theorem tree?_leftHeight {es fs : List Element} {x y : Tree}
    (hops : es.map Element.operator? = fs.map Element.operator?)
    (hfirst : firstHeight es = firstHeight fs) (hx : tree? es = some x) (hy : tree? fs = some y) :
    x.leftHeight = y.leftHeight := by
  simp only [tree?, Option.bind_eq_bind, Option.bind_eq_some_iff, Prod.exists] at hx hy
  obtain ⟨z, ps, hz, hx⟩ := hx
  obtain ⟨w, qs, hw, hy⟩ := hy
  obtain ⟨hsigns, hrest⟩ := (operands?_operators es fs hops).1 _ _ _ _ _ hz hw
  have hheight : z.operand.leftHeight = w.operand.leftHeight := by
    rw [firstHeight_operands? hz, firstHeight_operands? hw, Option.some.injEq] at hfirst
    exact hfirst
  have hresolve := resolve_sameHeight layers (powers_sameHeight hsigns hheight hrest)
  obtain ⟨hleft, hleftOps⟩ := hresolve
  rcases hr : resolve layers (powers z ps) with ⟨u, us⟩
  rcases hs : resolve layers (powers w qs) with ⟨v, vs⟩
  rw [hr, hs] at hleft hleftOps
  simp only [resolve] at hr hs
  rw [hr] at hx
  rw [hs] at hy
  simp only at hleft hleftOps
  split at hx
  · next heq =>
    obtain ⟨rfl, rfl⟩ := Prod.mk.inj heq
    obtain rfl : vs = [] := by simpa using hleftOps.symm
    simp only [Option.some.injEq] at hx hy
    rw [← hx, ← hy, hleft]
  · next heq =>
    obtain ⟨rfl, rfl⟩ := Prod.mk.inj heq
    split at hy
    · next heq' =>
      obtain ⟨rfl, rfl⟩ := Prod.mk.inj heq'
      simp at hleftOps
    · next heq' =>
      obtain ⟨rfl, rfl⟩ := Prod.mk.inj heq'
      simp only [Option.some.injEq] at hx hy
      simp [← hx, ← hy, Tree.leftHeight, hleft]
    · simp at hy
  · simp at hx

theorem joinAdjacent_operators {es fs : List Element}
    (h : es.map Element.operator? = fs.map Element.operator?) :
    (joinAdjacent es).map Element.operator? = (joinAdjacent fs).map Element.operator? := by
  induction es generalizing fs with
  | nil =>
    obtain rfl : fs = [] := by simpa using h.symm
    rfl
  | cons e es ih =>
    cases fs with
    | nil => simp at h
    | cons f fs =>
      simp only [List.map_cons, List.cons.injEq] at h
      obtain ⟨hhead, htail⟩ := h
      have hrest := ih htail
      cases e <;> cases f <;>
        simp only [Element.operator?, reduceCtorEq, Option.some.injEq] at hhead
      · -- two operands side by side are joined on both sides
        cases es with
        | nil =>
          obtain rfl : fs = [] := by simpa using htail.symm
          rfl
        | cons e' es =>
          cases fs with
          | nil => simp at htail
          | cons f' fs =>
            have hhead' := (List.cons.inj htail).1
            cases e' <;> cases f' <;>
              simp only [Element.operator?, reduceCtorEq, Option.some.injEq] at hhead' <;>
              simpa [joinAdjacent, Element.operator?] using hrest
      · simp [joinAdjacent, hrest, hhead, Element.operator?]

theorem firstHeight_joinAdjacent (es : List Element) :
    firstHeight (joinAdjacent es) = firstHeight es := by
  fun_induction joinAdjacent es with
  | case1 x y rest ih => rfl
  | case2 e rest _ ih =>
    cases e with
    | operand x => rfl
    | op o => exact ih
  | case3 => rfl

end Formula

end DeskCalc
