import DeskCalc.Formula.Reader
import Mathlib.Data.List.Basic

/-!
# Precedence

The layers of operators resolve an expression from the tightest to the loosest. An operator
that none of the first layers has keeps what stands left and right of it apart through all of
them, so the outline of an expression after so many layers is put together from the outlines
of its two sides.
-/

namespace DeskCalc.Formula

section operands

/-- Operands and operators that are complete may be continued with more of them. -/
theorem operands?_append (es fs : List Element) :
    (∀ signs x ps, operands? signs es = some (x, ps) →
      operands? signs (es ++ fs) = (moreOperands? fs).map fun qs => (x, ps ++ qs)) ∧
    ∀ ps, moreOperands? es = some ps →
      moreOperands? (es ++ fs) = (moreOperands? fs).map (ps ++ ·) := by
  induction es with
  | nil =>
    refine ⟨fun signs x ps h => by simp [operands?] at h, fun ps h => ?_⟩
    simp only [moreOperands?, Option.some.injEq] at h
    simp [← h]
  | cons e es ih =>
    obtain ⟨ihOperands, ihMore⟩ := ih
    constructor
    · intro signs x ps h
      cases e with
      | operand y =>
        simp only [operands?, Option.bind_eq_bind, Option.pure_def, Option.bind_eq_some_iff,
          Option.some.injEq, Prod.mk.injEq] at h
        obtain ⟨qs, hqs, rfl, rfl⟩ := h
        simp only [List.cons_append, operands?, ihMore _ hqs]
        cases moreOperands? fs <;> rfl
      | op o =>
        simp only [operands?, Option.bind_eq_bind, Option.bind_eq_some_iff] at h
        obtain ⟨s, hs, h⟩ := h
        simp [operands?, hs, ihOperands _ _ _ h]
    · intro ps h
      cases e with
      | operand y => simp [moreOperands?] at h
      | op o =>
        by_cases ho : isBinary o
        · simp only [moreOperands?, ho, if_true, Option.bind_eq_bind, Option.pure_def,
            Option.bind_eq_some_iff, Option.some.injEq, Prod.exists] at h
          obtain ⟨y, qs, hy, rfl⟩ := h
          simp only [List.cons_append, moreOperands?, ho, if_true, ihOperands _ _ _ hy]
          cases moreOperands? fs <;> rfl
        · simp [moreOperands?, ho] at h

/-- The signs read before an operand come before its own. -/
theorem operands?_signs (es : List Element) (signs before : List Sign) :
    operands? (signs ++ before) es = (operands? signs es).map fun (x, ps) =>
      (⟨before.reverse ++ x.signs, x.operand⟩, ps) := by
  induction es generalizing signs with
  | nil => simp [operands?]
  | cons e es ih =>
    cases e with
    | operand y =>
      simp only [operands?]
      cases moreOperands? es <;> simp
    | op o =>
      simp only [operands?]
      cases sign? o with
      | none => rfl
      | some s => exact ih (s :: signs)

end operands

section layers

variable {o : Operator} {ops : List Operator}

/-- The operators that are left once powers are resolved. -/
theorem powers_operators (x : Signed) (ps : List (Operator × Signed)) :
    (powers x ps).2.map (·.1) = (ps.map (·.1)).filter (· ≠ .power) := by
  induction ps generalizing x with
  | nil => rfl
  | cons p ps ih =>
    obtain ⟨o, y⟩ := p
    by_cases ho : o = .power <;> simp [powers, ho, ih]

/-- The operators that are left once one layer is resolved. -/
theorem layer_operators (ops : List Operator) (x : Tree) (ps : List (Operator × Tree)) :
    (layer ops x ps).2.map (·.1) = (ps.map (·.1)).filter (· ∉ ops) := by
  induction ps generalizing x with
  | nil => rfl
  | cons p ps ih =>
    obtain ⟨o, y⟩ := p
    by_cases ho : o ∈ ops <;> simp [layer, ho, ih]

theorem powers_split (ho : o ≠ .power) (x y : Signed) (ps qs : List (Operator × Signed)) :
    powers x (ps ++ (o, y) :: qs) =
      ((powers x ps).1, (powers x ps).2 ++ (o, (powers y qs).1) :: (powers y qs).2) := by
  induction ps generalizing x with
  | nil => simp [powers, ho]
  | cons p ps ih =>
    obtain ⟨o', z⟩ := p
    simp only [List.cons_append, powers, ih]
    split <;> rfl

private theorem powers_sign (s : Sign) (x : Signed) (ps : List (Operator × Signed)) :
    powers ⟨s :: x.signs, x.operand⟩ ps = (.signed s (powers x ps).1, (powers x ps).2) := by
  cases ps with
  | nil => rfl
  | cons p ps =>
    simp only [powers]
    split <;> rfl

private theorem layer_split (ho : o ∉ ops) (x y : Tree) (ps qs : List (Operator × Tree)) :
    layer ops x (ps ++ (o, y) :: qs) =
      ((layer ops x ps).1, (layer ops x ps).2 ++
      (o, (layer ops y qs).1) :: (layer ops y qs).2) := by
  induction ps generalizing x with
  | nil => simp [layer, ho]
  | cons p ps ih =>
    obtain ⟨o', z⟩ := p
    simp only [List.cons_append, layer]
    split
    · exact ih _
    · rw [ih]; rfl

theorem layer_append {x t : Tree} {ps : List (Operator × Tree)} (h : layer ops x ps = (t, []))
    (qs : List (Operator × Tree)) : layer ops x (ps ++ qs) = layer ops t qs := by
  induction ps generalizing x with
  | nil =>
    simp only [layer, Prod.mk.injEq, and_true] at h
    rw [List.nil_append, h]
  | cons p ps ih =>
    obtain ⟨o', z⟩ := p
    simp only [layer] at h
    simp only [List.cons_append, layer]
    split at h
    · next ho => rw [if_pos ho]; exact ih h
    · simp at h

private theorem layer_nil (ops : List Operator) (x : Tree) : layer ops x [] = (x, []) := by
  rw [layer]

/-- Resolves the given layers, one after the other. -/
def resolve (ls : List (List Operator)) (r : Tree × List (Operator × Tree)) :
    Tree × List (Operator × Tree) :=
  ls.foldl (fun (x, rest) ops => layer ops x rest) r

private theorem resolve_nil (ls : List (List Operator)) (x : Tree) :
    resolve ls (x, []) = (x, []) := by
  induction ls with
  | nil => rfl
  | cons ops ls ih => simpa [resolve, layer_nil] using ih

private theorem resolve_split {ls : List (List Operator)} (ho : ∀ ops ∈ ls, o ∉ ops)
    (r s : Tree × List (Operator × Tree)) :
    resolve ls (r.1, r.2 ++ (o, s.1) :: s.2) =
      ((resolve ls r).1, (resolve ls r).2 ++ (o, (resolve ls s).1) :: (resolve ls s).2) := by
  induction ls generalizing r s with
  | nil => rfl
  | cons ops ls ih =>
    have hlayer := layer_split (ho ops List.mem_cons_self) r.1 s.1 r.2 s.2
    have hls := ih (fun ops' h => ho ops' (List.mem_cons_of_mem ops h)) (layer ops r.1 r.2)
      (layer ops s.1 s.2)
    simpa [resolve, hlayer] using hls

end layers

/-- What an expression looks like once powers and the given layers are resolved. -/
def outline? (ls : List (List Operator)) (es : List Element) :
    Option (Tree × List (Operator × Tree)) :=
  (operands? [] es).map fun (x, rest) => resolve ls (powers x rest)

section outline

variable {ls ms : List (List Operator)} {es fs : List Element} {o : Operator}
variable {r s : Tree × List (Operator × Tree)}

theorem outline?_operand (ls : List (List Operator)) (x : Tree) :
    outline? ls [.operand x] = some (x, []) := by
  simp [outline?, operands?, moreOperands?, powers, applySigns, resolve_nil]

private theorem outline?_op (hpower : o ≠ .power) (hbinary : isBinary o = true)
    (ho : ∀ ops ∈ ls, o ∉ ops) (hes : outline? ls es = some r) (hfs : outline? ls fs = some s) :
    outline? ls (es ++ .op o :: fs) = some (r.1, r.2 ++ (o, s.1) :: s.2) := by
  simp only [outline?, Option.map_eq_some_iff, Prod.exists] at hes hfs
  obtain ⟨x, ps, hx, rfl⟩ := hes
  obtain ⟨y, qs, hy, rfl⟩ := hfs
  have hmore : moreOperands? (.op o :: fs) = some ((o, y) :: qs) := by
    simp [moreOperands?, hbinary, hy]
  simp only [outline?, (operands?_append es _).1 _ _ _ hx, hmore, Option.map_some]
  rw [powers_split hpower, ← resolve_split ho]

/-- Resolving one layer more. -/
theorem outline?_layer (ls : List (List Operator)) (ops : List Operator) (es : List Element) :
    outline? (ls ++ [ops]) es = (outline? ls es).map fun r => layer ops r.1 r.2 := by
  simp only [outline?, Option.map_map]
  congr 1
  funext r
  simp [resolve]

theorem outline?_weaken {x : Tree} (h : outline? ls es = some (x, [])) (ops : List Operator) :
    outline? (ls ++ [ops]) es = some (x, []) := by
  rw [outline?_layer, h, Option.map_some, layer_nil]

/-- An operator of a layer applies to all that stands left of it and is bound no looser, and to what
stands right of it up to the next operator of the layer. -/
theorem outline?_binary {ops : List Operator} {x y : Tree} (hmem : o ∈ ops) (hpower : o ≠ .power)
    (hbinary : isBinary o = true) (ho : ∀ ops ∈ ls, o ∉ ops)
    (hes : outline? (ls ++ [ops]) es = some (x, [])) (hfs : outline? ls fs = some (y, [])) :
    outline? (ls ++ [ops]) (es ++ .op o :: fs) = some (.binary o x y, []) := by
  rw [outline?_layer, Option.map_eq_some_iff] at hes
  obtain ⟨r, hr, hlayer⟩ := hes
  rw [outline?_layer, outline?_op hpower hbinary ho hr hfs, Option.map_some, layer_append hlayer,
    layer, if_pos hmem, layer_nil]

/-- A sign applies to the first operand and its power. -/
theorem outline?_sign {s : Sign} (hs : sign? o = some s) (es : List Element) :
    outline? [] (.op o :: es) = (outline? [] es).map fun r => (.signed s r.1, r.2) := by
  have hsigns := operands?_signs es [] [s]
  simp only [List.nil_append, List.reverse_singleton, List.singleton_append] at hsigns
  simp only [outline?, operands?, hs, Option.bind_eq_bind, Option.bind_some, hsigns, Option.map_map]
  congr 1
  funext r
  exact powers_sign s r.1 r.2

/-- The tree of an expression that resolves completely. -/
theorem tree?_of_outline {x : Tree} (h : outline? layers es = some (x, [])) :
    tree? es = some x := by
  simp only [outline?, Option.map_eq_some_iff, Prod.exists] at h
  obtain ⟨y, rest, hy, h⟩ := h
  simp only [resolve] at h
  simp [tree?, hy, h]

end outline

end DeskCalc.Formula
