import DeskCalc.Proofs.Degrees.Terms
import DeskCalc.Proofs.Formula.Frames

/-!
# Reading an argument without parentheses

A text without parentheses is read as operands and operators of which no operand is a sum, and
parentheses are nested in it no deeper than a factorial needs. So it can be read as the argument of
a call, with and without the factor that takes it from degrees to radians, and with and without
parentheses of its own.
-/

namespace DeskCalc.Formula

-- The empty sum meant here is the numeral zero, whatever else is in scope.
attribute [local instance (high)] Zero.ofOfNat0

/-- Whether an item may stand in a formula without parentheses. -/
def Nested.IsFlat (i : Nested) : Prop :=
  match i.item with
  | .operand x => x.isSum = false
  | .name _ => i.depth = 0
  | .op o => o ∈ keypadOperators
  | _ => False

/-- What has been read of a formula without parentheses. -/
structure Progress.IsFlat (p : Progress) : Prop where
  enclosing : p.enclosing = []
  items : ∀ i ∈ p.items, i.IsFlat ∧ i.depth ≤ 2
  last : ∀ i, p.items.head? = some i → i.depth ≤ 1

section flat

variable {p q : Progress}

private theorem Progress.IsFlat.applyBangs (hp : p.IsFlat) {ys : List Nested}
    (h : Formula.applyBangs p.bangs p.items = some ys) : ∀ i ∈ ys, i.IsFlat ∧ i.depth ≤ 2 := by
  obtain ⟨-, rfl⟩ | ⟨f, last, used, before, x, hitems, hused, rfl⟩ := applyBangs_cases h
  · exact hp.items
  · intro i hi
    rcases List.mem_cons.mp hi with rfl | hi
    · have hlast : last.depth ≤ 1 := hp.last last (by rw [hitems]; rfl)
      refine ⟨rfl, ?_⟩
      rcases hused with rfl | ⟨m, d, rfl⟩
      · simp [deepest, hlast]
      · have hname : d = 0 := (hp.items ⟨.name m, d⟩ (by simp [hitems])).1
        simp [deepest, hlast, hname]
    · exact hp.items i (by simp [hitems, hi])

private theorem Progress.IsFlat.step (hp : p.IsFlat) {next : Option Token} {t : Token}
    (h : p.Step next t q) (hflat : t.isFlat = true) (hplain : t.isPlain = true)
    (hnext : next ≠ some .opening) (hop : ∀ o, t = .op o → o ∈ keypadOperators) : q.IsFlat := by
  cases h with
  | @item _ i items hi hitems =>
    have hitem : i.IsFlat ∧ i.depth ≤ 1 := by
      cases t with
      | number n =>
        obtain rfl := Option.some.inj hi
        exact ⟨rfl, Nat.le_refl 1⟩
      | name s =>
        obtain ⟨m, rfl⟩ | ⟨hopening, -⟩ | ⟨-, rfl⟩ := Token.item?_name hi
        · exact ⟨rfl, Nat.zero_le 1⟩
        · exact absurd hopening hnext
        · exact ⟨rfl, Nat.le_refl 1⟩
      | op o =>
        obtain rfl := Option.some.inj hi
        exact ⟨hop o rfl, Nat.zero_le 1⟩
      | _ => simp [Token.isPlain, Token.item?] at hplain hi
    refine ⟨hp.enclosing, fun j hj => ?_, fun j hj => ?_⟩
    · rcases List.mem_cons.mp hj with rfl | hj
      · exact ⟨hitem.1, Nat.le_succ_of_le hitem.2⟩
      · exact hp.applyBangs hitems j hj
    · rw [List.head?_cons, Option.some.injEq] at hj
      exact hj ▸ hitem.2
  | gap => simp [Token.isPlain] at hplain
  | bang => exact ⟨hp.enclosing, hp.items, hp.last⟩
  | opening => simp [Token.isFlat] at hflat
  | closing => simp [Token.isFlat] at hflat

private theorem Progress.IsFlat.readAll {ts : List Token} (hp : p.IsFlat)
    (hflat : ∀ t ∈ ts, t.isFlat = true) (hplain : ∀ t ∈ ts, t.isPlain = true)
    (hops : ∀ o, .op o ∈ ts → o ∈ keypadOperators) (h : p.readAll ts = some q) : q.IsFlat := by
  refine readAll_induction (fun {p q next t} ht hnext hp hstep => ?_) hp h
  refine hp.step hstep (hflat t ht) (hplain t ht) ?_ fun o ho => hops o (ho ▸ ht)
  -- no group begins in a formula without parentheses
  rintro rfl
  exact absurd (hflat _ (hnext _ rfl)) (by simp [Token.isFlat])

end flat

end DeskCalc.Formula
