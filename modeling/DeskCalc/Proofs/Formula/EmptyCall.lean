import DeskCalc.Proofs.Formula.Frames

/-!
# Calls without an argument

No function can be called without an argument. Once such a call has been read, it stays among the
items of its group, whatever follows, and the group around it has no tree.
-/

namespace DeskCalc.Formula

/-- Whether a call without an argument stands among the items, given last first. -/
def HasEmptyCall (items : List Nested) : Prop :=
  ∃ later before f c d e,
    items = later ++ ⟨.group ⟨[], c⟩, d⟩ :: ⟨.name (.operation f), e⟩ :: before

section items

variable {xs ys : List Nested}

private theorem elements?_emptyCall (is js : List Item) (f : Operation) (c : Bool) :
    elements? (is ++ .name (.operation f) :: .group ⟨[], c⟩ :: js) = none := by
  rw [elements?_append (by simp)]
  cases elements? is <;> rfl

private theorem HasEmptyCall.cons (h : HasEmptyCall xs) (i : Nested) : HasEmptyCall (i :: xs) := by
  obtain ⟨later, before, f, c, d, e, rfl⟩ := h
  exact ⟨i :: later, before, f, c, d, e, rfl⟩

private theorem HasEmptyCall.applyBangs (h : HasEmptyCall xs) {n : Nat}
    (hys : applyBangs n xs = some ys) : HasEmptyCall ys := by
  obtain ⟨later, before, f, c, d, e, rfl⟩ := h
  by_cases hlater : later = []
  · subst hlater
    by_cases hn : n = 0
    · simp only [Formula.applyBangs, hn, if_true, Option.some.injEq] at hys
      exact hys ▸ ⟨[], before, f, c, d, e, rfl⟩
    · simp only [Formula.applyBangs, hn, if_false, List.nil_append, factorialOf?, List.map_cons,
        List.map_nil, Option.bind_eq_bind, Option.bind_eq_some_iff] at hys
      obtain ⟨_, -, _, ⟨x, hx, -⟩, -⟩ := hys
      have hnone := elements?_emptyCall [] [] f c
      rw [List.nil_append] at hnone
      rw [part?_of_plain (by simp [Item.isPlain]), hnone] at hx
      simp at hx
  · rw [applyBangs_append hlater (by rintro i ⟨rfl⟩ m; simp), Option.map_eq_some_iff] at hys
    obtain ⟨us, -, rfl⟩ := hys
    exact ⟨us, before, f, c, d, e, rfl⟩

private theorem HasEmptyCall.group (h : HasEmptyCall xs) (hxs : ∀ i ∈ xs, i.item.isPlain = true) :
    group? (xs.reverse.map (·.item)) = none := by
  have hplain : ∀ i ∈ xs.reverse.map (·.item), i.isPlain = true := by simpa using hxs
  obtain ⟨later, before, f, c, d, e, rfl⟩ := h
  rw [group?_of_plain hplain (by simp), part?_of_plain hplain]
  have hnone := elements?_emptyCall (before.reverse.map (·.item)) (later.reverse.map (·.item)) f c
  simp only [List.reverse_append, List.reverse_cons, List.append_assoc, List.cons_append,
    List.nil_append, List.map_append, List.map_cons, hnone]
  rfl

end items

namespace Progress

/-- Whether a call without an argument has been read, and what it stands in is not complete. -/
def HasEmptyCall (p : Progress) : Prop := ∃ xs ∈ p.items :: p.enclosing, Formula.HasEmptyCall xs

variable {p q : Progress} {t : Token} {ts : List Token} {next : Option Token}

private theorem HasEmptyCall.applyBangs {us : List Nested} (h : p.HasEmptyCall)
    (hus : applyBangs p.bangs p.items = some us) :
    ∃ xs ∈ us :: p.enclosing, Formula.HasEmptyCall xs := by
  obtain ⟨xs, hxs, h⟩ := h
  rcases List.mem_cons.mp hxs with rfl | hxs
  · exact ⟨us, by simp, h.applyBangs hus⟩
  · exact ⟨xs, by simp [hxs], h⟩

private theorem HasEmptyCall.step (h : p.HasEmptyCall) (hp : p.IsPlain) (hq : p.Step next t q)
    (ht : t.isPlain = true) : q.HasEmptyCall := by
  cases hq with
  | item _ hus =>
    obtain ⟨xs, hxs, hcall⟩ := h.applyBangs hus
    rcases List.mem_cons.mp hxs with rfl | hxs
    · exact ⟨_, List.mem_cons_self, hcall.cons _⟩
    · exact ⟨xs, List.mem_cons_of_mem _ hxs, hcall⟩
  | gap => simp [Token.isPlain] at ht
  | bang => exact h
  | opening hus =>
    obtain ⟨xs, hxs, hcall⟩ := h.applyBangs hus
    exact ⟨xs, List.mem_cons_of_mem _ hxs, hcall⟩
  | @closing us outer enclosing g hus henclosing hg =>
    obtain ⟨xs, hxs, hcall⟩ := h.applyBangs hus
    rcases List.mem_cons.mp hxs with rfl | hxs
    · rw [hcall.group (applyBangs_plain hp.1 hus)] at hg
      simp at hg
    · rw [henclosing] at hxs
      rcases List.mem_cons.mp hxs with rfl | hxs
      · exact ⟨_, List.mem_cons_self, hcall.cons _⟩
      · exact ⟨xs, List.mem_cons_of_mem _ hxs, hcall⟩

private theorem HasEmptyCall.readAll (h : p.HasEmptyCall) (hp : p.IsPlain)
    (hts : ∀ t ∈ ts, t.isPlain = true) (hq : p.readAll ts = some q) : q.HasEmptyCall := by
  have hkeeps := readAll_induction (P := fun q => q.HasEmptyCall ∧ q.IsPlain)
    (fun ht _ ⟨h, hp⟩ hstep => ⟨h.step hp hstep (hts _ ht), hstep.plain hp (hts _ ht)⟩) ⟨h, hp⟩ hq
  exact hkeeps.1

end Progress

end DeskCalc.Formula
