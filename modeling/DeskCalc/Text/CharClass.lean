/-!
# Classes of characters

A class of characters is given by run lengths: how many code points outside the class come first,
how many inside it follow, how many outside, and so on. After the last number all is outside.
-/

namespace DeskCalc

/-- Whether the code point `n` falls into one of the inner runs. -/
def inRuns : List Nat → Nat → Bool
  | gap :: run :: rest, n =>
    if n < gap then false
    else if n < gap + run then true
    else inRuns rest (n - (gap + run))
  | _, _ => false

theorem inRuns_cons (gap run : Nat) (rest : List Nat) (n : Nat) :
    inRuns (gap :: run :: rest) n =
      if n < gap then false else if n < gap + run then true else inRuns rest (n - (gap + run)) :=
  rfl

section membership

variable {class? : Char → Bool} {c x : Char}

theorem ne_of_class (hc : class? c = true) (hx : class? x = false) : c ≠ x := by
  rintro rfl
  rw [hc] at hx
  exact absurd hx (by simp)

theorem not_mem_of_class {s : List Char} (hs : ∀ c ∈ s, class? c = true) (hx : class? x = false) :
    x ∉ s :=
  fun h => ne_of_class (hs x h) hx rfl

end membership

end DeskCalc
