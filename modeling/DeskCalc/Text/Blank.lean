import DeskCalc.Text.Basic

/-!
# Blanks

The characters that separate words: spaces of every width, tabs, the ends of lines and paragraphs,
and the four information separators. White space is what remains without the separators.
-/

namespace DeskCalc.Text

/-- The code points of the blanks, as ranges with both ends. -/
def blankRanges : List (Nat × Nat) :=
  [(0x9, 0xd), (0x1c, 0x20), (0x85, 0x85), (0xa0, 0xa0), (0x1680, 0x1680), (0x2000, 0x200a),
    (0x2028, 0x2029), (0x202f, 0x202f), (0x205f, 0x205f), (0x3000, 0x3000)]

def isBlank (c : Char) : Bool :=
  blankRanges.any fun (low, high) => low ≤ c.toNat ∧ c.toNat ≤ high

/-- A blank that is no information separator. -/
def isWhiteSpace (c : Char) : Bool := isBlank c && !(0x1c ≤ c.toNat && c.toNat ≤ 0x1f)

/-- The text without the characters of a class at both ends. -/
def trim (isSpace : Char → Bool) (t : Text) : Text :=
  ((t.dropWhile isSpace).reverse.dropWhile isSpace).reverse

/-- The text without the blanks at both ends. -/
def strip (t : Text) : Text := t.trim isBlank

section trim

variable {isSpace : Char → Bool}

theorem dropWhile_append_eq {spaces t : Text} (hspaces : ∀ c ∈ spaces, isSpace c = true)
    (hfirst : ∀ c, t.head? = some c → isSpace c = false) :
    (spaces ++ t).dropWhile isSpace = t := by
  rw [List.dropWhile_append_of_pos hspaces]
  cases t with
  | nil => rfl
  | cons c t => simp [hfirst c rfl]

/-- A text that begins and ends outside a class is what remains when characters of the class around
it are taken off. -/
theorem trim_append {before t after : Text} (hbefore : ∀ c ∈ before, isSpace c = true)
    (hafter : ∀ c ∈ after, isSpace c = true) (hfirst : ∀ c, t.head? = some c → isSpace c = false)
    (hlast : ∀ c, t.getLast? = some c → isSpace c = false) :
    (before ++ t ++ after).trim isSpace = t := by
  cases t with
  | nil =>
    have hall : (after ++ []).dropWhile isSpace = [] := dropWhile_append_eq hafter nofun
    rw [List.append_nil] at hall
    rw [trim, List.append_nil, List.dropWhile_append_of_pos hbefore, hall]
    rfl
  | cons c t =>
    have hleft : (before ++ (c :: t ++ after)).dropWhile isSpace = c :: t ++ after :=
      dropWhile_append_eq hbefore fun d hd => hfirst d hd
    have hright : (after.reverse ++ (c :: t).reverse).dropWhile isSpace = (c :: t).reverse :=
      dropWhile_append_eq (fun d hd => hafter d (List.mem_reverse.mp hd)) fun d hd =>
        hlast d (by rwa [List.head?_reverse] at hd)
    rw [trim, List.append_assoc, hleft, List.reverse_append, hright, List.reverse_reverse]

/-- A text with no blanks at its ends is left as it is. -/
theorem strip_eq {t : Text} (hfirst : ∀ c, t.head? = some c → isBlank c = false)
    (hlast : ∀ c, t.getLast? = some c → isBlank c = false) : t.strip = t := by
  have htrim : trim isBlank ([] ++ t ++ []) = t := trim_append (by simp) (by simp) hfirst hlast
  rwa [List.nil_append, List.append_nil] at htrim

end trim

end DeskCalc.Text
