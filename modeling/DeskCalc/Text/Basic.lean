/-!
# Text

The calculator edits, rewrites and reads text character by character, so text is a list of
characters; positions in it count characters.
-/

namespace DeskCalc

/-- A text, as the list of its characters. -/
abbrev Text := List Char

/-- The text of a string. -/
def text (s : String) : Text := s.toList

namespace Text

/-- Integers of more digits are neither read nor written in full. -/
def digitLimit : Nat := 4300

/-- Where a position in something of the given length stands. A negative position counts from the
end, and none stands before the start. -/
def position (length : Nat) (i : Int) : Nat :=
  if i < 0 then (length + i).toNat else i.toNat

/-- Whether a text is one of some texts is decided by comparing it with each. -/
instance decidableMem (t : Text) (ts : List Text) : Decidable (t ∈ ts) :=
  List.instDecidableMemOfLawfulBEq t ts

/-- A property of all characters of a text is decided along the text. -/
instance decidableForallMem (p : Char → Prop) [DecidablePred p] (t : Text) :
    Decidable (∀ c, c ∈ t → p c) :=
  List.decidableBAll p t

/-- A property of the one character there may be. -/
instance decidableForallSome (p : Char → Prop) [DecidablePred p] :
    (o : Option Char) → Decidable (∀ c, o = some c → p c)
  | none => isTrue fun _ h => nomatch h
  | some c => decidable_of_iff (p c) ⟨fun h _ hc => Option.some.inj hc ▸ h, fun h => h c rfl⟩

/-- The string that a text spells. -/
def spell (t : Text) : String := String.ofList t

def ofNat (n : Nat) : Text := Nat.toDigits 10 n

def ofInt : Int → Text
  | .ofNat n => ofNat n
  | .negSucc n => '-' :: ofNat (n + 1)

/-- The text without the given character at its end. -/
def trimRight (c : Char) (t : Text) : Text := (t.reverse.dropWhile (· == c)).reverse

end Text

end DeskCalc
