import DeskCalc.Text.Basic

/-!
# Stored texts

A text that is kept in a document may hold something that is no character: one half of a pair of
code units, standing alone. It is read and kept like a character, but nothing can be encoded that
holds one.
-/

namespace DeskCalc

/-- What stands at one place of a stored text. -/
inductive DocChar where
  | char (c : Char)
  /-- Half of a pair of code units without the other half. -/
  | half (unit : Nat)
  deriving DecidableEq

/-- A text in a document. -/
abbrev DocText := List DocChar

namespace DocText

/-- A plain text, in a document. -/
def ofText (t : Text) : DocText := t.map .char

/-- The plain text that a text in a document is, unless it holds half of a pair. -/
def text? : DocText → Option Text
  | [] => some []
  | .char c :: rest => (text? rest).map (c :: ·)
  | .half _ :: _ => none

@[simp]
theorem text?_ofText (t : Text) : text? (ofText t) = some t := by
  induction t with
  | nil => rfl
  | cons c cs ih =>
    rw [ofText] at ih
    rw [ofText, List.map_cons, text?, ih]
    rfl

/-- Whether a text holds no half of a pair. -/
def isPlain (s : DocText) : Bool := s.text?.isSome

theorem text?_eq_some_iff {s : DocText} {t : Text} : s.text? = some t ↔ s = ofText t := by
  constructor
  · intro h
    induction s generalizing t with
    | nil =>
      obtain rfl := Option.some.inj h
      rfl
    | cons c s ih =>
      cases c with
      | char c =>
        obtain ⟨u, hu, rfl⟩ := Option.map_eq_some_iff.mp h
        rw [ih hu]
        rfl
      | half unit => simp [text?] at h
  · rintro rfl
    exact text?_ofText t

@[simp]
theorem isPlain_ofText (t : Text) : (ofText t).isPlain = true := by
  rw [isPlain, text?_ofText]
  rfl

theorem isPlain_iff {s : DocText} : s.isPlain = true ↔ ∃ t, s = ofText t :=
  Option.isSome_iff_exists.trans (exists_congr fun _ => text?_eq_some_iff)

theorem ofText_injective : Function.Injective ofText := fun t u h => by
  have htext := congrArg text? h
  rwa [text?_ofText, text?_ofText, Option.some.injEq] at htext

end DocText

end DeskCalc
