import DeskCalc.Proofs.Buffer.Numbers
import DeskCalc.Proofs.Page.Clicks

/-!
# Typing a text

Most keys insert the one character that is on them. Pressed one after another into an empty buffer,
they write exactly the coherent texts. Of any other text the characters are left out that the text
kept so far refuses, and the next key meets what is left.
-/

namespace DeskCalc

/-- The characters that have a key of their own, except for the power, which opens parentheses. -/
def Keypad.characters : Text := text "!π789/(456*)123-e0.+"

/-- The character that a command types, if it presses a key of one character. -/
def Command.character? : Command → Option Char
  | .press [c] false none => some c
  | _ => none

private theorem Command.character?_eq_some_iff {command : Command} {c : Char} :
    command.character? = some c ↔ command = .press [c] false none := by
  unfold character?
  split <;> simp_all

/-- The keys of one character are on the keypad, beside the one of the power. -/
theorem Command.press_mem_keypad_iff {c : Char} :
    .press [c] false none ∈ keypad ↔ c = '^' ∨ c ∈ Keypad.characters := by
  have hkeys : keypad.filterMap character? = '^' :: Keypad.characters := by decide +kernel
  rw [← List.mem_cons, ← hkeys, List.mem_filterMap]
  simp [character?_eq_some_iff]

namespace Buffer

variable {t w : Text} {c : Char}

/-- A text with the characters of another behind it, leaving out each that breaks a rule against
what has been kept. -/
def keepCoherent (t : Text) : Text → Text
  | [] => t
  | c :: w => keepCoherent (if Coherent (t ++ [c]) then t ++ [c] else t) w

private theorem length_keepCoherent_le (t w : Text) :
    (keepCoherent t w).length ≤ t.length + w.length := by
  induction w generalizing t with
  | nil => exact Nat.le_refl _
  | cons c w ih =>
    have hkept : (if Coherent (t ++ [c]) then t ++ [c] else t).length ≤ t.length + 1 := by
      split <;> simp
    have hrest := ih (if Coherent (t ++ [c]) then t ++ [c] else t)
    rw [keepCoherent, List.length_cons]
    omega

/-- Nothing is left out of a text exactly if it is coherent. -/
theorem keepCoherent_eq_append_iff (ht : Coherent t) :
    keepCoherent t w = t ++ w ↔ Coherent (t ++ w) := by
  induction w generalizing t with
  | nil => simpa [keepCoherent] using ht
  | cons c w ih =>
    rw [keepCoherent]
    split
    · next hc =>
      rw [List.append_cons t c w]
      exact ih hc
    · next hc =>
      -- a text that misses a character is too short, and an end cannot be mended behind
      refine iff_of_false (fun hall => ?_) fun hall => hc (hall.of_isInfix ?_)
      · have hlength := length_keepCoherent_le t w
        rw [hall, List.length_append, List.length_cons] at hlength
        omega
      · rw [List.append_cons t c w]
        exact (List.prefix_append (t ++ [c]) w).isInfix

private theorem insertAt_end (ht : t ≠ errorSentinel) (hc : c ≠ '^') :
    insertAt t [c] false t.length =
      if refuses t [c] then (t, t.length) else (t ++ [c], (t ++ [c]).length) := by
  have hinsertion : insertion [c] false = ([c], 1) := by
    simp [insertion, Keypad.exponentSuffixes, Keypad.power, text, hc]
  rcases insertAt_cases t [c] false t.length with ⟨hrefused, hinsert⟩ | ⟨hrefused, hinsert⟩ <;>
    rw [hinsert] <;>
    simp only [prior, priorCaret, if_neg ht, List.take_length, List.drop_length, List.append_nil,
      hinsertion] at hrefused ⊢ <;>
    simp [hrefused]

end Buffer

namespace Session

open Buffer

def keysOf (w : Text) : List Command := w.map fun c => .press [c] false none

private theorem press_end {s : Session} {t : Text} {c : Char} (hbuffer : s.screen.buffer = t)
    (hcursor : s.screen.cursor = t.length) (ht : Coherent t)
    (htyped : ∀ d ∈ t, d ∈ Keypad.characters) (hc : c ∈ Keypad.characters) (store : Store) :
    let screen := (s.press [c] false none store).session.screen
    screen.buffer = (if Coherent (t ++ [c]) then t ++ [c] else t) ∧
      screen.cursor = screen.buffer.length := by
  intro screen
  have hfailure : t ≠ errorSentinel := by
    rintro rfl
    exact absurd (htyped 'E' (by decide)) (by decide)
  have hpower : c ≠ '^' := by
    rintro rfl
    exact absurd hc (by decide)
  have hinside : s.CaretInside := caretInside_of_eq_length (by rw [hbuffer, hcursor])
  have hpress := press_at_caret s store hinside [c] false
  rw [hbuffer, hcursor, Int.toNat_natCast, insertAt_end hfailure hpower] at hpress
  simp only [screen, hpress, update, coherent_concat_iff, ht, true_and]
  cases refuses t [c] <;> exact ⟨rfl, rfl⟩

private theorem runAll_keysOf [Stack] {s : Session} {t w : Text} (hbuffer : s.screen.buffer = t)
    (hcursor : s.screen.cursor = t.length) (ht : Coherent t)
    (htyped : ∀ c ∈ t, c ∈ Keypad.characters) (hw : ∀ c ∈ w, c ∈ Keypad.characters)
    (store : Store) :
    let screen := (s.runAll store (keysOf w)).1.screen
    screen.buffer = keepCoherent t w ∧ screen.cursor = (keepCoherent t w).length := by
  intro screen
  induction w generalizing s t store with
  | nil => exact ⟨hbuffer, hcursor⟩
  | cons c w ih =>
    have hc : c ∈ Keypad.characters := hw c List.mem_cons_self
    have hrest : ∀ d ∈ w, d ∈ Keypad.characters := fun d hd => hw d (List.mem_cons_of_mem c hd)
    obtain ⟨hafter, hend⟩ := press_end hbuffer hcursor ht htyped hc store
    rw [hafter] at hend
    refine ih hafter hend ?_ ?_ hrest _
    · split
      · assumption
      · exact ht
    · intro d hd
      split at hd
      · rcases List.mem_append.mp hd with hd | hd
        · exact htyped d hd
        · rwa [List.mem_singleton.mp hd]
      · exact htyped d hd

/-- The keys of one character, pressed into an empty buffer, write a text exactly if it is coherent.
What they write of any text is what is left of it when each character is left out that breaks a rule
against the text kept so far, and the caret stands at its end. -/
theorem typed_text [Stack] {s : Session} (hbuffer : s.screen.buffer = [])
    (hcursor : s.screen.cursor = 0) {w : Text} (hw : ∀ c ∈ w, c ∈ Keypad.characters)
    (store : Store) :
    let screen := (s.runAll store (keysOf w)).1.screen
    ((screen.buffer = w ∧ screen.cursor = w.length) ↔ Coherent w) ∧
      screen.buffer = keepCoherent [] w ∧ screen.cursor = screen.buffer.length := by
  intro screen
  obtain ⟨hkept, hend⟩ := runAll_keysOf hbuffer hcursor coherent_nil (by simp) hw store
  have hcursor : screen.cursor = screen.buffer.length := by rw [hend, hkept]
  have hall : screen.buffer = w ↔ Coherent w := by
    rw [hkept]
    exact keepCoherent_eq_append_iff coherent_nil
  refine ⟨⟨fun h => hall.mp h.1, fun h => ?_⟩, hkept, hcursor⟩
  have hwritten := hall.mpr h
  exact ⟨hwritten, by rw [hcursor, hwritten]⟩

attribute [local instance] Stack.shallow

/-- Of `1.2.3+*4` the second point and the second operator are left out. -/
theorem typed_text_of_sum :
    ∃ s : Session, start 15 .degrees (.memory none none) = .ok s ∧
      (s.runAll (.memory none none) (keysOf (text "1.2.3+*4"))).1.screen.buffer =
      text "1.23+4" := by
  refine ⟨_, rfl, ?_⟩
  have hkept : keepCoherent [] (text "1.2.3+*4") = text "1.23+4" := by decide +kernel
  rw [← hkept]
  exact (typed_text rfl rfl (by decide) _).2.1

end Session

end DeskCalc
