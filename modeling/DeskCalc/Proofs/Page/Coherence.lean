import DeskCalc.Proofs.Page.Clicks

/-!
# Typing on the page

Whoever types on the page and never moves the caret to the left keeps the buffer coherent, with
nothing but closing parentheses behind the caret. Every key of the keypad that opens parentheses
leaves the caret between them, and a text that is brought back from the memory or the history or
comes from the equals key is coherent, with the caret at its end.
-/

namespace DeskCalc

open Buffer

namespace Session

/-- All texts of the session are coherent, and the caret stands where a user who types leaves it. -/
structure IsTyping (s : Session) : Prop where
  texts : s.AllTexts Coherent
  caret : s.CaretInside
  typed : Typed s.screen.buffer s.screen.cursor.toNat

section steps

variable [Stack] {s : Session} {c : Command}

/-- A command that neither edits nor moves the caret leaves the buffer and the caret as they are or
puts the caret at the end. -/
private theorem run_caret (s : Session) (store : Store) (hedits : ¬c.Edits)
    (hmove : ∀ delta, c ≠ .moveCursor delta) :
    let after := (s.run store c).session.screen
    (after.buffer = s.screen.buffer ∧ after.cursor = s.screen.cursor) ∨
      after.cursor = after.buffer.length := by
  intro after
  cases c with
  | press token isFunction cursor => exact absurd trivial hedits
  | pressFunction pair cursor => exact absurd trivial hedits
  | backspace => exact absurd trivial hedits
  | moveCursor delta => exact absurd rfl (hmove delta)
  | calculate => exact .inr (calculate_cursor s store)
  | memoryRecall =>
    cases hmemory : s.screen.memory with
    | none => exact .inl (by simp [after, run, hmemory])
    | some t => exact .inr (by simp [after, run, hmemory, update])
  | clear => exact .inr rfl
  | recallHistory e => exact .inr rfl
  | clearHistory => exact .inl (by simp [after, run, update])
  | toggleTheme => exact .inl (by simp [after, run, update])
  | memorySave => exact .inl ⟨rfl, rfl⟩
  | toggleAngleUnit => exact .inl ⟨rfl, rfl⟩
  | toggleShift => exact .inl ⟨rfl, rfl⟩
  | toggleHistory => exact .inl ⟨rfl, rfl⟩

omit [Stack] in
private theorem le_movedCursor (h : s.CaretInside) {delta : Int} (hright : 0 ≤ delta) :
    s.screen.cursor ≤ movedCursor s.screen.buffer s.screen.cursor delta := by
  have hinside : s.screen.cursor ≤ s.screen.buffer.length := h.2
  unfold movedCursor
  omega

omit [Stack] in
private theorem keypad_types : Command.keypad.all (Command.keysPass isTypingKey) = true := by
  decide +kernel

private theorem IsTyping.run_edits (h : s.IsTyping) (store : Store) (hc : c.IsOffered s.screen)
    (hedits : c.Edits) :
    Typed (s.run store c).session.screen.buffer (s.run store c).session.screen.cursor.toNat := by
  rcases run_of_edits s store (hc.keysPass keypad_types) hedits with
    rfl | ⟨token, isFunction, hkey, hpress⟩
  · have hcursor : (s.run store .backspace).session.screen.cursor.toNat =
        min s.screen.cursor.toNat (removeLast s.screen.buffer).length := by
      have hmin : (s.run store .backspace).session.screen.cursor =
          min s.screen.cursor (removeLast s.screen.buffer).length := rfl
      omega
    rw [hcursor]
    exact h.typed.removeLast
  · rw [hpress, press_at_caret s store h.caret]
    exact h.typed.insertAt (Int.toNat_le.mpr h.caret.2) hkey

/-- What the page offers, except for moves to the left, keeps the session as typing leaves it. -/
theorem IsTyping.run (h : s.IsTyping) (store : Store) (hc : c.IsOffered s.screen)
    (hright : ∀ delta, c = .moveCursor delta → 0 ≤ delta) :
    (s.run store c).session.IsTyping := by
  have htexts : (s.run store c).session.AllTexts Coherent :=
    h.texts.run_offered coherent_nil coherent_errorSentinel Display.coherent_rounded store hc
      fun hedits => (h.run_edits store hc hedits).coherent
  refine ⟨htexts, (run_caretInside_iff store c h.caret).mpr (not_stepsPastEnd hc.hasToken), ?_⟩
  by_cases hedits : c.Edits
  · exact h.run_edits store hc hedits
  by_cases hmove : ∃ delta, c = .moveCursor delta
  · obtain ⟨delta, rfl⟩ := hmove
    exact h.typed.right (Int.toNat_le_toNat (le_movedCursor h.caret (hright delta rfl)))
  · have hstill : ∀ delta, c ≠ .moveCursor delta := fun delta hc => hmove ⟨delta, hc⟩
    rcases run_caret s store hedits hstill with ⟨hbuffer, hcursor⟩ | hend
    · rw [hbuffer, hcursor]
      exact h.typed
    · exact .of_coherent htexts.buffer (by rw [hend, Int.toNat_natCast])

end steps

private theorem isTyping_opened (limit : Int) (unit : AngleUnit) (theme : Option Theme) :
    (opened limit unit [] theme).IsTyping where
  texts := allTexts_opened coherent_nil limit unit theme
  caret := caretInside_of_eq_length rfl
  typed := .of_coherent coherent_nil (Nat.le_refl _)

end Session

namespace Page

/-- On a page that is opened without a history, whatever is clicked on, unless it moves the caret to
the left, keeps the buffer coherent: no operator right after an operator, no second point in a
number, and only closing parentheses behind the caret, which stands in the buffer. -/
theorem typing_stays_coherent [Stack] {settings : Settings} {f : File} {p : Page}
    (hstart : start settings f = .ok p) (hempty : (Store.file f).loadHistory = .ok [])
    {bs : List Button} (hbs : p.Offers bs)
    (hright : ∀ b ∈ bs, ∀ delta, b.command? = some (.moveCursor delta) → 0 ≤ delta) :
    (p.after bs).session.CaretInside ∧
      Typed (p.after bs).session.screen.buffer (p.after bs).session.screen.cursor.toNat := by
  obtain ⟨theme, hp⟩ := start_empty hstart hempty
  have hopened : p.session.IsTyping := by
    rw [hp]
    exact Session.isTyping_opened _ _ _
  have hstep : ∀ (s : Session) (store : Store) (c : Command), s.IsTyping → c.IsOffered s.screen →
      (∀ delta, c = .moveCursor delta → 0 ≤ delta) → (s.run store c).session.IsTyping :=
    fun s store c h hc hmove => h.run store hc hmove
  have hdone :=
    after_keeps hstep (settled_of_start hstart) hopened hbs fun as b hb c hc delta hmove =>
    hright b (hb.subset (List.mem_append_right _ (List.mem_singleton_self b))) delta (hmove ▸ hc)
  exact ⟨hdone.caret, hdone.typed⟩

section

attribute [local instance] Stack.shallow

/-- Clicks on sine, seven, the power, two, the caret key to the right, plus, times and DEL. -/
theorem typing_stays_coherent_in_call :
    let settings : Settings := ⟨.ofText (text "state.json"), 15, .degrees, text "INFO"⟩
    let bs := [keyed "trig" 0 (text "sin") (.pair (Keypad.pairOf "sin")),
      keyed "k0" 0 (text "7") (.insert (text "7")), keyed "r4" 5 (text "xʸ") (.insert (text "^")),
      keyed "k2" 1 (text "2") (.insert (text "2")), keyed "r1" 5 (text "▶") (.move 1),
      keyed "k3" 3 (text "+") (.insert (text "+")), keyed "k1" 3 (text "*") (.insert (text "*")),
      keyed "r1" 6 (text "DEL") (.named (text "backspace"))]
    ∃ p, start settings .missing = .ok p ∧ p.Offers bs ∧
      (p.after bs).session.CaretInside ∧
        Typed (p.after bs).session.screen.buffer (p.after bs).session.screen.cursor.toNat := by
  intro settings bs
  have hbs : (shown (Session.opened 15 .degrees [] none) (.file .missing) none).Offers bs :=
    ⟨List.mem_of_getElem? (i := 8) rfl, List.mem_of_getElem? (i := 28) rfl,
      List.mem_of_getElem? (i := 25) rfl, List.mem_of_getElem? (i := 39) rfl,
      List.mem_of_getElem? (i := 5) rfl, List.mem_of_getElem? (i := 46) rfl,
      List.mem_of_getElem? (i := 36) rfl, List.mem_of_getElem? (i := 6) rfl, trivial⟩
  have hmoves : bs.all (fun b => b.command?.all fun
      | .moveCursor delta => 0 ≤ delta
      | _ => true) = true := by
    decide +kernel
  have hstart : start settings .missing = .ok _ := rfl
  refine ⟨_, hstart, hbs, typing_stays_coherent hstart rfl hbs ?_⟩
  intro b hb delta hc
  have hmove := List.all_eq_true.mp hmoves b hb
  simpa [hc] using hmove

end

end Page

end DeskCalc
