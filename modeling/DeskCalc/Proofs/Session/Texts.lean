import DeskCalc.Proofs.Display.Shape
import DeskCalc.Proofs.Session.Distinct

/-!
# The texts of a session

A session holds the text in the buffer, perhaps one in memory, and those in the history, beside
entries of which no text can be made. Commands
move them from one place to another, and the equals key brings in what it shows. Only three commands
edit a text, and all three edit the buffer. So a property of what is shown holds of all texts of a
session as long as these three keep it.
-/

namespace DeskCalc

/-- Whether a command edits the text in the buffer. -/
def Command.Edits : Command → Prop
  | .press .. | .pressFunction .. | .backspace => True
  | _ => False

/-- Whether every key that a command presses passes a check and is pressed at the caret that the
session has. -/
def Command.keysPass (check : Text → Bool → Bool) : Command → Bool
  | .press token isFunction cursor => cursor = none && check token isFunction
  | .pressFunction pair cursor =>
    cursor = none && check pair.primary true && check pair.inverse true
  | _ => true

namespace Session

/-- All texts of the session have a property. -/
structure AllTexts (P : Text → Prop) (s : Session) : Prop where
  buffer : P s.screen.buffer
  memory : ∀ t ∈ s.screen.memory, P t
  history : ∀ t, .ofText t ∈ s.screen.history → P t
  entries : ∀ t, .ofText t ∈ s.log.entries → P t

section steps

variable [Stack] (s : Session) (store : Store)

omit [Stack] in
private theorem press_memory (token : Text) (isFunction : Bool) (cursor : Option Int) :
    (s.press token isFunction cursor store).session.screen.memory = s.screen.memory := by
  rcases press_cases token isFunction cursor s store with ⟨n, -, -, hp⟩ | ⟨-, hp⟩
  · rw [hp]
    rfl
  · rw [hp]

theorem calculate_buffer_memory :
    (s.calculate store).session.screen.buffer = s.answer.buffer ∧
      (s.calculate store).session.screen.memory = s.screen.memory := by
  unfold calculate
  dsimp only
  split
  · rw [replaceEntries_screen]
    exact ⟨rfl, rfl⟩
  · exact ⟨rfl, rfl⟩

/-- The memory is what it was or, once it is saved to, the buffer. -/
theorem run_memory (c : Command) :
    (s.run store c).session.screen.memory = s.screen.memory ∨
      (s.run store c).session.screen.memory = some s.screen.buffer := by
  cases c with
  | press token isFunction cursor => exact .inl (press_memory s store token isFunction cursor)
  | pressFunction pair cursor => exact .inl (press_memory s store _ true cursor)
  | memorySave => exact .inr rfl
  | memoryRecall =>
    refine .inl ?_
    unfold run
    dsimp only
    split <;> rfl
  | calculate => exact .inl (calculate_buffer_memory s store).2
  | clearHistory => exact .inl (by simp [run, update])
  | toggleTheme => exact .inl (by simp [run, update])
  | moveCursor delta => exact .inl rfl
  | backspace => exact .inl rfl
  | clear => exact .inl rfl
  | recallHistory e => exact .inl rfl
  | toggleAngleUnit => exact .inl rfl
  | toggleShift => exact .inl rfl
  | toggleHistory => exact .inl rfl

/-- A command that edits removes the last character or presses a key. -/
theorem run_of_edits {check : Text → Bool → Bool} {c : Command} (hkeys : c.keysPass check = true)
    (hc : c.Edits) :
    c = .backspace ∨ ∃ token isFunction, check token isFunction = true ∧
      s.run store c = s.press token isFunction none store := by
  cases c with
  | backspace => exact .inl rfl
  | press token isFunction cursor =>
    simp only [Command.keysPass, Bool.and_eq_true, decide_eq_true_eq] at hkeys
    obtain ⟨rfl, hcheck⟩ := hkeys
    exact .inr ⟨token, isFunction, hcheck, rfl⟩
  | pressFunction pair cursor =>
    simp only [Command.keysPass, Bool.and_eq_true, decide_eq_true_eq] at hkeys
    obtain ⟨⟨rfl, hprimary⟩, hinverse⟩ := hkeys
    refine .inr ⟨pair.select s.screen.modes.shift, true, ?_, rfl⟩
    cases s.screen.modes.shift
    · exact hprimary
    · exact hinverse
  | _ => exact absurd hc id

omit [Stack] in
/-- A key is inserted at the caret of the session if that stands in the buffer. -/
theorem press_at_caret (h : s.CaretInside) (token : Text) (isFunction : Bool) :
    let inserted := Buffer.insertAt s.screen.buffer token isFunction s.screen.cursor.toNat
    s.press token isFunction none store =
      { session := s.update fun v => { v with buffer := inserted.1, cursor := inserted.2 }
        store } := by
  rcases press_cases token isFunction none s store with ⟨n, hn, -, hp⟩ | ⟨hout, -⟩
  · have hcaret : s.screen.cursor = n := hn
    rw [hcaret, Int.toNat_natCast]
    exact hp
  · exact absurd h hout

/-- What a command that does not edit leaves in the buffer: the same text, none, what the equals key
shows, what was in memory, or what is recalled. -/
private theorem run_buffer {c : Command} (hc : ¬c.Edits) :
    let after := (s.run store c).session.screen.buffer
    after = s.screen.buffer ∨ after = [] ∨ after = s.answer.buffer ∨ after ∈ s.screen.memory ∨
      c = .recallHistory after := by
  intro after
  cases c with
  | press token isFunction cursor => exact absurd trivial hc
  | pressFunction pair cursor => exact absurd trivial hc
  | backspace => exact absurd trivial hc
  | clear => exact .inr (.inl rfl)
  | memoryRecall =>
    cases hmemory : s.screen.memory with
    | none =>
      have hafter : after = s.screen.buffer := by simp [after, run, hmemory]
      exact .inl hafter
    | some t =>
      have hafter : after = t := by simp [after, run, hmemory, update]
      exact .inr (.inr (.inr (.inl (by rw [hafter]; rfl))))
  | calculate => exact .inr (.inr (.inl (calculate_buffer_memory s store).1))
  | recallHistory e => exact .inr (.inr (.inr (.inr rfl)))
  | clearHistory => exact .inl (by simp [after, run, update])
  | toggleTheme => exact .inl (by simp [after, run, update])
  | moveCursor delta => exact .inl rfl
  | memorySave => exact .inl rfl
  | toggleAngleUnit => exact .inl rfl
  | toggleShift => exact .inl rfl
  | toggleHistory => exact .inl rfl

/-- What the screen shows as history after a command was there or in the log, or is the buffer that
was calculated. -/
theorem mem_history_of_run {c : Command} {t : DocText}
    (h : t ∈ (s.run store c).session.screen.history) :
    t ∈ s.screen.history ∨ t ∈ s.log.entries ∨ t = .ofText s.screen.buffer := by
  by_cases hcalculate : c = .calculate
  · subst hcalculate
    cases hok : s.answer.ok with
    | true =>
      obtain ⟨-, -, -, hhistory⟩ := calculate_of_ok s store hok
      obtain ⟨-, -, hrecorded⟩ := Answer.recorded_of_ok hok
      have hmem : t ∈ s.answer.history := hhistory ▸ h
      rw [answer, hrecorded] at hmem
      rcases History.mem_of_mem_record hmem with ht | ht
      · exact .inr (.inr ht)
      · exact .inr (.inl ht)
    | false =>
      obtain ⟨-, -, -, hhistory⟩ := calculate_of_not_ok s store hok
      exact .inr (.inl (hhistory ▸ h))
  by_cases hclear : c = .clearHistory
  · subst hclear
    simp [run, update] at h
  · rcases run_cases s store c with ⟨-, -, -, -, hhistory | hhistory⟩ |
      ⟨entries, hsaving, -⟩ | ⟨theme, -, -, -, -, hhistory⟩
    · exact .inl (hhistory ▸ h)
    · exact .inr (.inl (hhistory ▸ h))
    · -- only the two commands above replace the history
      unfold saving? at hsaving
      split at hsaving
      · exact absurd rfl hcalculate
      · exact absurd rfl hclear
      · simp at hsaving
      · simp at hsaving
    · exact .inl (hhistory ▸ h)

private theorem mem_entries_of_run {c : Command} {t : DocText}
    (h : t ∈ (s.run store c).session.log.entries) :
    t ∈ s.log.entries ∨ t = .ofText s.screen.buffer := by
  rcases run_entries_cases s store c with hafter | hafter | ⟨-, -, hafter⟩ <;> rw [hafter] at h
  · exact .inl h
  · simp at h
  · exact (History.mem_of_mem_record ((History.keep_sublist _ _).subset h)).symm

end steps

variable {P : Text → Prop}

/-- A property of no text, of failures and of all numbers that are shown is kept by every command
that recalls a text with it and, if it edits, leaves one in the buffer. -/
theorem AllTexts.run [Stack] (hempty : P []) (herror : P errorSentinel)
    (hshown : ∀ z, P (Display.rounded z)) {s : Session} (h : s.AllTexts P) (store : Store)
    {c : Command} (hrecall : ∀ e, c = .recallHistory e → P e)
    (hedit : c.Edits → P (s.run store c).session.screen.buffer) :
    (s.run store c).session.AllTexts P where
  buffer := by
    by_cases hc : c.Edits
    · exact hedit hc
    · rcases run_buffer s store hc with hb | hb | hb | hb | hb
      · exact hb ▸ h.buffer
      · exact hb ▸ hempty
      · rw [hb]
        rcases Answer.buffer_cases s.screen.modes.angleUnit s.log.limit s.log.entries
          s.screen.buffer with hr | ⟨z, hr⟩
        · exact hr ▸ herror
        · exact hr ▸ hshown z
      · exact h.memory _ hb
      · exact hrecall _ hb
  memory t ht := by
    rcases run_memory s store c with hm | hm <;> rw [hm] at ht
    · exact h.memory t ht
    · exact Option.some.inj ht ▸ h.buffer
  history t ht := by
    rcases mem_history_of_run s store ht with ht | ht | ht
    · exact h.history t ht
    · exact h.entries t ht
    · exact DocText.ofText_injective ht ▸ h.buffer
  entries t ht := by
    rcases mem_entries_of_run s store ht with ht | ht
    · exact h.entries t ht
    · exact DocText.ofText_injective ht ▸ h.buffer

theorem allTexts_opened (hempty : P []) (limit : Int) (unit : AngleUnit) (theme : Option Theme) :
    (opened limit unit [] theme).AllTexts P where
  buffer := hempty
  memory := by simp [opened]
  history := by simp [opened]
  entries := by simp [opened]

end Session

end DeskCalc
