import DeskCalc.Proofs.Session.Runs

/-!
# The caret of a session

The caret counts characters from the start of the buffer, so it is in place as long as it is no less
than nothing and does not stand beyond the end. Every key with something to insert puts it in place
again, and so does every other command. Only a key without a token, pressed as a plain key at the
end of the buffer, moves the caret past the end.
-/

namespace DeskCalc

namespace Buffer

private theorem insertion_step_le {token : Text} {isFunction : Bool}
    (h : isFunction = true ∨ token ≠ []) :
    (insertion token isFunction).2 ≤ (insertion token isFunction).1.length := by
  have hkey : token ≠ [] → 1 ≤ token.length := List.length_pos_iff.mpr
  unfold insertion
  split
  · exact Nat.le_refl _
  · split
    · decide
    · split
      · simp
      · next hnumber =>
        rcases h with rfl | h
        · -- a function key inserts a numeral as it stands, and a numeral has a digit
          refine hkey ?_
          rintro rfl
          exact hnumber ⟨rfl, by decide⟩
        · exact hkey h

/-- What a buffer holds when the next key is inserted: a failure is cleared first. -/
def prior (buffer : Text) : Text := if buffer = errorSentinel then [] else buffer

/-- The caret in the cleared buffer. -/
def priorCaret (buffer : Text) (cursor : Nat) : Nat := if buffer = errorSentinel then 0 else cursor

theorem priorCaret_le {buffer : Text} {cursor : Nat} (h : cursor ≤ buffer.length) :
    priorCaret buffer cursor ≤ (prior buffer).length := by
  unfold priorCaret prior
  split
  · exact Nat.zero_le _
  · exact h

/-- Inserting a key either leaves the buffer alone or puts the literal in at the caret, which moves
by the literal's step. -/
theorem insertAt_cases (buffer token : Text) (isFunction : Bool) (cursor : Nat) :
    (refuses ((prior buffer).take (priorCaret buffer cursor)) token = true ∧
      insertAt buffer token isFunction cursor = (buffer, priorCaret buffer cursor)) ∨
    (refuses ((prior buffer).take (priorCaret buffer cursor)) token = false ∧
      insertAt buffer token isFunction cursor =
        ((prior buffer).take (priorCaret buffer cursor) ++ (insertion token isFunction).1 ++
            (prior buffer).drop (priorCaret buffer cursor),
          priorCaret buffer cursor + (insertion token isFunction).2)) := by
  unfold insertAt prior priorCaret
  by_cases hb : buffer = errorSentinel <;> simp only [hb, if_true, if_false] <;>
    split <;> simp_all

private theorem insertAt_caret_le_iff {buffer token : Text} {isFunction : Bool} {cursor : Nat}
    (h : cursor ≤ buffer.length) :
    (insertAt buffer token isFunction cursor).2 ≤
        (insertAt buffer token isFunction cursor).1.length ↔
      ¬(token = [] ∧ isFunction = false ∧
        priorCaret buffer cursor = (prior buffer).length) := by
  have hcaret := priorCaret_le h
  rcases insertAt_cases buffer token isFunction cursor with ⟨hr, hi⟩ | ⟨_, hi⟩
  · -- a refused key has a token
    have htoken : token ≠ [] := by
      rintro rfl
      simp [refuses, Keypad.decimalPoint, Keypad.binaryOperators, text] at hr
    have hbuffer : priorCaret buffer cursor ≤ buffer.length := by
      unfold priorCaret
      split
      · exact Nat.zero_le _
      · exact h
    simp [hi, htoken, hbuffer]
  · rw [hi]
    simp only [List.length_append, List.length_take, List.length_drop]
    by_cases hkey : isFunction = true ∨ token ≠ []
    · have hstep := insertion_step_le hkey
      constructor
      · rintro - ⟨rfl, rfl, -⟩
        simp at hkey
      · intro _
        omega
    · -- the empty literal leaves the buffer as it is, and the caret moves by one
      simp only [not_or, Bool.not_eq_true, ne_eq, Decidable.not_not] at hkey
      obtain ⟨rfl, rfl⟩ := hkey
      have hempty : insertion [] false = ([], 1) := by decide
      simp only [hempty, List.length_nil, true_and]
      omega

end Buffer

/-- Whether a command, if it inserts a plain key, has something to insert. -/
def Command.HasToken : Command → Prop
  | .press token false _ => token ≠ []
  | _ => True

namespace Session

/-- The caret stands in the buffer or at one of its ends. -/
def CaretInside (s : Session) : Prop :=
  0 ≤ s.screen.cursor ∧ s.screen.cursor ≤ s.screen.buffer.length

theorem caretInside_of_eq_length {s : Session} (h : s.screen.cursor = s.screen.buffer.length) :
    s.CaretInside := by
  unfold CaretInside
  omega

/-- Whether a command presses a plain key without a token while the caret, given or the session's
own, stands in the buffer and at the end of what is left once a failure is cleared. -/
def StepsPastEnd (s : Session) : Command → Prop
  | .press [] false cursor =>
    let caret := cursor.getD s.screen.cursor
    0 ≤ caret ∧ caret ≤ s.screen.buffer.length ∧
      (s.screen.buffer = errorSentinel ∨ caret = s.screen.buffer.length)
  | _ => False

private theorem movedCursor_inside (buffer : Text) (cursor delta : Int) :
    0 ≤ movedCursor buffer cursor delta ∧ movedCursor buffer cursor delta ≤ buffer.length := by
  unfold movedCursor
  omega

/-- A key pressed at a caret in the buffer is inserted there; at any other caret it is an error that
changes nothing. -/
theorem press_cases (token : Text) (isFunction : Bool) (cursor : Option Int) (s : Session)
    (store : Store) :
    let caret := cursor.getD s.screen.cursor
    (∃ n : Nat, caret = n ∧ n ≤ s.screen.buffer.length ∧
      s.press token isFunction cursor store =
        { session := s.update fun v => { v with
            buffer := (Buffer.insertAt s.screen.buffer token isFunction n).1
            cursor := (Buffer.insertAt s.screen.buffer token isFunction n).2 }, store }) ∨
    (¬(0 ≤ caret ∧ caret ≤ s.screen.buffer.length) ∧
      s.press token isFunction cursor store =
        { session := s, store, error := some (.cursor ⟨caret, s.screen.buffer.length⟩) }) := by
  intro caret
  by_cases h : 0 ≤ caret ∧ caret ≤ s.screen.buffer.length
  · refine .inl ⟨caret.toNat, by omega, by omega, ?_⟩
    unfold press Buffer.insert
    rw [if_pos h]
  · refine .inr ⟨h, ?_⟩
    unfold press Buffer.insert
    rw [if_neg h]

private theorem press_caretInside_iff {token : Text} {isFunction : Bool} {cursor : Option Int}
    {s : Session} (store : Store) (h : s.CaretInside) :
    (s.press token isFunction cursor store).session.CaretInside ↔
      ¬s.StepsPastEnd (.press token isFunction cursor) := by
  rcases press_cases token isFunction cursor s store with ⟨n, hn, hle, hp⟩ | ⟨hout, hp⟩
  · rw [hp]
    have hinside (m k : Nat) : (0 ≤ (m : Int) ∧ (m : Int) ≤ k) ↔ m ≤ k := by omega
    refine (hinside _ _).trans ((Buffer.insertAt_caret_le_iff hle).trans (not_congr ?_))
    have hend : Buffer.priorCaret s.screen.buffer n = (Buffer.prior s.screen.buffer).length ↔
        s.screen.buffer = errorSentinel ∨ n = s.screen.buffer.length := by
      unfold Buffer.priorCaret Buffer.prior
      split <;> simp [*]
    rw [hend]
    unfold StepsPastEnd
    split
    · next c hc =>
      simp only [Command.press.injEq] at hc
      obtain ⟨rfl, rfl, rfl⟩ := hc
      simp only [true_and, hn, Int.natCast_nonneg, Int.ofNat_le, Int.natCast_inj, hle]
    · next hc =>
      refine ⟨?_, False.elim⟩
      rintro ⟨rfl, rfl, -⟩
      exact hc cursor rfl
  · rw [hp]
    refine ⟨fun _ hend => ?_, fun _ => h⟩
    unfold StepsPastEnd at hend
    split at hend
    · next c hc =>
      simp only [Command.press.injEq] at hc
      obtain ⟨rfl, rfl, rfl⟩ := hc
      exact hout ⟨hend.1, hend.2.1⟩
    · exact hend

@[simp]
theorem save_session (s : Session) (store : Store) (saved : Except StoreError Store) :
    (save s store saved).session = s := by
  cases saved <;> rfl

theorem not_stepsPastEnd {s : Session} {c : Command} (h : c.HasToken) : ¬s.StepsPastEnd c := by
  unfold StepsPastEnd
  split
  · exact fun _ => h rfl
  · exact id

/-- A key pressed at the session's own caret finds it in the buffer. -/
theorem press_no_cursor_error {s : Session} (h : s.CaretInside) (token : Text)
    (isFunction : Bool) (store : Store) :
    (s.press token isFunction none store).error = none := by
  rcases press_cases token isFunction none s store with ⟨n, -, -, hp⟩ | ⟨hout, -⟩
  · rw [hp]
  · exact absurd h hout

section stack

variable [Stack]

/-- Saving the history leaves what the screen shows as it is, whether the save succeeds or not. -/
@[simp]
theorem replaceEntries_screen (entries : List DocText) (s : Session) (store : Store) :
    (s.replaceEntries entries store).session.screen = s.screen := by
  simp [replaceEntries]

/-- The equals key puts the caret at the end of what it shows. -/
theorem calculate_cursor (s : Session) (store : Store) :
    (s.calculate store).session.screen.cursor =
      (s.calculate store).session.screen.buffer.length := by
  have hanswer (unit : AngleUnit) (limit : Int) (history : List DocText) (buffer : Text) :
      (Answer.run unit limit history buffer).cursor =
        (Answer.run unit limit history buffer).buffer.length := by
    unfold Answer.run Answer.runWith Answer.ofResult
    dsimp only
    split <;> rfl
  unfold calculate
  dsimp only
  split <;> simp [update, hanswer]

/-- One command keeps the caret in the buffer, unless it steps past the end. -/
theorem run_caretInside_iff {s : Session} (store : Store) (c : Command) (h : s.CaretInside) :
    (s.run store c).session.CaretInside ↔ ¬s.StepsPastEnd c := by
  cases c with
  | press token isFunction cursor => exact press_caretInside_iff store h
  | pressFunction pair cursor =>
    refine (press_caretInside_iff store h).trans (not_congr ?_)
    simp [StepsPastEnd]
  | moveCursor delta =>
    simpa [run, StepsPastEnd, CaretInside, update] using movedCursor_inside _ _ _
  | backspace =>
    have hdone : (s.run store .backspace).session.CaretInside :=
      ⟨Int.le_min.mpr ⟨h.1, Int.natCast_nonneg _⟩, Int.min_le_right _ _⟩
    exact iff_of_true hdone (by simp [StepsPastEnd])
  | clear => simp [run, StepsPastEnd, CaretInside, update]
  | memorySave => simpa [run, StepsPastEnd, CaretInside, update] using h
  | memoryRecall =>
    have hdone : (s.run store .memoryRecall).session.CaretInside := by
      unfold run
      dsimp only
      split
      · exact h
      · exact caretInside_of_eq_length rfl
    simpa [StepsPastEnd] using hdone
  | calculate =>
    have hdone : (s.run store .calculate).session.CaretInside :=
      caretInside_of_eq_length (calculate_cursor s store)
    simpa [StepsPastEnd] using hdone
  | recallHistory e => simp [run, StepsPastEnd, CaretInside, update]
  | clearHistory => simpa [run, StepsPastEnd, CaretInside, update] using h
  | toggleAngleUnit => simpa [run, StepsPastEnd, CaretInside, update] using h
  | toggleShift => simpa [run, StepsPastEnd, CaretInside, update] using h
  | toggleTheme => simpa [run, StepsPastEnd, CaretInside, update] using h
  | toggleHistory => simpa [run, StepsPastEnd, CaretInside, update] using h

theorem start_caretInside {limit : Int} {unit : AngleUnit} {store : Store} {s : Session}
    (h : start limit unit store = .ok s) : s.CaretInside := by
  unfold start at h
  cases hlog : HistoryLog.load limit store with
  | error e => simp [hlog, bind, Except.bind] at h
  | ok log =>
    cases htheme : store.loadTheme with
    | error e => simp [hlog, htheme, bind, Except.bind] at h
    | ok theme =>
      simp only [hlog, htheme, bind, Except.bind, pure, Except.pure, Except.ok.injEq] at h
      subst h
      exact caretInside_of_eq_length rfl

/-- However a session is opened and whatever is done in it, the caret stands in the buffer as long
as every plain key that is pressed has a token, so the next key pressed at the session's own caret
is never a caret error. One command moves a caret that stands in the buffer out of it exactly if it
presses a plain key without a token at the end of the cleared buffer. -/
theorem caret_stays_inside {limit : Int} {unit : AngleUnit} {store : Store} {s : Session}
    (hstart : start limit unit store = .ok s) {cs : List Command} (hcs : ∀ c ∈ cs, c.HasToken) :
    (s.runAll store cs).1.CaretInside ∧
      (∀ token isFunction, ((s.runAll store cs).1.run (s.runAll store cs).2
        (.press token isFunction none)).error = none) ∧
      (∀ pair, ((s.runAll store cs).1.run (s.runAll store cs).2
        (.pressFunction pair none)).error = none) ∧
      ∀ (t : Session) (store' : Store) (c : Command), t.CaretInside →
        ((t.run store' c).session.CaretInside ↔ ¬t.StepsPastEnd c) := by
  have hrun : (s.runAll store cs).1.CaretInside :=
    runAll_keeps (P := CaretInside)
      (fun t store' c ht hc => (run_caretInside_iff store' c ht).mpr (not_stepsPastEnd hc))
      store (start_caretInside hstart) hcs
  exact ⟨hrun, fun token isFunction => press_no_cursor_error hrun token isFunction _,
    fun pair => press_no_cursor_error hrun _ true _, fun t store' c ht =>
    run_caretInside_iff store' c ht⟩

end stack

section

attribute [local instance] Stack.shallow

theorem caret_stays_inside_after_division :
    ∃ s : Session, start 15 .degrees (.memory (some [.ofText (text "1/0")]) none) = .ok s ∧
      (s.runAll (.memory (some [.ofText (text "1/0")]) none)
        [.recallHistory (text "1/0"), .moveCursor (-2), .calculate, .press ['7'] false (some 5),
          .pressFunction ⟨text "sin", text "asin"⟩ none, .moveCursor 9,
          .backspace]).1.CaretInside := by
  refine ⟨_, rfl, (caret_stays_inside rfl ?_).1⟩
  intro c hc
  simp only [List.mem_cons, List.not_mem_nil, or_false] at hc
  rcases hc with rfl | rfl | rfl | rfl | rfl | rfl | rfl <;> simp [Command.HasToken]

end

end Session

end DeskCalc
