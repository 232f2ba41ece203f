import DeskCalc.Proofs.Session.Sharing

/-!
# Switches of the presentation

Two commands change only how a session looks: one switches the theme, the other shows or hides the
history. Whatever else is done in a session comes out the same without them. A session and the same
one in another dress are left alike by every command, and a switch is nothing but a change of dress;
so a run and the same run without some of its switches stay alike. A save of the theme keeps the
history that the store holds, whether it succeeds or not.
-/

namespace DeskCalc

/-- The command changes nothing but the theme or whether the history is shown. -/
def Command.IsSwitch : Command → Prop
  | .toggleTheme | .toggleHistory => True
  | _ => False

/-- The second list of commands is the first one without some of its switches. -/
inductive Command.Without : List Command → List Command → Prop
  | nil : Without [] []
  | keep {cs ds : List Command} (c : Command) (rest : Without cs ds) : Without (c :: cs) (c :: ds)
  | drop {cs ds : List Command} {c : Command} (switch : c.IsSwitch) (rest : Without cs ds) :
      Without (c :: cs) ds

private theorem Command.Without.concat {cs ds : List Command} (h : Without cs ds) (c : Command) :
    Without (cs ++ [c]) (ds ++ [c]) := by
  induction h with
  | nil => exact .keep c .nil
  | keep d rest ih => exact .keep d ih
  | drop switch rest ih => exact .drop switch ih

/-- The screens agree in all but the theme and whether the history is shown. -/
structure Screen.SameContent (v w : Screen) : Prop where
  buffer : v.buffer = w.buffer
  cursor : v.cursor = w.cursor
  memory : v.memory = w.memory
  history : v.history = w.history
  angleUnit : v.modes.angleUnit = w.modes.angleUnit
  shift : v.modes.shift = w.modes.shift

namespace Session

open Store (Saving)

/-- The session with another theme and with the history shown or hidden. -/
def dressed (theme : Theme) (shown : Bool) (s : Session) : Session :=
  s.update fun v => { v with modes := { v.modes with theme, showHistory := shown } }

private theorem sameContent_dressed (theme : Theme) (shown : Bool) (s : Session) :
    s.screen.SameContent (s.dressed theme shown).screen :=
  ⟨rfl, rfl, rfl, rfl, rfl, rfl⟩

/-- The misplaced caret, if the command presses a key where there is no place in the buffer. -/
def misplaced? (s : Session) : Command → Option CursorError
  | .press _ _ cursor | .pressFunction _ cursor =>
    let caret := cursor.getD s.screen.cursor
    if 0 ≤ caret ∧ caret ≤ s.screen.buffer.length then none
    else some ⟨caret, s.screen.buffer.length⟩
  | _ => none

section stack

variable [Stack]

/-- The history that a command leaves in the store if it is saved, given the one from before. -/
def historyLeft (s : Session) (before : List DocText) (c : Command) : List DocText :=
  (s.saving? c).elim before (Saving.historyAfter before)

/-- Whether the store takes every history that the commands hand to it. A theme that it does not
take does not matter. -/
def savesHistory (s : Session) (store : Store) : List Command → Bool
  | [] => true
  | c :: cs =>
    (!s.writesHistory c || (s.run store c).saved) &&
      (s.run store c).session.savesHistory (s.run store c).store cs

section steps

variable (s : Session) (store : Store) (theme : Theme) (shown : Bool)

omit [Stack] in
private theorem save_error_ne (session : Session) (saved : Except StoreError Store)
    (e : CursorError) : (save session store saved).error ≠ some (.cursor e) := by
  cases saved <;> simp [save]

omit [Stack] in
private theorem press_error_iff (token : Text) (isFunction : Bool) (cursor : Option Int)
    (e : CursorError) :
    (s.press token isFunction cursor store).error = some (.cursor e) ↔
      s.misplaced? (.press token isFunction cursor) = some e := by
  rcases press_cases token isFunction cursor s store with ⟨n, hn, hle, hp⟩ | ⟨hout, hp⟩
  · have hin : 0 ≤ cursor.getD s.screen.cursor ∧
        cursor.getD s.screen.cursor ≤ s.screen.buffer.length := by omega
    simp [hp, misplaced?, hin]
  · simp only [hp, misplaced?, if_neg hout, Option.some.injEq, CommandError.cursor.injEq]

/-- Only a key can be pressed at a misplaced caret, and then nothing else goes wrong. -/
private theorem run_cursor_error_iff (c : Command) (e : CursorError) :
    (s.run store c).error = some (.cursor e) ↔ s.misplaced? c = some e := by
  cases c with
  | press token isFunction cursor => exact press_error_iff s store token isFunction cursor e
  | pressFunction pair cursor =>
    exact press_error_iff s store (pair.select s.screen.modes.shift) true cursor e
  | calculate =>
    refine iff_of_false ?_ nofun
    unfold run calculate
    dsimp only
    split
    · exact save_error_ne store _ _ e
    · nofun
  | memoryRecall =>
    refine iff_of_false ?_ nofun
    unfold run
    dsimp only
    split <;> nofun
  | clearHistory => exact iff_of_false (save_error_ne store _ _ e) nofun
  | toggleTheme => exact iff_of_false (save_error_ne store _ _ e) nofun
  | moveCursor delta => exact iff_of_false nofun nofun
  | backspace => exact iff_of_false nofun nofun
  | clear => exact iff_of_false nofun nofun
  | memorySave => exact iff_of_false nofun nofun
  | recallHistory expression => exact iff_of_false nofun nofun
  | toggleAngleUnit => exact iff_of_false nofun nofun
  | toggleShift => exact iff_of_false nofun nofun
  | toggleHistory => exact iff_of_false nofun nofun

omit [Stack] in
private theorem misplaced?_dressed (c : Command) :
    (s.dressed theme shown).misplaced? c = s.misplaced? c := by
  cases c <;> rfl

omit [Stack] in
private theorem press_dressed (token : Text) (isFunction : Bool) (cursor : Option Int) :
    ((s.dressed theme shown).press token isFunction cursor store).session =
      (s.press token isFunction cursor store).session.dressed theme shown := by
  have hbuffer : (s.dressed theme shown).screen.buffer = s.screen.buffer := rfl
  have hcursor : (s.dressed theme shown).screen.cursor = s.screen.cursor := rfl
  unfold press
  rw [hbuffer, hcursor]
  cases Buffer.insert s.screen.buffer token isFunction (cursor.getD s.screen.cursor) <;> rfl

private theorem replaceEntries_session (entries : List DocText) :
    (s.replaceEntries entries store).session =
      { s with log := { s.log with entries := History.keep s.log.limit entries } } :=
  save_session ..

private theorem calculate_dressed :
    ((s.dressed theme shown).calculate store).session =
      (s.calculate store).session.dressed theme shown := by
  change (if s.answer.ok = true then _ else _ : Step).session =
    (if s.answer.ok = true then _ else _ : Step).session.dressed theme shown
  split
  · rw [replaceEntries_session, replaceEntries_session]
    rfl
  · rfl

private theorem run_switch {c : Command} (h : c.IsSwitch) :
    ∃ theme shown, (s.run store c).session = s.dressed theme shown := by
  cases c with
  | toggleTheme =>
    exact ⟨s.screen.modes.theme.toggled, s.screen.modes.showHistory, save_session ..⟩
  | toggleHistory => exact ⟨s.screen.modes.theme, !s.screen.modes.showHistory, rfl⟩
  | _ => exact h.elim

/-- A command does to a session in another dress what it does to the session. -/
theorem run_dressed (store' : Store) (c : Command) :
    ∃ theme' shown', ((s.dressed theme shown).run store' c).session =
      (s.run store c).session.dressed theme' shown' := by
  rw [run_session _ store' store]
  cases c with
  | press token isFunction cursor => exact ⟨theme, shown, press_dressed ..⟩
  | pressFunction pair cursor => exact ⟨theme, shown, press_dressed ..⟩
  | calculate => exact ⟨theme, shown, calculate_dressed ..⟩
  | memoryRecall =>
    refine ⟨theme, shown, ?_⟩
    cases hmemory : s.screen.memory <;> simp [run, dressed, update, hmemory]
  | clearHistory =>
    refine ⟨theme, shown, ?_⟩
    rw [run, run, replaceEntries_session, replaceEntries_session]
    rfl
  | toggleTheme =>
    refine ⟨theme.toggled, shown, ?_⟩
    rw [run, run, save_session, save_session]
    rfl
  | toggleHistory => exact ⟨theme, !shown, rfl⟩
  | moveCursor delta => exact ⟨theme, shown, rfl⟩
  | backspace => exact ⟨theme, shown, rfl⟩
  | clear => exact ⟨theme, shown, rfl⟩
  | memorySave => exact ⟨theme, shown, rfl⟩
  | recallHistory expression => exact ⟨theme, shown, rfl⟩
  | toggleAngleUnit => exact ⟨theme, shown, rfl⟩
  | toggleShift => exact ⟨theme, shown, rfl⟩

private theorem historyLeft_dressed (before : List DocText) (c : Command) :
    (s.dressed theme shown).historyLeft before c = s.historyLeft before c := by
  cases c <;> rfl

private theorem historyLeft_switch (before : List DocText) {c : Command} (h : c.IsSwitch) :
    s.historyLeft before c = before := by
  cases c with
  | toggleTheme => rfl
  | toggleHistory => rfl
  | _ => exact h.elim

variable {s store}

/-- A save that the store does not take leaves it as it was, and one of the theme keeps the
history in any case. -/
theorem loadHistory_run {history : List DocText} (hload : store.loadHistory = .ok history)
    {c : Command} (hsaved : (!s.writesHistory c || (s.run store c).saved) = true) :
    (s.run store c).store.loadHistory = .ok (s.historyLeft history c) := by
  obtain ⟨worn, hworn⟩ := loadTheme_of_loadHistory hload
  rw [run_store, historyLeft]
  cases hsaving : s.saving? c with
  | none => exact hload
  | some v =>
    cases hsave : store.save v with
    | ok store' =>
      rw [Option.elim, Store.put_of_save hsave]
      exact (Store.loads_of_save hsave hload hworn).1
    | error e =>
      cases v with
      | history entries =>
        have hwrites : s.writesHistory c = true := by rw [writesHistory_eq, hsaving]
        obtain ⟨store', hok⟩ := save_of_saved hsaving (by simpa [hwrites] using hsaved)
        exact absurd (hok.symm.trans hsave) (by simp)
      | theme t =>
        rw [Option.elim, Store.put, hsave]
        exact hload

end steps

section runs

variable {cs ds : List Command}

/-- A run without some of its switches leaves the same session, but for the dress. -/
theorem runAll_without (h : Command.Without cs ds) (s : Session) (a b : Store) (theme : Theme)
    (shown : Bool) :
    ∃ theme' shown', ((s.dressed theme shown).runAll b ds).1 =
      (s.runAll a cs).1.dressed theme' shown' := by
  induction h generalizing s a b theme shown with
  | nil => exact ⟨theme, shown, rfl⟩
  | keep c rest ih =>
    obtain ⟨theme', shown', hrun⟩ := run_dressed s a theme shown b c
    rw [runAll_cons, runAll_cons, hrun]
    exact ih _ _ _ _ _
  | drop switch rest ih =>
    -- the session in which the switch was made is the old one in another dress
    obtain ⟨theme', shown', hrun⟩ := run_switch s a switch
    rw [runAll_cons, hrun]
    exact ih (s.dressed theme' shown') _ b theme shown

/-- A run without some of its switches leaves the same history in the store, if both runs save every
history. -/
private theorem loadHistory_without (h : Command.Without cs ds) (s : Session) {a b : Store}
    (theme : Theme) (shown : Bool) {history : List DocText} (ha : a.loadHistory = .ok history)
    (hb : b.loadHistory = .ok history) (hcs : s.savesHistory a cs = true)
    (hds : (s.dressed theme shown).savesHistory b ds = true) :
    ∃ left, (s.runAll a cs).2.loadHistory = .ok left ∧
      ((s.dressed theme shown).runAll b ds).2.loadHistory = .ok left := by
  induction h generalizing s a b theme shown history with
  | nil => exact ⟨history, ha, hb⟩
  | keep c rest ih =>
    obtain ⟨hc, hcs⟩ := Bool.and_eq_true_iff.mp hcs
    obtain ⟨hd, hds⟩ := Bool.and_eq_true_iff.mp hds
    have ha' := loadHistory_run ha hc
    have hb' := loadHistory_run hb hd
    rw [historyLeft_dressed] at hb'
    obtain ⟨theme', shown', hrun⟩ := run_dressed s a theme shown b c
    rw [hrun] at hds
    rw [runAll_cons, runAll_cons, hrun]
    exact ih _ _ _ ha' hb' hcs hds
  | drop switch rest ih =>
    obtain ⟨hc, hcs⟩ := Bool.and_eq_true_iff.mp hcs
    have ha' := loadHistory_run ha hc
    rw [historyLeft_switch s history switch] at ha'
    obtain ⟨theme', shown', hrun⟩ := run_switch s a switch
    rw [hrun] at hcs
    rw [runAll_cons, hrun]
    exact ih (s.dressed theme' shown') theme shown ha' hb hcs hds

/-- Leaving out any switches of the theme and of the history panel from a run changes neither what
any other command leaves on the screen, theme and panel apart, nor which misplaced carets are
reported. The store holds the same history after it as long as both runs save every history. -/
theorem presentation_only {limit : Int} {unit : AngleUnit} {store : Store} {s : Session}
    (hstart : start limit unit store = .ok s) (h : Command.Without cs ds) (c : Command) :
    let all := (s.runAll store cs).1.run (s.runAll store cs).2 c
    let rest := (s.runAll store ds).1.run (s.runAll store ds).2 c
    all.session.screen.SameContent rest.session.screen ∧
      (∀ e, all.error = some (.cursor e) ↔ rest.error = some (.cursor e)) ∧
      (s.savesHistory store (cs ++ [c]) = true → s.savesHistory store (ds ++ [c]) = true →
        ∃ history, all.store.loadHistory = .ok history ∧ rest.store.loadHistory = .ok history) := by
  intro all rest
  obtain ⟨theme, shown, hrun⟩ : ∃ theme shown,
      (s.runAll store ds).1 = (s.runAll store cs).1.dressed theme shown :=
    runAll_without h s store store s.screen.modes.theme s.screen.modes.showHistory
  obtain ⟨history, hload⟩ := loadHistory_of_start hstart
  refine ⟨?_, fun e => ?_, fun hcs hds => ?_⟩
  · obtain ⟨theme', shown', hc⟩ := run_dressed (s.runAll store cs).1 (s.runAll store cs).2 theme
      shown (s.runAll store ds).2 c
    have hsession : rest.session = all.session.dressed theme' shown' := by rw [← hc, ← hrun]
    rw [hsession]
    exact sameContent_dressed theme' shown' all.session
  · rw [run_cursor_error_iff, run_cursor_error_iff, hrun, misplaced?_dressed]
  · have hboth := loadHistory_without (h.concat c) s s.screen.modes.theme
      s.screen.modes.showHistory hload hload hcs hds
    rwa [runAll_append, runAll_append] at hboth

end runs

end stack

attribute [local instance] Stack.shallow

/-- A calculation between two switches of the theme and one of the panel, on a file that holds more
than the history, and then a key at a place that is not there. One of the switches is kept. -/
theorem presentation_only_around_calculation :
    let store := Store.file (.text (text
      "\x7b\"calculator_history\": [\"2*3\"], \"size\": 1.50\x7d"))
    let cs : List Command :=
      [.toggleTheme, .recallHistory (text "1+1"), .toggleHistory, .calculate, .toggleTheme]
    let ds : List Command := [.recallHistory (text "1+1"), .calculate, .toggleTheme]
    let key : Command := .press ['7'] false (some 9)
    ∃ s, start 2 .degrees store = .ok s ∧
      let all := (s.runAll store cs).1.run (s.runAll store cs).2 key
      let rest := (s.runAll store ds).1.run (s.runAll store ds).2 key
      all.session.screen.modes ≠ rest.session.screen.modes ∧
        all.session.screen.SameContent rest.session.screen ∧
        rest.error = some (.cursor ⟨9, 1⟩) ∧
        rest.store.loadHistory = .ok [.ofText (text "1+1"), .ofText (text "2*3")] := by
  intro store cs ds key
  have hopened : start 2 .degrees store = .ok (opened 2 .degrees [.ofText (text "2*3")] none) :=
    start_eq (by decide +kernel) (by decide +kernel)
  have hwithout : Command.Without cs ds :=
    .drop trivial (.keep _ (.drop trivial (.keep _ (.keep _ .nil))))
  obtain ⟨hsame, herror, hstored⟩ := presentation_only hopened hwithout key
  obtain ⟨history, hall, hrest⟩ := hstored (by decide +kernel) (by decide +kernel)
  have hkept : (((opened 2 .degrees [.ofText (text "2*3")] none).runAll store cs).1.run
      ((opened 2 .degrees [.ofText (text "2*3")] none).runAll store cs).2 key).store.loadHistory =
        .ok [.ofText (text "1+1"), .ofText (text "2*3")] := by decide +kernel
  refine ⟨_, hopened, by decide +kernel, hsame, ?_, hrest.trans (hall.symm.trans hkept)⟩
  exact (herror ⟨9, 1⟩).mp ((run_cursor_error_iff ..).mpr (by decide +kernel))

end Session

end DeskCalc
