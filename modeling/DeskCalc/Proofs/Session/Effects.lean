import DeskCalc.Proofs.Session.Caret
import DeskCalc.Proofs.Store.Saving

/-!
# What a command does to history and theme

Three commands hand something to the store: a calculation that succeeds, the clearing of the
history and the theme switch. The session then has what it handed over, whether or not the store
took it, and no other command changes the history or the theme. So the screen goes on showing the
entries of the log, and nothing that a session shows after it was opened depends on a store.
-/

namespace DeskCalc

variable [Stack]

namespace Answer

private theorem run_cases (unit : AngleUnit) (limit : Int) (history : List DocText)
    (buffer : Text) :
    let a := run unit limit history buffer
    (a.ok = true ∧ a.history = History.record limit (.ofText (expression buffer)) history) ∨
      (a.ok = false ∧ a.history = history) := by
  unfold run runWith ofResult
  dsimp only
  split
  · exact .inl ⟨rfl, rfl⟩
  · exact .inr ⟨rfl, rfl⟩

/-- Without an expression there is no result. -/
theorem run_empty (unit : AngleUnit) (limit : Int) (history : List DocText) {buffer : Text}
    (h : expression buffer = []) : (run unit limit history buffer).ok = false := by
  have hnormal : Notation.normalize unit [] = [] := by cases unit <;> rfl
  have hnone : evaluate [] = none := by cbv
  unfold run runWith
  simp only [h, hnormal, hnone]
  rfl

/-- What has a result is a text that shows no failure, and it is recorded as it stands. -/
theorem recorded_of_ok {unit : AngleUnit} {limit : Int} {history : List DocText} {buffer : Text}
    (h : (run unit limit history buffer).ok = true) :
    buffer ≠ errorSentinel ∧ buffer ≠ [] ∧
      (run unit limit history buffer).history = History.record limit (.ofText buffer) history := by
  have hexpression : expression buffer ≠ [] := by
    intro hempty
    simp [run_empty unit limit history hempty] at h
  have hsentinel : buffer ≠ errorSentinel := fun hs => hexpression (if_pos hs)
  have hsame : expression buffer = buffer := if_neg hsentinel
  rcases run_cases unit limit history buffer with ⟨-, hhistory⟩ | ⟨hok, -⟩
  · exact ⟨hsentinel, hsame ▸ hexpression, by rw [hhistory, hsame]⟩
  · simp [hok] at h

end Answer

namespace Session

open Store (Saving)

/-- The answer to the equals key, pressed now. -/
def answer (s : Session) : Answer :=
  Answer.run s.screen.modes.angleUnit s.log.limit s.log.entries s.screen.buffer

/-- What a command hands to the store, if anything. -/
def saving? (s : Session) : Command → Option Saving
  | .calculate =>
    if s.answer.ok then some (.history (History.keep s.log.limit s.answer.history)) else none
  | .clearHistory => some (.history [])
  | .toggleTheme => some (.theme s.screen.modes.theme.toggled)
  | _ => none

/-- The screen shows the entries of the log, and the limit drops none of them at the end. -/
structure Mirrors (s : Session) : Prop where
  limit_nonneg : 0 ≤ s.log.limit
  history : s.screen.history = s.log.entries

section steps

variable (s : Session) (store : Store)

omit [Stack] in
private theorem save_store (saved : Except StoreError Store) :
    (save s store saved).store = saved.toOption.getD store := by
  cases saved <;> rfl

omit [Stack] in
private theorem press_keeps (token : Text) (isFunction : Bool) (cursor : Option Int) :
    let t := s.press token isFunction cursor store
    t.store = store ∧ t.session.log = s.log ∧ t.session.screen.modes = s.screen.modes ∧
      t.session.screen.history = s.screen.history := by
  rcases press_cases token isFunction cursor s store with ⟨n, -, -, hp⟩ | ⟨-, hp⟩ <;>
    rw [hp] <;> exact ⟨rfl, rfl, rfl, rfl⟩

theorem calculate_of_ok (h : s.answer.ok = true) :
    let t := s.calculate store
    let kept := History.keep s.log.limit s.answer.history
    t.store = store.put (.history kept) ∧ t.session.log = { s.log with entries := kept } ∧
      t.session.screen.modes = s.screen.modes ∧ t.session.screen.history = s.answer.history := by
  have hcalculate : s.calculate store =
      (s.update fun v => { v with buffer := s.answer.buffer, cursor := s.answer.cursor
                                  history := s.answer.history }).replaceEntries
        s.answer.history store := if_pos h
  rw [hcalculate]
  exact ⟨save_store .., by simp [replaceEntries, HistoryLog.replace, update], by simp [update],
    by simp [update]⟩

theorem calculate_of_not_ok (h : s.answer.ok = false) :
    let t := s.calculate store
    t.store = store ∧ t.session.log = s.log ∧ t.session.screen.modes = s.screen.modes ∧
      t.session.screen.history = s.log.entries := by
  have hcalculate : s.calculate store =
      { session := s.update fun v => { v with buffer := s.answer.buffer, cursor := s.answer.cursor
                                              history := s.answer.history }, store } :=
    if_neg (Bool.eq_false_iff.mp h)
  have hhistory : s.answer.history = s.log.entries := by
    rcases Answer.run_cases s.screen.modes.angleUnit s.log.limit s.log.entries s.screen.buffer with
      ⟨hok, -⟩ | ⟨-, hh⟩
    · exact absurd (hok.symm.trans h) (by decide)
    · exact hh
  rw [hcalculate]
  exact ⟨rfl, rfl, rfl, hhistory⟩

/-- Every command is of one of three kinds: it hands nothing to the store and keeps history and
theme, it replaces the history and hands over the new one, or it switches the theme and hands over
that. -/
theorem run_cases (c : Command) :
    let t := s.run store c
    (s.saving? c = none ∧ t.store = store ∧ t.session.log = s.log ∧
        t.session.screen.modes.theme = s.screen.modes.theme ∧
        (t.session.screen.history = s.screen.history ∨
          t.session.screen.history = s.log.entries)) ∨
      (∃ entries, s.saving? c = some (.history (History.keep s.log.limit entries)) ∧
        t.store = store.put (.history (History.keep s.log.limit entries)) ∧
        t.session.log = { s.log with entries := History.keep s.log.limit entries } ∧
        t.session.screen.modes.theme = s.screen.modes.theme ∧
        t.session.screen.history = entries ∧
        (∃ all, entries = History.keep s.log.limit all) ∧
        ∀ e ∈ entries, e ∈ s.log.entries ∨ e.isPlain = true) ∨
      (∃ theme, s.saving? c = some (.theme theme) ∧ t.store = store.put (.theme theme) ∧
        t.session.log = s.log ∧ t.session.screen.modes.theme = theme ∧
        t.session.screen.history = s.screen.history) := by
  cases c with
  | press token isFunction cursor =>
    obtain ⟨hstore, hlog, hmodes, hhistory⟩ := press_keeps s store token isFunction cursor
    exact .inl ⟨rfl, hstore, hlog, congrArg Modes.theme hmodes, .inl hhistory⟩
  | pressFunction pair cursor =>
    obtain ⟨hstore, hlog, hmodes, hhistory⟩ :=
      press_keeps s store (pair.select s.screen.modes.shift) true cursor
    exact .inl ⟨rfl, hstore, hlog, congrArg Modes.theme hmodes, .inl hhistory⟩
  | memoryRecall =>
    refine .inl ⟨rfl, ?_⟩
    unfold run
    dsimp only
    split <;> exact ⟨rfl, rfl, rfl, .inl rfl⟩
  | calculate =>
    cases hok : s.answer.ok with
    | false =>
      obtain ⟨hstore, hlog, hmodes, hhistory⟩ := calculate_of_not_ok s store hok
      exact .inl ⟨by simp [saving?, hok], hstore, hlog, congrArg Modes.theme hmodes, .inr hhistory⟩
    | true =>
      obtain ⟨hstore, hlog, hmodes, hhistory⟩ := calculate_of_ok s store hok
      obtain ⟨-, -, hrecorded⟩ := Answer.recorded_of_ok hok
      refine .inr (.inl ⟨s.answer.history, by simp [saving?, hok], hstore, hlog,
        congrArg Modes.theme hmodes, hhistory, ⟨_, hrecorded⟩, fun e he => ?_⟩)
      rw [answer, hrecorded] at he
      rcases History.mem_of_mem_record he with rfl | he
      · exact .inr (DocText.isPlain_ofText _)
      · exact .inl he
  | clearHistory =>
    refine .inr (.inl ⟨[], by simp [saving?], ?_, ?_, ?_, ?_, ⟨[], by simp⟩, by simp⟩)
    · exact (save_store ..).trans (by simp [Store.put, Store.save, update])
    · simp [run, replaceEntries, HistoryLog.replace, update]
    · simp [run, update]
    · simp [run, update]
  | toggleTheme =>
    refine .inr (.inr ⟨s.screen.modes.theme.toggled, rfl, save_store .., ?_, ?_, ?_⟩) <;>
      simp [run, update, Modes.toggleTheme]
  | moveCursor delta => exact .inl ⟨rfl, rfl, rfl, rfl, .inl rfl⟩
  | backspace => exact .inl ⟨rfl, rfl, rfl, rfl, .inl rfl⟩
  | clear => exact .inl ⟨rfl, rfl, rfl, rfl, .inl rfl⟩
  | memorySave => exact .inl ⟨rfl, rfl, rfl, rfl, .inl rfl⟩
  | recallHistory e => exact .inl ⟨rfl, rfl, rfl, rfl, .inl rfl⟩
  | toggleAngleUnit => exact .inl ⟨rfl, rfl, rfl, rfl, .inl rfl⟩
  | toggleShift => exact .inl ⟨rfl, rfl, rfl, rfl, .inl rfl⟩
  | toggleHistory => exact .inl ⟨rfl, rfl, rfl, rfl, .inl rfl⟩

theorem run_store (c : Command) :
    (s.run store c).store = (s.saving? c).elim store fun v => store.put v := by
  rcases run_cases s store c with ⟨hs, h, -⟩ | ⟨entries, hs, h, -⟩ | ⟨theme, hs, h, -⟩ <;>
    rw [hs, h] <;> rfl

@[simp]
theorem run_limit (c : Command) : (s.run store c).session.log.limit = s.log.limit := by
  rcases run_cases s store c with ⟨-, -, h, -⟩ | ⟨entries, -, -, h, -⟩ | ⟨theme, -, -, h, -⟩ <;>
    rw [h]

/-- The entries of the log after a command are those that it handed to the store. -/
theorem run_entries (c : Command) :
    (s.run store c).session.log.entries =
      (s.saving? c).elim s.log.entries (Saving.historyAfter s.log.entries) := by
  rcases run_cases s store c with ⟨hs, -, h, -⟩ | ⟨entries, hs, -, h, -⟩ | ⟨theme, hs, -, h, -⟩ <;>
    rw [hs, h] <;> rfl

variable {s}

/-- What a session saves holds no half of a pair, if its entries hold none. -/
theorem isPlain_of_saving? (hs : ∀ e ∈ s.log.entries, e.isPlain = true) {c : Command} {v : Saving}
    (h : s.saving? c = some v) : v.isPlain = true := by
  rcases run_cases s (.memory none none) c with ⟨hnone, -⟩ |
    ⟨entries, hsaving, -, -, -, -, -, hnew⟩ | ⟨t, hsaving, -⟩
  · simp [hnone] at h
  · obtain rfl := Option.some.inj (hsaving.symm.trans h)
    exact Saving.isPlain_history_iff.mpr fun e he =>
      (hnew e (List.mem_of_mem_take he)).elim (hs e) id
  · obtain rfl := Option.some.inj (hsaving.symm.trans h)
    exact Saving.isPlain_theme t

theorem run_isPlain (hs : ∀ e ∈ s.log.entries, e.isPlain = true) (c : Command) :
    ∀ e ∈ (s.run store c).session.log.entries, e.isPlain = true := by
  rw [run_entries]
  cases hsaving : s.saving? c with
  | none => exact hs
  | some v =>
    have hv := isPlain_of_saving? hs hsaving
    cases v with
    | history entries => exact Saving.isPlain_history_iff.mp hv
    | theme t => exact hs

theorem run_mirrors (c : Command) (h : s.Mirrors) : (s.run store c).session.Mirrors := by
  refine ⟨(run_limit s store c).symm ▸ h.limit_nonneg, ?_⟩
  rcases run_cases s store c with ⟨-, -, hlog, -, hhistory⟩ |
    ⟨entries, -, -, hlog, -, hhistory, ⟨all, hkept⟩, -⟩ | ⟨theme, -, -, hlog, -, hhistory⟩
  · rcases hhistory with hhistory | hhistory <;> rw [hhistory, hlog]
    exact h.history
  · rw [hhistory, hlog, hkept, History.keep_keep h.limit_nonneg]
  · rw [hhistory, hlog, h.history]

end steps

/-- What a command leaves of a session does not depend on the store, nor on whether it saves. -/
theorem run_session (s : Session) (store store' : Store) (c : Command) :
    (s.run store c).session = (s.run store' c).session := by
  have hpress (token : Text) (isFunction : Bool) (cursor : Option Int) :
      (s.press token isFunction cursor store).session =
        (s.press token isFunction cursor store').session := by
    unfold press
    split <;> rfl
  have hreplace (t : Session) (entries : List DocText) :
      (t.replaceEntries entries store).session = (t.replaceEntries entries store').session := by
    simp [replaceEntries, HistoryLog.replace]
  cases c with
  | press token isFunction cursor => exact hpress token isFunction cursor
  | pressFunction pair cursor => exact hpress _ true cursor
  | memoryRecall =>
    unfold run
    dsimp only
    split <;> rfl
  | calculate =>
    unfold run calculate
    dsimp only
    split
    · exact hreplace _ _
    · rfl
  | clearHistory => exact hreplace _ _
  | toggleTheme => simp [run]
  | moveCursor delta => rfl
  | backspace => rfl
  | clear => rfl
  | memorySave => rfl
  | recallHistory e => rfl
  | toggleAngleUnit => rfl
  | toggleShift => rfl
  | toggleHistory => rfl

section opening

variable {limit : Int} {unit : AngleUnit} {store : Store}

/-- The session that is opened on a store with the given history and theme. -/
def opened (limit : Int) (unit : AngleUnit) (history : List DocText) (theme : Option Theme) :
    Session :=
  { log := ⟨limit, History.keep limit history⟩
    screen :=
      { modes := { angleUnit := unit, theme := theme.getD .dark }
        history := History.keep limit history } }

theorem start_congr {store' : Store} (hhistory : store.loadHistory = store'.loadHistory)
    (htheme : store.loadTheme = store'.loadTheme) :
    start limit unit store = start limit unit store' := by
  unfold start HistoryLog.load
  rw [hhistory, htheme]

theorem start_eq {history : List DocText} {theme : Option Theme}
    (hhistory : store.loadHistory = .ok history) (htheme : store.loadTheme = .ok theme) :
    start limit unit store = .ok (opened limit unit history theme) := by
  unfold start HistoryLog.load
  rw [hhistory, htheme]
  rfl

/-- A store whose history can be loaded has a theme that can be loaded. -/
theorem loadTheme_of_loadHistory {history : List DocText} (h : store.loadHistory = .ok history) :
    ∃ theme, store.loadTheme = .ok theme := by
  cases store with
  | memory _ theme => exact ⟨theme, rfl⟩
  | file f =>
    cases hread : Store.read Stack.loading f with
    | error e => simp [Store.loadHistory, hread, Except.map] at h
    | ok d => exact ⟨Store.themeOf d, by rw [Store.loadTheme, hread]; rfl⟩

theorem start_of_loadHistory {history : List DocText} (h : store.loadHistory = .ok history) :
    ∃ theme, start limit unit store = .ok (opened limit unit history theme) := by
  obtain ⟨theme, htheme⟩ := loadTheme_of_loadHistory h
  exact ⟨theme, start_eq h htheme⟩

theorem loadHistory_of_start {s : Session} (h : start limit unit store = .ok s) :
    ∃ history, store.loadHistory = .ok history := by
  cases hhistory : store.loadHistory with
  | error e => simp [start, HistoryLog.load, hhistory, Except.map, bind, Except.bind] at h
  | ok history => exact ⟨history, rfl⟩

theorem opened_of_start {s : Session} (h : start limit unit store = .ok s) :
    ∃ history theme, s = opened limit unit history theme := by
  obtain ⟨history, hhistory⟩ := loadHistory_of_start h
  obtain ⟨theme, hstart⟩ := start_of_loadHistory hhistory
  exact ⟨history, theme, Except.ok.inj (h.symm.trans hstart)⟩

omit [Stack] in
theorem opened_mirrors (hlimit : 0 ≤ limit) (unit : AngleUnit) (history : List DocText)
    (theme : Option Theme) : (opened limit unit history theme).Mirrors := ⟨hlimit, rfl⟩

end opening

end Session

end DeskCalc
