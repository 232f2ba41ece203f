import DeskCalc.Answer
import DeskCalc.HistoryLog

/-!
# Sessions

A session is what the screen shows, together with the history it was opened with and has kept since.
Every command first changes the session and then, if it changed history or theme, saves them; a
save that fails is reported but takes nothing back. The store is not part of the session, since
several sessions may share one.
-/

namespace DeskCalc

structure Screen where
  buffer : Text := []
  cursor : Int := 0
  modes : Modes := {}
  memory : Option Text := none
  history : List DocText := []

structure Session where
  screen : Screen
  /-- The entries that the next calculation is recorded before. -/
  log : HistoryLog

inductive Command where
  | press (token : Text) (isFunction : Bool) (cursor : Option Int)
  | pressFunction (pair : Keypad.Pair) (cursor : Option Int)
  | moveCursor (delta : Int)
  | backspace
  | clear
  | memorySave
  | memoryRecall
  | calculate
  | recallHistory (expression : Text)
  | clearHistory
  | toggleAngleUnit
  | toggleShift
  | toggleTheme
  | toggleHistory
  deriving DecidableEq

inductive CommandError where
  | cursor (e : CursorError)
  | store (e : StoreError)

/-- What a command leaves behind: the session, the store, and what went wrong. -/
structure Step where
  session : Session
  store : Store
  error : Option CommandError := none

namespace Session

variable [Stack]

def start (limit : Int) (unit : AngleUnit) (store : Store) : Except StoreError Session := do
  let log ← HistoryLog.load limit store
  let theme ← store.loadTheme
  let modes : Modes := { angleUnit := unit, theme := theme.getD .dark }
  return { log, screen := { modes, history := log.entries } }

def update (s : Session) (f : Screen → Screen) : Session := { s with screen := f s.screen }

/-- Inserts a key at the given caret or at the session's own. -/
def press (token : Text) (isFunction : Bool) (cursor : Option Int) (s : Session) (store : Store) :
    Step :=
  match Buffer.insert s.screen.buffer token isFunction (cursor.getD s.screen.cursor) with
  | .ok (buffer, caret) =>
    { session := s.update fun v => { v with buffer, cursor := caret }, store }
  | .error e => { session := s, store, error := some (.cursor e) }

/-- Ends a command with a save that has succeeded or failed. -/
def save (session : Session) (store : Store) (saved : Except StoreError Store) : Step :=
  match saved with
  | .ok store => { session, store }
  | .error e => { session, store, error := some (.store e) }

/-- Keeps the given entries and saves them. -/
def replaceEntries (entries : List DocText) (s : Session) (store : Store) : Step :=
  let (log, saved) := s.log.replace entries store
  save { s with log } store saved

/-- The equals key. -/
def calculate (s : Session) (store : Store) : Step :=
  let a := Answer.run s.screen.modes.angleUnit s.log.limit s.log.entries s.screen.buffer
  let shown := s.update fun v =>
    { v with buffer := a.buffer, cursor := a.cursor, history := a.history }
  if a.ok then shown.replaceEntries a.history store else { session := shown, store }

/-- The caret after a move, which stops at both ends. -/
def movedCursor (buffer : Text) (cursor delta : Int) : Int :=
  max 0 (min (buffer.length : Int) (cursor + delta))

def run (s : Session) (store : Store) : Command → Step
  | .press token isFunction cursor => s.press token isFunction cursor store
  | .pressFunction pair cursor => s.press (pair.select s.screen.modes.shift) true cursor store
  | .moveCursor delta =>
    { session := s.update fun v => { v with cursor := movedCursor v.buffer v.cursor delta }, store }
  | .backspace =>
    let buffer := Buffer.removeLast s.screen.buffer
    { session := s.update fun v => { v with buffer, cursor := min v.cursor buffer.length }, store }
  | .clear => { session := s.update fun v => { v with buffer := [], cursor := 0 }, store }
  | .memorySave => { session := s.update fun v => { v with memory := some v.buffer }, store }
  | .memoryRecall =>
    match s.screen.memory with
    | none => { session := s, store }
    | some t => { session := s.update fun v => { v with buffer := t, cursor := t.length }, store }
  | .calculate => s.calculate store
  | .recallHistory e =>
    { session := s.update fun v => { v with buffer := e, cursor := e.length }, store }
  | .clearHistory => (s.update fun v => { v with history := [] }).replaceEntries [] store
  | .toggleAngleUnit =>
    { session := s.update fun v => { v with modes := v.modes.toggleAngleUnit }, store }
  | .toggleShift => { session := s.update fun v => { v with modes := v.modes.toggleShift }, store }
  | .toggleTheme =>
    let toggled := s.update fun v => { v with modes := v.modes.toggleTheme }
    save toggled store (store.saveTheme toggled.screen.modes.theme)
  | .toggleHistory =>
    { session := s.update fun v => { v with modes := v.modes.toggleHistory }, store }

end Session

end DeskCalc
