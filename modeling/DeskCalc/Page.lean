import DeskCalc.Csv
import DeskCalc.Session
import DeskCalc.Settings.Basic

/-!
# The page

A script draws the page as a list of elements, most of them buttons in rows, and is run from its
start whenever something is clicked. A click on a button leaves a request; the run that finds one
obeys it, drops it and asks to be run again, and the run that finds none draws the session. A
save that fails does not stop the script: the screen drawn next shows a warning, and the one
after that does not. Whatever else goes wrong with a request breaks the script off before it has
drawn more than its heading, and an entry of the history that cannot be shown breaks it off where
the entry would stand.
-/

namespace DeskCalc

/-- What a click asks for. -/
inductive Request where
  | insert (token : Text)
  | function (name : Text)
  | pair (p : Keypad.Pair)
  | move (delta : Int)
  | fromHistory (expression : Text)
  | named (name : Text)

/-- What breaks the script off. -/
inductive PageError where
  | unknownRequest (name : Text)
  | command (e : CommandError)
  /-- An entry of the history holds half of a pair of code units. -/
  | halfPair

namespace Request

def commands : List (Text × Command) :=
  [("backspace", Command.backspace), ("clear_all", .clear), ("mem_save", .memorySave),
    ("mem_recall", .memoryRecall), ("equals", .calculate), ("angle", .toggleAngleUnit),
    ("shift", .toggleShift), ("theme", .toggleTheme), ("show_history", .toggleHistory),
    ("clear_history", .clearHistory)].map fun (name, c) => (text name, c)

def command : Request → Except PageError Command
  | insert token => .ok (.press token false none)
  | function name => .ok (.press name true none)
  | pair p => .ok (.pressFunction p none)
  | move delta => .ok (.moveCursor delta)
  | fromHistory expression => .ok (.recallHistory expression)
  | named name =>
    match commands.lookup name with
    | some c => .ok c
    | none => .error (.unknownRequest name)

end Request

inductive Action where
  | request (r : Request)
  /-- The click hands out a file and asks for nothing. -/
  | download (data : Text)

structure Button where
  key : Option Text
  label : Text
  primary : Bool := false
  action : Action

/-- Something drawn on the page. A place is a row and a column in it. -/
inductive Element where
  | page (title icon layout : Text)
  | title (t : Text)
  | caption (t : Text)
  | subheader (t : Text)
  | warning (t : Text)
  | markup (t : Text)
  | display (label value : Text)
  | button (b : Button) (place : Option (Nat × Nat))
  | divider

def Element.button? : Element → Option Button
  | button b _ => some b
  | _ => none

/-- A page that is open: its session, the file that the session is kept in, and what one run of the
script leaves for the next. -/
structure Page where
  session : Session
  store : Store
  /-- What was clicked and is not yet done. -/
  pending : Option Request := none
  /-- A warning that is not yet shown. -/
  warning : Option Text := none
  /-- What is on the screen. -/
  elements : List Element := []
  /-- What broke off the last run of the script. -/
  failure : Option PageError := none

/-- The warning about an error that does not stop the page: a save that failed because the file
could not be replaced. -/
def PageError.warning? : PageError → Option Text
  | command (.store (.couldNotSave key)) =>
    (StoreError.couldNotSave key).message?.map (text "Could not save calculator state: " ++ ·)
  | _ => none

namespace Page

/-- The button of a request, keyed by its row and its number in the row. -/
def keyed (row : String) (number : Nat) (label : Text) (r : Request) : Button :=
  { key := some (text row ++ '_' :: Text.ofNat number), label, action := .request r }

def numbered (row : String) (buttons : List (Text × Request)) : List Button :=
  buttons.zipIdx.map fun ((label, r), i) => keyed row i label r

def controlRow (m : Modes) : List Button :=
  numbered "r1"
    [(text (if m.angleUnit = .degrees then "DEG" else "RAD"), .named (text "angle")),
      (text (if m.shift then "SHIFT ●" else "SHIFT"), .named (text "shift")),
      (text "MS", .named (text "mem_save")), (text "MR", .named (text "mem_recall")),
      (text "◀", .move (-1)), (text "▶", .move 1),
      (text "DEL", .named (text "backspace")), (text "AC", .named (text "clear_all"))]

def pairRow (row : String) (pairs : List Keypad.Pair) (shift : Bool) : List Button :=
  (numbered row (pairs.map fun p => (p.label shift, .pair p))).map fun b =>
    { b with primary := shift }

/-- A key that inserts what is written on it, or something else. -/
def insertKey (label token : String) : Text × Request := (text label, .insert (text token))

def functionKey (label name : String) : Text × Request := (text label, .function (text name))

def functionRow : List Button :=
  numbered "r4"
    [functionKey "√" "sqrt", functionKey "log" "log", functionKey "ln" "ln",
      insertKey "x²" "^2", insertKey "x³" "^3", insertKey "xʸ" "^", insertKey "n!" "!",
      insertKey "π" "π"]

def digitKeys : List (List String) :=
  [["7", "8", "9", "/", "("], ["4", "5", "6", "*", ")"], ["1", "2", "3", "-", "e"],
    ["0", ".", "=", "+"]]

def digitRows : List (List Button) :=
  digitKeys.zipIdx.map fun (keys, row) =>
    numbered ("k" ++ (Text.ofNat row).spell) (keys.map fun key =>
      if key = "=" then (text key, .named (text "equals")) else insertKey key key)

def plain (label name : String) : Button :=
  { key := none, label := text label, action := .request (.named (text name)) }

def settingsRow (m : Modes) : List Button :=
  [plain (if m.theme = .dark then "☀️ Light theme" else "🌙 Dark theme") "theme",
    plain (if m.showHistory then "Hide history" else "Show history") "show_history"]

def rows (m : Modes) : List (List Button) :=
  controlRow m :: pairRow "trig" Keypad.trigonometricPairs m.shift ::
    pairRow "hyp" Keypad.hyperbolicPairs m.shift :: functionRow :: digitRows ++ [settingsRow m]

def placed (row : Nat) (buttons : List Button) : List Element :=
  buttons.zipIdx.map fun (b, column) => .button b (some (row, column))

def style (theme : Theme) : Text :=
  match theme with
  | .dark => text "<style>.stApp\x7bbackground:#111827;color:#f9fafb;\x7d</style>"
  | .light => text "<style>.stApp\x7bbackground:#f9fafb;color:#111827;\x7d</style>"

def downloadLabel : Text := text "Download history (CSV)"

/-- The entries up to the first one that cannot be shown. -/
def shownEntries : List DocText → List Text
  | [] => []
  | e :: rest =>
    match e.text? with
    | some t => t :: shownEntries rest
    | none => []

/-- The panel that shows the history: a button for every entry, then a row with the number
`row`. -/
def historyPanel (row : Nat) (history : List DocText) : List Element :=
  .subheader (text "History") ::
    if history.isEmpty then [.caption (text "No history yet. Calculate something!")]
    else
      (numbered "hist" ((shownEntries history).map fun e => (e, .fromHistory e))).map
        (.button · none) ++
        if history.all DocText.isPlain then
          placed row
            [{ key := none, label := downloadLabel,
               action := .download (Csv.writeColumn (text "expr") (shownEntries history)) },
              plain "Clear history" "clear_history"]
        else []

/-- The buffer with a bar where the caret is. -/
def caretText (s : Screen) : Text :=
  let caret := Text.position s.buffer.length s.cursor
  s.buffer.take caret ++ '│' :: s.buffer.drop caret

/-- Whether the script breaks off at an entry of the history. -/
def breaksOff (s : Screen) : Bool := s.modes.showHistory && !s.history.all DocText.isPlain

def heading : List Element :=
  [.page (text "SciCalc • Streamlit") (text "🧮") (text "centered"),
    .title (text "🧮 Scientific Calculator"),
    .caption (text "Streamlit • SymPy-powered • History • Memory • Degree/Radian toggle")]

def footer : List Element :=
  [.divider,
    .caption (text ("Made with ❤️ using Streamlit + SymPy. " ++
      "Degree mode converts sin/cos/tan arguments to radians before evaluation."))]

/-- What is drawn below the heading, with a warning if there is one, from top to bottom. -/
def body (s : Screen) (warning : Option Text) : List Element :=
  let rows := rows s.modes
  [.markup (style s.modes.theme), .display (text "Expression") (caretText s)] ++
    warning.toList.map .warning ++
    (rows.zipIdx.flatMap fun (buttons, row) => placed row buttons) ++
    (if s.modes.showHistory then historyPanel rows.length s.history else []) ++
    if breaksOff s then [] else footer

def buttons (p : Page) : List Button := p.elements.filterMap Element.button?

/-- The button that a click names: by its key or, if it has none, by its label. -/
def button? (p : Page) (name : Text) : Option Button :=
  p.buttons.find? fun b => b.key.getD b.label = name

/-- Draws the session. A warning is shown once. -/
def draw (p : Page) : Page :=
  { p with
    elements := heading ++ body p.session.screen p.warning
    warning := none
    failure := if breaksOff p.session.screen then some .halfPair else none }

section script

variable [Stack]

/-- Obeys a request: the page after that, and what went wrong. -/
def obey (p : Page) (r : Request) : Page × Option PageError :=
  match r.command with
  | .error e => (p, some e)
  | .ok c =>
    let step := p.session.run p.store c
    ({ p with session := step.session, store := step.store }, step.error.map .command)

/-- One run of the script, and whether it asks to be run again. -/
def runScript (p : Page) : Page × Bool :=
  match p.pending with
  | none => (p.draw, false)
  | some r =>
    match p.obey r with
    | (q, none) => ({ q with pending := none }, true)
    | (q, some e) =>
      match e.warning? with
      | some w => ({ q with pending := none, warning := some w }, true)
      | none => ({ q with elements := heading, failure := some e }, false)

/-- Runs the script, and once more if it asks for that. -/
def refresh (p : Page) : Page :=
  match p.runScript with
  | (q, true) => q.runScript.1
  | (q, false) => q

def start (settings : Settings) (file : File) : Except StoreError Page := do
  let store := Store.file file
  let session ← Session.start settings.historyLimit settings.angleUnit store
  return ({ session, store } : Page).refresh

def click (p : Page) (b : Button) : Page :=
  match b.action with
  | .request r => ({ p with pending := some r } : Page).refresh
  | .download _ => p.refresh

def click? (p : Page) (name : Text) : Option Page := (p.button? name).map p.click

end script

/-- The file that the page keeps its session in. -/
def file (p : Page) : File :=
  match p.store with
  | .file f => f
  | .memory _ _ => .missing

end Page

end DeskCalc
