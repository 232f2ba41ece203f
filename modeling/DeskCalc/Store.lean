import DeskCalc.Json.Reader
import DeskCalc.Json.Writer
import DeskCalc.Modes
import DeskCalc.Stack

/-!
# The store

History and theme outlive a session in a store: in memory, or as two members of one document in a
file. A file that is missing or damaged counts as an empty document; a save replaces one member and
keeps all others. It fills a temporary file, which then takes the place of the old one, so a save
that fails leaves the file as it was. A file that holds no text, an integer that is too long or too
many brackets in one another can be neither loaded nor saved to.
-/

namespace DeskCalc

/-- The steps in which a save replaces the file. -/
inductive WriteStep where
  | makeDirectory | makeTemporary | fillTemporary | putInPlace
  deriving DecidableEq

/-- What is found at the place where the document is kept. -/
inductive File where
  | missing
  | text (content : Text)
  /-- A text that no save replaces, since the system refuses a step of it. -/
  | fixed (content : Text) (refused : WriteStep)
  /-- Bytes that encode no text. -/
  | bytes (content : ByteArray)
  /-- A place that cannot exist, below something that is no directory. -/
  | blocked
  | directory

namespace File

def ofBytes (content : ByteArray) : File :=
  match String.fromUTF8? content with
  | some s => text s.toList
  | none => bytes content

end File

inductive StoreError where
  /-- The file holds no text. -/
  | notText
  /-- An integer in the file has so many digits, more than can be read. -/
  | tooLong (digits : Nat)
  /-- An array or an object in the file is nested deeper than the stack allows. -/
  | tooDeep (isArray : Bool)
  /-- Half of a pair of code units would have to be written. -/
  | halfPair
  | couldNotSave (key : Text)
  deriving DecidableEq

def StoreError.message? : StoreError → Option Text
  | notText | halfPair => none
  | tooLong digits =>
    some (text "Exceeds the limit (" ++ Text.ofNat Text.digitLimit ++
      text " digits) for integer string conversion: value has " ++ Text.ofNat digits ++
      text " digits; use sys.set_int_max_str_digits() to increase the limit")
  | tooDeep isArray =>
    some (text "maximum recursion depth exceeded while decoding a JSON " ++
      text (if isArray then "array" else "object") ++ text " from a unicode string")
  | couldNotSave key => some (text "Could not save " ++ key)

/-- The members of the document in a file. -/
abbrev Document := List (DocText × Json)

namespace Document

/-- The document that a text holds, in which brackets may be nested `room` deep: none of its members
if it is damaged or no object. -/
def ofText (room : Nat) (t : Text) : Except StoreError Document :=
  match Json.ofText room t with
  | .ok (.object members) => .ok members
  | .error (.tooLong digits) => .error (.tooLong digits)
  | .error (.tooDeep isArray) => .error (.tooDeep isArray)
  | _ => .ok []

def toText? (d : Document) : Option Text := (Json.object d).toText?

end Document

/-- The file of a document, and the temporary file beside it if there is one. -/
structure Place where
  file : File
  temporary : Option Text := none

namespace WriteStep

def all : List WriteStep := [makeDirectory, makeTemporary, fillTemporary, putInPlace]

/-- The place after a step. There may be no text that the temporary file could be filled with. -/
def perform? (content : Option Text) (p : Place) : WriteStep → Option Place
  | makeDirectory => some p
  | makeTemporary => some { p with temporary := some [] }
  | fillTemporary => content.map fun t => { p with temporary := some t }
  | putInPlace => some { file := p.temporary.elim p.file .text }

/-- Takes steps up to one that the system refuses or that cannot be taken: the place after them, and
what went wrong. -/
def take (key : Text) (content : Option Text) (refused : WriteStep → Bool) (p : Place) :
    List WriteStep → Place × Option StoreError
  | [] => (p, none)
  | s :: rest =>
    if refused s then (p, some (.couldNotSave key))
    else
      match s.perform? content p with
      | some p => take key content refused p rest
      | none => (p, some .halfPair)

end WriteStep

def File.refuses : File → WriteStep → Bool
  | fixed _ refused, s => s = refused
  | blocked, s => s = .makeDirectory
  | directory, s => s = .putInPlace
  | _, _ => false

inductive Store where
  | memory (history : Option (List DocText)) (theme : Option Theme)
  | file (f : File)

namespace Store

def historyKey : Text := text "calculator_history"

def themeKey : Text := text "calculator_theme"

/-- The document in a file, in which brackets may be nested `room` deep. -/
def read (room : Nat) : File → Except StoreError Document
  | .text t | .fixed t _ => Document.ofText room t
  | .bytes _ => .error .notText
  | .missing | .blocked | .directory => .ok []

/-- The history in a document; what is no text is left out. -/
def historyOf (d : Document) : List DocText :=
  match Json.get? (.ofText historyKey) d with
  | some (.array items) => Json.strings items
  | _ => []

def themeOf (d : Document) : Option Theme :=
  match Json.get? (.ofText themeKey) d with
  | some (.string s) => s.text?.bind Theme.ofName?
  | _ => none

section access

variable [Stack]

/-- Replaces one member of the document in a file, unless a step is refused: the place after that,
and what went wrong. -/
def replaceMember (refused : WriteStep → Bool) (key : Text) (value : Json) (p : Place) :
    Place × Option StoreError :=
  match read Stack.saving p.file with
  | .error e => (p, some e)
  | .ok d =>
    WriteStep.take key (Document.toText? (Json.set (.ofText key) value d)) refused p WriteStep.all

def write (key : Text) (value : Json) (f : File) : Except StoreError File :=
  match replaceMember f.refuses key value { file := f } with
  | (p, none) => .ok p.file
  | (_, some e) => .error e

def loadHistory : Store → Except StoreError (List DocText)
  | memory history _ => .ok (history.getD [])
  | file f => (read Stack.loading f).map historyOf

def loadTheme : Store → Except StoreError (Option Theme)
  | memory _ theme => .ok theme
  | file f => (read Stack.loading f).map themeOf

def saveHistory (entries : List DocText) : Store → Except StoreError Store
  | memory _ theme => .ok (memory (some entries) theme)
  | file f => (write historyKey (.array (entries.map .string)) f).map file

def saveTheme (theme : Theme) : Store → Except StoreError Store
  | memory history _ => .ok (memory history (some theme))
  | file f => (write themeKey (.string (.ofText theme.name)) f).map file

end access

end Store

end DeskCalc
