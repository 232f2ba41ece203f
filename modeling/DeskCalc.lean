import DeskCalc.Answer
import DeskCalc.Buffer
import DeskCalc.ClosedForm.Approximation
import DeskCalc.ClosedForm.Arithmetic
import DeskCalc.ClosedForm.Basic
import DeskCalc.ClosedForm.Functions
import DeskCalc.Csv
import DeskCalc.Display
import DeskCalc.Evaluation
import DeskCalc.Formula.Numeral
import DeskCalc.Formula.Reader
import DeskCalc.Formula.Token
import DeskCalc.Formula.Tree
import DeskCalc.Formula.Value
import DeskCalc.History
import DeskCalc.HistoryLog
import DeskCalc.Json.Basic
import DeskCalc.Json.Reader
import DeskCalc.Json.Writer
import DeskCalc.Keypad
import DeskCalc.Modes
import DeskCalc.Notation
import DeskCalc.Number.Binary
import DeskCalc.Number.Double
import DeskCalc.Number.Elementary
import DeskCalc.Number.Gamma
import DeskCalc.Number.Roots
import DeskCalc.Number.Rounding
import DeskCalc.Number.Scalar
import DeskCalc.Page
import DeskCalc.Proofs.Arithmetic.Answer
import DeskCalc.Proofs.Arithmetic.Expression
import DeskCalc.Proofs.Arithmetic.Meaning
import DeskCalc.Proofs.Arithmetic.Reading
import DeskCalc.Proofs.Arithmetic.ZeroDivision
import DeskCalc.Proofs.Buffer.Coherent
import DeskCalc.Proofs.Buffer.Numbers
import DeskCalc.Proofs.Degrees.Argument
import DeskCalc.Proofs.Degrees.Beside
import DeskCalc.Proofs.Degrees.Conversion
import DeskCalc.Proofs.Degrees.Factorials
import DeskCalc.Proofs.Degrees.HalfTurns
import DeskCalc.Proofs.Degrees.Height
import DeskCalc.Proofs.Degrees.Periods
import DeskCalc.Proofs.Degrees.Reading
import DeskCalc.Proofs.Degrees.Terms
import DeskCalc.Proofs.Display.Accuracy
import DeskCalc.Proofs.Display.Again
import DeskCalc.Proofs.Display.Canonical
import DeskCalc.Proofs.Display.Reading
import DeskCalc.Proofs.Display.Rounded
import DeskCalc.Proofs.Display.Shape
import DeskCalc.Proofs.Display.Values
import DeskCalc.Proofs.Evaluation.Constants
import DeskCalc.Proofs.Evaluation.FactorialOperand
import DeskCalc.Proofs.Evaluation.LeadingZeros
import DeskCalc.Proofs.Evaluation.Logarithms
import DeskCalc.Proofs.Evaluation.Results
import DeskCalc.Proofs.Formula.EmptyCall
import DeskCalc.Proofs.Formula.Frames
import DeskCalc.Proofs.Formula.Lexing
import DeskCalc.Proofs.Formula.Numerals
import DeskCalc.Proofs.Formula.Precedence
import DeskCalc.Proofs.Formula.Reading
import DeskCalc.Proofs.Formula.Splice
import DeskCalc.Proofs.Formula.Steps
import DeskCalc.Proofs.Formula.Tokens
import DeskCalc.Proofs.Json.Numbers
import DeskCalc.Proofs.Json.Rereading
import DeskCalc.Proofs.Json.Room
import DeskCalc.Proofs.Json.Tidy
import DeskCalc.Proofs.Notation.Angles
import DeskCalc.Proofs.Notation.AtOnce
import DeskCalc.Proofs.Notation.Calls
import DeskCalc.Proofs.Notation.Composition
import DeskCalc.Proofs.Notation.Insertion
import DeskCalc.Proofs.Notation.Keypad
import DeskCalc.Proofs.Notation.Seams
import DeskCalc.Proofs.Notation.Splitting
import DeskCalc.Proofs.Number.Closeness
import DeskCalc.Proofs.Number.Decimals
import DeskCalc.Proofs.Number.Integers
import DeskCalc.Proofs.Number.Rounding
import DeskCalc.Proofs.Outcomes
import DeskCalc.Proofs.Page.Clicks
import DeskCalc.Proofs.Page.Coherence
import DeskCalc.Proofs.Page.Marker
import DeskCalc.Proofs.Page.Points
import DeskCalc.Proofs.Page.Script
import DeskCalc.Proofs.Page.View
import DeskCalc.Proofs.Reciprocals.Agreement
import DeskCalc.Proofs.Reciprocals.Quotient
import DeskCalc.Proofs.Reciprocals.Reading
import DeskCalc.Proofs.Reciprocals.Sides
import DeskCalc.Proofs.Session.Caret
import DeskCalc.Proofs.Session.Damaged
import DeskCalc.Proofs.Session.Distinct
import DeskCalc.Proofs.Session.Effects
import DeskCalc.Proofs.Session.Failures
import DeskCalc.Proofs.Session.Isolation
import DeskCalc.Proofs.Session.Presentation
import DeskCalc.Proofs.Session.Recent
import DeskCalc.Proofs.Session.Reopening
import DeskCalc.Proofs.Session.Runs
import DeskCalc.Proofs.Session.Sharing
import DeskCalc.Proofs.Session.Texts
import DeskCalc.Proofs.Session.Typing
import DeskCalc.Proofs.Settings.Numeral
import DeskCalc.Proofs.Settings.Validity
import DeskCalc.Proofs.Settings.Variables
import DeskCalc.Proofs.Store.Alike
import DeskCalc.Proofs.Store.Replacing
import DeskCalc.Proofs.Store.Saving
import DeskCalc.Session
import DeskCalc.Settings.Basic
import DeskCalc.Settings.EnvironmentFile
import DeskCalc.Settings.Integer
import DeskCalc.Settings.Path
import DeskCalc.Stack
import DeskCalc.Store
import DeskCalc.Text.Basic
import DeskCalc.Text.Blank
import DeskCalc.Text.Case
import DeskCalc.Text.CharClass
import DeskCalc.Text.Digit
import DeskCalc.Text.Letter
import DeskCalc.Text.Printable
import DeskCalc.Text.Quoted
import DeskCalc.Text.Stored
