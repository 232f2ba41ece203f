import DeskCalc.Text.Basic

/-!
# Tables as text

A table of one column, with a heading. A field that holds a comma, a quote or a line end is put
between quotes, with its quotes doubled, and so is an empty field.
-/

namespace DeskCalc.Csv

def needsQuotes (field : Text) : Bool :=
  field.isEmpty || field.any fun c => c = ',' || c = '"' || c = '\n'

def writeField (field : Text) : Text :=
  if needsQuotes field then
    '"' :: field.flatMap (fun c => if c = '"' then ['"', '"'] else [c]) ++ ['"']
  else field

/-- A column with its heading, one field a line. -/
def writeColumn (heading : Text) (fields : List Text) : Text :=
  (heading :: fields).flatMap fun field => writeField field ++ ['\n']

end DeskCalc.Csv
