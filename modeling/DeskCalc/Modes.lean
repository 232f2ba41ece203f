import DeskCalc.Text.Quoted

/-!
# Modes

The switches of the calculator: the unit of angles, the shift key, the colour theme and whether the
history is shown. Every switch has two positions and every toggle changes exactly one switch.
-/

namespace DeskCalc

inductive AngleUnit where
  | degrees | radians
  deriving DecidableEq, Repr

namespace AngleUnit

def name : AngleUnit → Text
  | degrees => ['d', 'e', 'g']
  | radians => ['r', 'a', 'd']

def ofName? (t : Text) : Option AngleUnit :=
  if t = degrees.name then some degrees else if t = radians.name then some radians else none

theorem ofName?_name (u : AngleUnit) : ofName? u.name = some u := by cases u <;> rfl

def toggled : AngleUnit → AngleUnit
  | degrees => radians
  | radians => degrees

@[simp]
theorem toggled_toggled (u : AngleUnit) : u.toggled.toggled = u := by cases u <;> rfl

end AngleUnit

inductive Theme where
  | dark | light
  deriving DecidableEq, Repr

namespace Theme

def name : Theme → Text
  | dark => ['d', 'a', 'r', 'k']
  | light => ['l', 'i', 'g', 'h', 't']

def ofName? (t : Text) : Option Theme :=
  if t = dark.name then some dark else if t = light.name then some light else none

theorem ofName?_name (t : Theme) : ofName? t.name = some t := by cases t <;> rfl

def toggled : Theme → Theme
  | dark => light
  | light => dark

@[simp]
theorem toggled_toggled (t : Theme) : t.toggled.toggled = t := by cases t <;> rfl

end Theme

/-- A name that stands for no unit or no theme. -/
inductive UnknownName where
  | angleUnit (name : Text)
  | theme (name : Text)
  deriving DecidableEq

def UnknownName.message : UnknownName → Text
  | angleUnit t => t.quoted ++ text " is not a valid AngleUnit"
  | theme t => t.quoted ++ text " is not a valid Theme"

structure Modes where
  angleUnit : AngleUnit := .degrees
  shift : Bool := false
  theme : Theme := .dark
  showHistory : Bool := false
  deriving DecidableEq, Repr

namespace Modes

def toggleAngleUnit (m : Modes) : Modes := { m with angleUnit := m.angleUnit.toggled }
def toggleShift (m : Modes) : Modes := { m with shift := !m.shift }
def toggleTheme (m : Modes) : Modes := { m with theme := m.theme.toggled }
def toggleHistory (m : Modes) : Modes := { m with showHistory := !m.showHistory }

end Modes

end DeskCalc
