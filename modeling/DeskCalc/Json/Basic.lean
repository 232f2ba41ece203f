import DeskCalc.Number.Double
import DeskCalc.Text.Stored

/-!
# JSON values

A document holds values of the usual seven kinds. Integers have any size, other numbers are doubles,
and the members of an object keep the order in which they were first set; a key that is set again
keeps its place.
-/

namespace DeskCalc

inductive Json where
  | null
  | bool (b : Bool)
  | integer (n : Int)
  | number (x : Double)
  | string (s : DocText)
  | array (items : List Json)
  | object (members : List (DocText × Json))

namespace Json

/-- Sets a member, in its old place or at the end. -/
def set (key : DocText) (value : Json) : List (DocText × Json) → List (DocText × Json)
  | [] => [(key, value)]
  | (k, v) :: rest => if k = key then (k, value) :: rest else (k, v) :: set key value rest

def get? (key : DocText) : List (DocText × Json) → Option Json
  | [] => none
  | (k, v) :: rest => if k = key then some v else get? key rest

@[simp]
theorem get?_set_self (key : DocText) (value : Json) (members : List (DocText × Json)) :
    get? key (set key value members) = some value := by
  induction members with
  | nil => simp [set, get?]
  | cons m rest ih =>
    obtain ⟨k, v⟩ := m
    by_cases h : k = key <;> simp [set, get?, h, ih]

theorem get?_set_of_ne {key other : DocText} (hne : key ≠ other) (value : Json)
    (members : List (DocText × Json)) :
    get? other (set key value members) = get? other members := by
  induction members with
  | nil => simp [set, get?, hne]
  | cons m rest ih =>
    obtain ⟨k, v⟩ := m
    by_cases h : k = key
    · simp [set, get?, h, hne]
    · simp [set, get?, h, ih]

/-- The texts among the items of an array. -/
def strings (items : List Json) : List DocText :=
  items.filterMap fun
    | string s => some s
    | _ => none

@[simp]
theorem strings_map_string (ss : List DocText) : strings (ss.map string) = ss := by
  induction ss with
  | nil => rfl
  | cons s ss ih => exact congrArg (s :: ·) ih

end Json

end DeskCalc
