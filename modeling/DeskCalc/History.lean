import DeskCalc.Text.Basic

/-!
# History

The expressions that were calculated, most recent first and none twice. Recording an expression
moves it to the front, and only so many entries are kept: `mem_promote` and `nodup_promote` say
what a recorded expression does to the entries, `keep_of_nonneg` what a limit keeps.
-/

namespace DeskCalc.History

variable {α : Type}

def defaultLimit : Int := 15

/-- The first `limit` entries. A negative limit drops that many entries at the end. -/
def keep (limit : Int) (entries : List α) : List α :=
  entries.take (Text.position entries.length limit)

/-- Moves an expression to the front, with any older copy removed. -/
def promote [DecidableEq α] (expression : α) (entries : List α) : List α :=
  expression :: entries.filter (· ≠ expression)

def record [DecidableEq α] (limit : Int) (expression : α) (entries : List α) : List α :=
  keep limit (promote expression entries)

theorem keep_of_nonneg {limit : Int} (h : 0 ≤ limit) (entries : List α) :
    keep limit entries = entries.take limit.toNat := by
  rw [keep, Text.position, if_neg (by omega)]

@[simp]
theorem keep_nil (limit : Int) : keep limit ([] : List α) = [] := List.take_nil

/-- What a limit keeps, it keeps again, unless it drops entries at the end. -/
theorem keep_keep {limit : Int} (h : 0 ≤ limit) (entries : List α) :
    keep limit (keep limit entries) = keep limit entries := by
  rw [keep_of_nonneg h, keep_of_nonneg h, List.take_take, Nat.min_self]

theorem mem_promote [DecidableEq α] {expression x : α} {entries : List α} :
    x ∈ promote expression entries ↔ x = expression ∨ x ∈ entries := by
  by_cases h : x = expression <;> simp [promote, h]

theorem mem_of_mem_record [DecidableEq α] {limit : Int} {expression x : α} {entries : List α}
    (h : x ∈ record limit expression entries) : x = expression ∨ x ∈ entries :=
  mem_promote.mp (List.mem_of_mem_take h)

theorem nodup_promote [DecidableEq α] {expression : α} {entries : List α} (h : entries.Nodup) :
    (promote expression entries).Nodup := by
  unfold promote
  rw [List.nodup_cons]
  exact ⟨by simp, h.filter _⟩

end DeskCalc.History
