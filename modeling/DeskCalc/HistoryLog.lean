import DeskCalc.History
import DeskCalc.Store

/-!
# The history in a store

The entries of a history are loaded once and saved after every change. The entries change first, so
they have changed also when the save fails.
-/

namespace DeskCalc

structure HistoryLog where
  /-- The number of entries that are kept. -/
  limit : Int
  entries : List DocText

namespace HistoryLog

variable [Stack]

/-- The history that a store holds. -/
def load (limit : Int) (store : Store) : Except StoreError HistoryLog :=
  store.loadHistory.map fun entries => ⟨limit, History.keep limit entries⟩

/-- Keeps the given entries, and the outcome of saving them. -/
def replace (entries : List DocText) (log : HistoryLog) (store : Store) :
    HistoryLog × Except StoreError Store :=
  let kept := History.keep log.limit entries
  ({ log with entries := kept }, store.saveHistory kept)

/-- Records an expression, and the outcome of saving it. -/
def record (expression : DocText) (log : HistoryLog) (store : Store) :
    HistoryLog × Except StoreError Store :=
  log.replace (History.record log.limit expression log.entries) store

/-- Forgets all entries, and the outcome of saving that. -/
def clear (log : HistoryLog) (store : Store) : HistoryLog × Except StoreError Store :=
  log.replace [] store

end HistoryLog

end DeskCalc
