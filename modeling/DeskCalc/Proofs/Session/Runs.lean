import DeskCalc.Session

/-!
# Runs of a session

A run obeys commands one after the other, each on the session and the store that the one before it
left behind, whether or not that one failed. What every command keeps is kept by every run.
-/

namespace DeskCalc.Session

variable [Stack]

/-- The session and the store after the given commands. -/
def runAll (s : Session) (store : Store) : List Command → Session × Store
  | [] => (s, store)
  | c :: cs => (s.run store c).session.runAll (s.run store c).store cs

@[simp]
theorem runAll_nil (s : Session) (store : Store) : s.runAll store [] = (s, store) := rfl

@[simp]
theorem runAll_cons (s : Session) (store : Store) (c : Command) (cs : List Command) :
    s.runAll store (c :: cs) = (s.run store c).session.runAll (s.run store c).store cs := rfl

theorem runAll_append (s : Session) (store : Store) (cs ds : List Command) :
    s.runAll store (cs ++ ds) =
      (s.runAll store cs).1.runAll (s.runAll store cs).2 ds := by
  induction cs generalizing s store with
  | nil => rfl
  | cons c cs ih => simpa using ih _ _

/-- What every allowed command keeps holds after every run of allowed commands. -/
theorem runAll_keeps {P : Session → Prop} {allowed : Command → Prop}
    (step : ∀ s store c, P s → allowed c → P (s.run store c).session)
    {s : Session} (store : Store) {cs : List Command} (hs : P s) (hcs : ∀ c ∈ cs, allowed c) :
    P (s.runAll store cs).1 := by
  induction cs generalizing s store with
  | nil => exact hs
  | cons c cs ih =>
    have hc : allowed c := hcs c (by simp)
    exact ih _ (step s store c hs hc) fun d hd => hcs d (by simp [hd])

end DeskCalc.Session
