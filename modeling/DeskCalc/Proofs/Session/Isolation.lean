import DeskCalc.Proofs.Session.Effects

/-!
# Sessions and what happens to their store

A save may fail, and others may change or damage the store between two commands. None of this
reaches a session that is open: it shows what its commands make of it. So two sessions opened on
stores with the same history and theme show the same after the same commands, whatever store each
command finds, and in both the screen shows the entries of the log.
-/

namespace DeskCalc.Session

section stack

variable [Stack]

/-- The sessions that commands leave behind one after the other. Beside each command stands the
store that it finds, which need not be the one that the command before it left. -/
def obeyed (s : Session) : List (Command × Store) → List Session
  | [] => []
  | (c, found) :: rest => (s.run found c).session :: (s.run found c).session.obeyed rest

private theorem obeyed_eq_of_commands {s : Session} {as bs : List (Command × Store)}
    (h : as.map Prod.fst = bs.map Prod.fst) : s.obeyed as = s.obeyed bs := by
  induction as generalizing s bs with
  | nil =>
    obtain rfl := List.map_eq_nil_iff.mp h.symm
    rfl
  | cons a as ih =>
    obtain ⟨b, bs, rfl, hb, hbs⟩ := List.map_eq_cons_iff.mp h.symm
    obtain ⟨c, found⟩ := a
    obtain ⟨c', found'⟩ := b
    obtain rfl : c' = c := hb
    rw [obeyed, obeyed, run_session s found' found, ih hbs.symm]

/-- What every command keeps holds of every session that commands leave behind. -/
theorem obeyed_keeps {P : Session → Prop} (step : ∀ s store c, P s → P (s.run store c).session)
    {s : Session} (hs : P s) (as : List (Command × Store)) : ∀ t ∈ s.obeyed as, P t := by
  induction as generalizing s with
  | nil => simp [obeyed]
  | cons a as ih =>
    obtain ⟨c, found⟩ := a
    have hnext : P (s.run found c).session := step s found c hs
    exact List.forall_mem_cons.mpr ⟨hnext, ih hnext⟩

/-- Two sessions that are opened alike on stores with one history and one theme are the same after
every command, whatever store each command finds and whether or not it can save there. The screen
always shows the entries of the log, and a command leaves the same session on every store, so one
that could not save has changed the session as if it could. -/
theorem undisturbed_by_stores {limit : Int} (hlimit : 0 ≤ limit) (unit : AngleUnit) {a b : Store}
    (hhistory : a.loadHistory = b.loadHistory) (htheme : a.loadTheme = b.loadTheme) :
    start limit unit a = start limit unit b ∧
      ∀ s, start limit unit a = .ok s →
        (∀ as bs : List (Command × Store), as.map Prod.fst = bs.map Prod.fst →
          s.obeyed as = s.obeyed bs) ∧
        ∀ (as : List (Command × Store)), ∀ t ∈ s :: s.obeyed as,
          t.screen.history = t.log.entries ∧
            ∀ c found other, (t.run found c).session = (t.run other c).session := by
  refine ⟨start_congr hhistory htheme, fun s hs => ⟨fun as bs => obeyed_eq_of_commands, ?_⟩⟩
  intro as t ht
  have hopened : s.Mirrors := by
    obtain ⟨history, theme, rfl⟩ := opened_of_start hs
    exact opened_mirrors hlimit ..
  have hall : ∀ t ∈ s :: s.obeyed as, t.Mirrors :=
    List.forall_mem_cons.mpr ⟨hopened, obeyed_keeps (fun _ => run_mirrors) hopened as⟩
  exact ⟨(hall t ht).history, fun c found other => run_session t found other c⟩

end stack

attribute [local instance] Stack.shallow

/-- Two stores alike, of which one is blocked by the time of the calculation and turns into a
directory before the history is cleared. -/
theorem undisturbed_by_failing_saves :
    let a := Store.memory (some [.ofText (text "1+1")]) (some .light)
    let b := Store.file (.text
      (text "\x7b\"calculator_history\": [\"1+1\"], \"calculator_theme\": \"light\"\x7d"))
    ∃ s, start 1 .degrees a = .ok s ∧ start 1 .degrees b = .ok s ∧
      (s.run (.file .directory) .clearHistory).error =
        some (.store (.couldNotSave Store.historyKey)) ∧
      s.obeyed [(.recallHistory (text "2+3"), a), (.calculate, a), (.clearHistory, a)] =
        s.obeyed [(.recallHistory (text "2+3"), b), (.calculate, .file .blocked),
          (.clearHistory, .file .directory)] := by
  intro a b
  obtain ⟨hstart, hall⟩ := undisturbed_by_stores (by decide : (0 : Int) ≤ 1) .degrees
    (by decide +kernel : a.loadHistory = b.loadHistory)
    (by decide +kernel : a.loadTheme = b.loadTheme)
  exact ⟨_, rfl, hstart.symm, rfl, (hall _ rfl).1 _ _ rfl⟩

end DeskCalc.Session
