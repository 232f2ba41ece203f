import DeskCalc.Page

/-!
# The script of the page

A click is done in two runs of the script: the first obeys the request that the click has left, the
second finds none and draws the session. So what is on the screen after a click is drawn for the
session that the command of the button leaves behind, unless something went wrong that there is no
warning about; then nothing is left to click on.
-/

namespace DeskCalc

/-- The command that a click on a button gives to the session, if it gives one. -/
def Button.command? (b : Button) : Option Command :=
  match b.action with
  | .request r => r.command.toOption
  | .download _ => none

theorem Button.command?_eq_some_iff {b : Button} {c : Command} :
    b.command? = some c ↔ ∃ r, b.action = .request r ∧ r.command = .ok c := by
  unfold command?
  split
  · next r h =>
    rw [h]
    cases hr : r.command <;> simp [Except.toOption, hr]
  · next data h => simp [h]

namespace Page

/-- A page that is drawn for a session, with a warning if there is one. -/
def shown (s : Session) (store : Store) (warning : Option Text) : Page :=
  { session := s, store, elements := heading ++ body s.screen warning
    failure := if breaksOff s.screen then some .halfPair else none }

/-- A page whose script broke off while it obeyed a request. -/
def broken (r : Request) (e : PageError) (s : Session) (store : Store) : Page :=
  { session := s, store, pending := some r, elements := heading, failure := some e }

/-- The page after a command that a request asks for. -/
def afterStep (r : Request) (step : Step) : Page :=
  match step.error with
  | none => shown step.session step.store none
  | some e =>
    match (PageError.command e).warning? with
    | some m => shown step.session step.store (some m)
    | none => broken r (.command e) step.session step.store

section stack

variable [Stack]

section script

variable {p q : Page}

private theorem runScript_of_idle (h : p.pending = none) : p.runScript = (p.draw, false) := by
  rw [runScript, h]

section requests

variable {r : Request} {e : PageError} (hpending : p.pending = some r)

include hpending

private theorem runScript_of_obeyed (h : p.obey r = (q, none)) :
    p.runScript = ({ q with pending := none }, true) := by
  rw [runScript, hpending]
  dsimp only
  rw [h]

private theorem runScript_of_warned {w : Text} (h : p.obey r = (q, some e))
    (hw : e.warning? = some w) :
    p.runScript = ({ q with pending := none, warning := some w }, true) := by
  rw [runScript, hpending]
  dsimp only
  rw [h]
  dsimp only
  rw [hw]

private theorem runScript_of_failed (h : p.obey r = (q, some e)) (hw : e.warning? = none) :
    p.runScript = ({ q with elements := heading, failure := some e }, false) := by
  rw [runScript, hpending]
  dsimp only
  rw [h]
  dsimp only
  rw [hw]

end requests

/-- A run that asks for another leaves nothing to be done, so the other one draws the page. -/
private theorem pending_of_again (h : p.runScript = (q, true)) : q.pending = none := by
  unfold runScript at h
  split at h
  · simp at h
  · split at h
    · obtain rfl := (Prod.mk.inj h).1
      rfl
    · split at h
      · obtain rfl := (Prod.mk.inj h).1
        rfl
      · simp at h

private theorem refresh_of_idle (h : p.pending = none) : p.refresh = p.draw := by
  rw [refresh, runScript_of_idle h]

private theorem refresh_of_again (h : p.runScript = (q, true)) : p.refresh = q.draw := by
  rw [refresh, h]
  dsimp only
  rw [runScript_of_idle (pending_of_again h)]

end script

section clicks

variable {s : Session} {store : Store} {warning : Option Text} {b : Button}

theorem start_eq_ok_iff {settings : Settings} {f : File} {p : Page} :
    start settings f = .ok p ↔
      ∃ s, Session.start settings.historyLimit settings.angleUnit (.file f) = .ok s ∧
        p = shown s (.file f) none := by
  have hshown : ∀ s : Session,
      ({ session := s, store := .file f } : Page).refresh = shown s (.file f) none := fun s => rfl
  unfold start
  cases hs : Session.start settings.historyLimit settings.angleUnit (.file f) with
  | error e => simp [bind, Except.bind, hs]
  | ok s => simp [bind, Except.bind, pure, Except.pure, hs, hshown, eq_comm]

theorem click_download {data : Text} (hb : b.action = .download data) :
    (shown s store warning).click b = shown s store none := by
  rw [click, hb]
  exact refresh_of_idle rfl

/-- The request of a click is obeyed once. A save that failed is told by a warning. -/
theorem click_request {r : Request} {c : Command} (hb : b.action = .request r)
    (hc : r.command = .ok c) :
    (shown s store warning).click b = afterStep r (s.run store c) := by
  obtain ⟨clicked, hclicked⟩ :
      ∃ q : Page, { shown s store warning with pending := some r } = q := ⟨_, rfl⟩
  have hpending : clicked.pending = some r := by rw [← hclicked]
  have hobey : clicked.obey r =
      ({ clicked with session := (s.run store c).session, store := (s.run store c).store },
        (s.run store c).error.map .command) := by
    rw [obey, hc, ← hclicked]
    rfl
  have hclick : (shown s store warning).click b = clicked.refresh := by
    rw [click, hb, ← hclicked]
  rw [hclick, afterStep]
  cases herror : (s.run store c).error with
  | none =>
    rw [herror] at hobey
    rw [refresh_of_again (runScript_of_obeyed hpending hobey), ← hclicked]
    rfl
  | some e =>
    rw [herror, Option.map_some] at hobey
    dsimp only
    cases hwarning : (PageError.command e).warning? with
    | some m =>
      rw [refresh_of_again (runScript_of_warned hpending hobey hwarning), ← hclicked]
      rfl
    | none =>
      rw [refresh, runScript_of_failed hpending hobey hwarning, ← hclicked]
      rfl

end clicks

end stack

theorem afterStep_of_no_error (r : Request) {step : Step} (h : step.error = none) :
    afterStep r step = shown step.session step.store none := by
  rw [afterStep, h]

theorem afterStep_session (r : Request) (step : Step) :
    (afterStep r step).session = step.session ∧ (afterStep r step).store = step.store := by
  unfold afterStep
  split
  · exact ⟨rfl, rfl⟩
  · split <;> exact ⟨rfl, rfl⟩

end Page

end DeskCalc
