import DeskCalc.Proofs.Session.Effects

/-!
# Closing and opening sessions

On a store that can be written and that nobody else writes, what a session shows and what the store
holds never drift apart: the history on the screen is the first part of the one in the store, and
the theme is the one in the store. So a session can be closed after any command, and the next one
goes on with the same history and theme. The limit may change from one session to the next; entries
beyond it stay in the store until the history changes.
-/

namespace DeskCalc.Session

/-- What happens to a calculator: a command, or a new session in place of the old one. -/
inductive Event where
  | command (c : Command)
  | reopen (limit : Int) (unit : AngleUnit)

/-- Whether a session is opened with a limit that keeps no negative number of entries. -/
def Event.LimitNonneg : Event → Prop
  | command _ => True
  | reopen limit _ => 0 ≤ limit

/-- The limit of the session after an event. -/
def Event.limitAfter (before : Int) : Event → Int
  | command _ => before
  | reopen limit _ => limit

section stack

variable [Stack]

/-- The session and the store after an event. A session that cannot be opened does not replace the
old one. -/
def afterEvent (s : Session) (store : Store) : Event → Session × Store
  | .command c => ((s.run store c).session, (s.run store c).store)
  | .reopen limit unit => ((start limit unit store).toOption.getD s, store)

/-- The session and the store after some events. -/
def after (s : Session) (store : Store) : List Event → Session × Store
  | [] => (s, store)
  | e :: es => (s.afterEvent store e).1.after (s.afterEvent store e).2 es

/-- The session shows what the store holds: as many entries as its limit keeps, and the theme, which
is dark as long as none was saved. -/
structure Shows (s : Session) (history : List DocText) (theme : Option Theme) : Prop where
  mirrors : s.Mirrors
  entries : s.log.entries = History.keep s.log.limit history
  theme : s.screen.modes.theme = theme.getD .dark

omit [Stack] in
private theorem shows_opened {limit : Int} (hlimit : 0 ≤ limit) (unit : AngleUnit)
    (history : List DocText) (theme : Option Theme) :
    (opened limit unit history theme).Shows history theme :=
  ⟨opened_mirrors hlimit .., rfl, rfl⟩

/-- The session and the store agree. -/
def Agrees (s : Session) (store : Store) : Prop :=
  ∃ history theme, store.Holds history theme ∧ s.Shows history theme

private theorem Agrees.run {s : Session} {store : Store} (h : s.Agrees store) (c : Command) :
    (s.run store c).session.Agrees (s.run store c).store := by
  obtain ⟨history, theme, hholds, hmirrors, hentries, htheme⟩ := h
  have hmirrors' := run_mirrors store c hmirrors
  rcases run_cases s store c with ⟨-, hstore, hlog, ht, -⟩ |
    ⟨entries, -, hstore, hlog, ht, -, -, hnew⟩ | ⟨t, -, hstore, hlog, ht, -⟩
  · rw [Agrees, hstore]
    refine ⟨history, theme, hholds, hmirrors', ?_, ht.trans htheme⟩
    rw [hlog, hentries]
  · -- the entries were cut off before they were saved, so the limit keeps all that are read back
    have haccepts : store.Accepts (.history (History.keep s.log.limit entries)) := by
      refine hholds.accepts fun e he => ?_
      rcases hnew e (List.mem_of_mem_take he) with hold | hplain
      · exact .inl (List.mem_of_mem_take (hentries ▸ hold))
      · exact .inr hplain
    rw [Agrees, hstore]
    refine ⟨_, _, hholds.put haccepts, hmirrors', ?_, ht.trans htheme⟩
    rw [hlog]
    exact (History.keep_keep hmirrors.limit_nonneg entries).symm
  · rw [Agrees, hstore]
    have haccepts : store.Accepts (.theme t) :=
      Store.accepts_of_isPlain (Store.Saving.isPlain_theme t) store
    refine ⟨_, some t, hholds.put haccepts, hmirrors', ?_, ht⟩
    rw [hlog, hentries]
    rfl

private theorem afterEvent_reopen {store : Store} {history : List DocText} {theme : Option Theme}
    (h : store.Holds history theme) (s : Session) (limit : Int) (unit : AngleUnit) :
    s.afterEvent store (.reopen limit unit) = (opened limit unit history theme, store) := by
  rw [afterEvent, start_eq h.loadHistory h.loadTheme]
  rfl

private theorem Agrees.afterEvent {s : Session} {store : Store} (h : s.Agrees store) {e : Event}
    (he : e.LimitNonneg) : (s.afterEvent store e).1.Agrees (s.afterEvent store e).2 := by
  cases e with
  | command c => exact h.run c
  | reopen limit unit =>
    obtain ⟨history, theme, hholds, -⟩ := h
    rw [afterEvent_reopen hholds]
    exact ⟨history, theme, hholds, shows_opened he unit history theme⟩

private theorem Agrees.after {s : Session} {store : Store} (h : s.Agrees store) {es : List Event}
    (hes : ∀ e ∈ es, e.LimitNonneg) : (s.after store es).1.Agrees (s.after store es).2 := by
  induction es generalizing s store with
  | nil => exact h
  | cons e es ih =>
    obtain ⟨he, hes⟩ := List.forall_mem_cons.mp hes
    exact ih (h.afterEvent he) hes

/-- The limit of the session that is open after some events. -/
def lastLimit (limit : Int) (es : List Event) : Int := es.foldl Event.limitAfter limit

private theorem Agrees.limit_after {s : Session} {store : Store} (h : s.Agrees store)
    {es : List Event} (hes : ∀ e ∈ es, e.LimitNonneg) :
    (s.after store es).1.log.limit = lastLimit s.log.limit es := by
  induction es generalizing s store with
  | nil => rfl
  | cons e es ih =>
    obtain ⟨he, hes⟩ := List.forall_mem_cons.mp hes
    have hevent : (s.afterEvent store e).1.log.limit = e.limitAfter s.log.limit := by
      cases e with
      | command c => exact run_limit s store c
      | reopen limit unit =>
        obtain ⟨history, theme, hholds, -⟩ := h
        rw [afterEvent_reopen hholds]
        rfl
    rw [Session.after, ih (h.afterEvent he) hes, hevent]
    rfl

/-- On a store that can be written, a session opens, and after any commands and reopenings it shows
what the store then holds: the first entries of the history, as many as its limit keeps, and the
theme. A session opened at that moment with the same limit shows the same history and theme, and
starts with an empty buffer, the caret at its start and nothing in memory. -/
theorem reopening_loses_nothing {limit : Int} (hlimit : 0 ≤ limit) (unit : AngleUnit)
    {store : Store} (hstore : store.Writable) {es : List Event} (hes : ∀ e ∈ es, e.LimitNonneg) :
    ∃ s, start limit unit store = .ok s ∧
      let t := (s.after store es).1
      let left := (s.after store es).2
      let last := lastLimit limit es
      (∃ history theme, left.loadHistory = .ok history ∧ left.loadTheme = .ok theme ∧
        t.screen.history = history.take last.toNat ∧
        t.screen.modes.theme = theme.getD .dark) ∧
      ∀ unit', ∃ u, start last unit' left = .ok u ∧ u.screen.history = t.screen.history ∧
        u.screen.modes.theme = t.screen.modes.theme ∧ u.screen.buffer = [] ∧
        u.screen.cursor = 0 ∧ u.screen.memory = none := by
  obtain ⟨loaded, saved, hholds⟩ := hstore.holds
  have hopened : (opened limit unit loaded saved).Agrees store :=
    ⟨loaded, saved, hholds, shows_opened hlimit unit loaded saved⟩
  refine ⟨_, start_eq hholds.loadHistory hholds.loadTheme, ?_⟩
  intro t left last
  obtain ⟨history, theme, hleft, hmirrors, hentries, htheme⟩ := hopened.after hes
  have hlast : t.log.limit = last := hopened.limit_after hes
  have hnonneg : 0 ≤ last := hlast ▸ hmirrors.limit_nonneg
  have hscreen : t.screen.history = History.keep last history :=
    hlast ▸ hmirrors.history.trans hentries
  refine ⟨⟨history, theme, hleft.loadHistory, hleft.loadTheme, ?_, htheme⟩, fun unit' => ?_⟩
  · rw [hscreen, History.keep_of_nonneg hnonneg]
  · exact ⟨_, start_eq hleft.loadHistory hleft.loadTheme, hscreen.symm, htheme.symm, rfl, rfl, rfl⟩

end stack

attribute [local instance] Stack.shallow

/-- Three entries in a file, beside items and members of other kinds. A limit of two shows two of
them; a calculation under a limit of one keeps nothing else, also for the session after it. -/
theorem reopening_loses_nothing_under_smaller_limit :
    let store := Store.file (.text (text
      "\x7b\"calculator_history\": [\"1+1\", 7, \"2*3\", \"4-1\"], \"size\": 1.50\x7d"))
    let es : List Event :=
      [.command .toggleTheme, .reopen 1 .radians, .command (.recallHistory (text "3+4")),
        .command .calculate, .reopen 2 .degrees, .command .memorySave]
    ∃ s u, start 2 .degrees store = .ok s ∧
      s.screen.history = [text "1+1", text "2*3"].map .ofText ∧
      start 2 .radians (s.after store es).2 = .ok u ∧
      u.screen.history = [text "3+4"].map .ofText ∧
      u.screen.modes.theme = .light ∧ u.screen.memory = none := by
  intro store es
  have hstore : store.Writable := show Document.isRewritable _ = true by decide +kernel
  have hes : ∀ e ∈ es, e.LimitNonneg := by simp [es, Event.LimitNonneg]
  obtain ⟨s, hstart, -, hreopened⟩ :=
    reopening_loses_nothing (by decide : (0 : Int) ≤ 2) .degrees hstore hes
  obtain ⟨u, hu, hhistory, htheme, -, -, hmemory⟩ := hreopened .radians
  have hopened : start 2 .degrees store =
      .ok (opened 2 .degrees ([text "1+1", text "2*3", text "4-1"].map .ofText) none) :=
    start_eq (by decide +kernel) (by decide +kernel)
  obtain rfl : _ = s := Except.ok.inj (hopened.symm.trans hstart)
  refine ⟨_, u, hopened, rfl, hu, hhistory.trans ?_, htheme.trans ?_, hmemory⟩
  · decide +kernel
  · decide +kernel

end DeskCalc.Session
