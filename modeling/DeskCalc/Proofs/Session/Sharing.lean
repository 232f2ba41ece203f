import DeskCalc.Proofs.Session.Effects

/-!
# Sessions that share a store

Any number of sessions may be open on one store, and their commands may come in any order. Each of
them keeps the history that it has read or made, and none of them reads again. A save replaces one
of the two things that the store holds and leaves the other one to whoever wrote it last: so the
store always holds the history of the session that last calculated or cleared it, and the theme of
the session that last switched it.
-/

namespace DeskCalc

/-- Whether the store did what the command asked of it. -/
def Step.saved (t : Step) : Bool :=
  match t.error with
  | some (.store _) => false
  | _ => true

namespace Session

open Store (Saving)

private theorem saved_save (session : Session) (store : Store) (saved : Except StoreError Store) :
    (save session store saved).saved = saved.isOk := by
  cases saved <;> rfl

variable [Stack]

/-- A command that calculates with success or clears the history. -/
def writesHistory (s : Session) : Command → Bool
  | .calculate => s.answer.ok
  | .clearHistory => true
  | _ => false

/-- A command that switches the theme. -/
def writesTheme (_ : Session) : Command → Bool
  | .toggleTheme => true
  | _ => false

variable {s : Session} {store : Store} {c : Command}

theorem writesHistory_eq (s : Session) (c : Command) :
    s.writesHistory c = match s.saving? c with
      | some (.history _) => true
      | _ => false := by
  cases c with
  | calculate => cases h : s.answer.ok <;> simp [writesHistory, saving?, h]
  | _ => rfl

private theorem writesTheme_eq (s : Session) (c : Command) :
    s.writesTheme c = match s.saving? c with
      | some (.theme _) => true
      | _ => false := by
  cases c with
  | calculate => cases h : s.answer.ok <;> simp [writesTheme, saving?, h]
  | _ => rfl

theorem save_of_saved {v : Saving} (hv : s.saving? c = some v)
    (h : (s.run store c).saved = true) : ∃ store', store.save v = .ok store' := by
  have hok : (store.save v).isOk = true := by
    cases c with
    | calculate =>
      cases hanswer : s.answer.ok with
      | false => simp [saving?, hanswer] at hv
      | true =>
        obtain rfl : .history (History.keep s.log.limit s.answer.history) = v := by
          simpa [saving?, hanswer] using hv
        have hrun : s.run store .calculate =
            (s.update fun v => { v with buffer := s.answer.buffer, cursor := s.answer.cursor
                                        history := s.answer.history }).replaceEntries
              s.answer.history store := if_pos hanswer
        rw [hrun] at h
        exact (saved_save ..).symm.trans h
    | clearHistory =>
      obtain rfl : .history [] = v := Option.some.inj hv
      have hsaved := (saved_save ..).symm.trans h
      simpa [HistoryLog.replace, Store.save] using hsaved
    | toggleTheme =>
      obtain rfl : .theme s.screen.modes.theme.toggled = v := Option.some.inj hv
      exact (saved_save ..).symm.trans h
    | _ => simp [saving?] at hv
  cases hsave : store.save v with
  | ok store' => exact ⟨store', rfl⟩
  | error e => simp [hsave, Except.isOk, Except.toBool] at hok

end Session

/-- Sessions on one store. -/
structure Sharing where
  sessions : List Session
  store : Store

namespace Sharing

open Session (writesHistory writesTheme)

section latest

variable {α : Type} {w : Sharing} {shown : Session → α} {before a : α} {o : Option Nat}

/-- What the session that wrote last shows, or what was there before any of them wrote. -/
def latest (w : Sharing) (shown : Session → α) (before : α) : Option Nat → Option α
  | none => some before
  | some i => w.sessions[i]?.map shown

private theorem latest_append (h : w.latest shown before o = some a) (s : Session) :
    ({ w with sessions := w.sessions ++ [s] } : Sharing).latest shown before o = some a := by
  cases o with
  | none => exact h
  | some i =>
    obtain ⟨t, ht, rfl⟩ := Option.map_eq_some_iff.mp h
    have hi : i < w.sessions.length := (List.getElem?_eq_some_iff.mp ht).1
    rw [latest, List.getElem?_append_left hi, ht]
    rfl

private theorem latest_set {i : Nat} {s t : Session} (hs : w.sessions[i]? = some s)
    (hshown : shown t = shown s) (store : Store) :
    ({ sessions := w.sessions.set i t, store } : Sharing).latest shown before o =
      w.latest shown before o := by
  cases o with
  | none => rfl
  | some j =>
    rw [latest, latest, List.getElem?_set]
    split
    · next hij =>
      subst hij
      have hi : i < w.sessions.length := (List.getElem?_eq_some_iff.mp hs).1
      rw [if_pos hi, hs, Option.map_some, Option.map_some, hshown]
    · rfl

private theorem latest_self {i : Nat} {s : Session} (hs : w.sessions[i]? = some s) (t : Session)
    (store : Store) :
    ({ sessions := w.sessions.set i t, store } : Sharing).latest shown before (some i) =
      some (shown t) := by
  have hi : i < w.sessions.length := (List.getElem?_eq_some_iff.mp hs).1
  rw [latest, List.getElem?_set_self hi]
  rfl

end latest

section stack

variable [Stack]

/-- A session more, or a complete command of one of them. -/
inductive Turn where
  | opening (limit : Int) (unit : AngleUnit)
  | command (i : Nat) (c : Command)

/-- Whether a session is opened with a limit that keeps no negative number of entries. -/
def Turn.LimitNonneg : Turn → Prop
  | opening limit _ => 0 ≤ limit
  | command .. => True

/-- The sessions and the store after a turn. A session that cannot be opened changes nothing. -/
def after (w : Sharing) : Turn → Sharing
  | .opening limit unit =>
    match Session.start limit unit w.store with
    | .ok s => { w with sessions := w.sessions ++ [s] }
    | .error _ => w
  | .command i c =>
    match w.sessions[i]? with
    | some s =>
      { sessions := w.sessions.set i (s.run w.store c).session, store := (s.run w.store c).store }
    | none => w

def afterAll (w : Sharing) : List Turn → Sharing
  | [] => w
  | t :: ts => (w.after t).afterAll ts

/-- Whether the store does what the turn asks of it. -/
def saves (w : Sharing) : Turn → Bool
  | .opening .. => true
  | .command i c =>
    match w.sessions[i]? with
    | some s => (s.run w.store c).saved
    | none => true

def savesAll (w : Sharing) : List Turn → Bool
  | [] => true
  | t :: ts => w.saves t && (w.after t).savesAll ts

section writers

variable (writes : Session → Command → Bool)

/-- The session whose turn it is, if it writes. -/
def writer? (w : Sharing) : Turn → Option Nat
  | .opening .. => none
  | .command i c => w.sessions[i]?.bind fun s => if writes s c then some i else none

/-- The session that wrote last, if any did. -/
def lastWriter? (w : Sharing) : List Turn → Option Nat
  | [] => none
  | t :: ts => ((w.after t).lastWriter? ts).or (w.writer? writes t)

end writers

/-- The store holds the history of the session that wrote one last, and the theme of the session
that wrote one last. -/
structure Reflects (w : Sharing) (history : List DocText) (theme : Option Theme)
    (historian decorator : Option Nat) : Prop where
  mirrors : ∀ s ∈ w.sessions, s.Mirrors
  loadHistory : ∃ h, w.latest (fun s => s.screen.history) history historian = some h ∧
    w.store.loadHistory = .ok h
  loadTheme : ∃ t, w.latest (fun s => some s.screen.modes.theme) theme decorator = some t ∧
    w.store.loadTheme = .ok t

section runs

variable {w : Sharing} {history : List DocText} {theme : Option Theme}
  {historian decorator : Option Nat}

private theorem mirrors_set (h : ∀ s ∈ w.sessions, s.Mirrors) {i : Nat} {s : Session}
    (hs : w.sessions[i]? = some s) (store : Store) (c : Command) :
    ∀ t ∈ w.sessions.set i (s.run store c).session, t.Mirrors := by
  intro t ht
  rcases List.mem_or_eq_of_mem_set ht with ht | rfl
  · exact h t ht
  · exact Session.run_mirrors store c (h s (List.mem_of_getElem? hs))

private theorem Reflects.command (h : w.Reflects history theme historian decorator) {i : Nat}
    {s : Session} (hs : w.sessions[i]? = some s) {c : Command}
    (hsaved : (s.run w.store c).saved = true) :
    Reflects ⟨w.sessions.set i (s.run w.store c).session, (s.run w.store c).store⟩ history theme
      ((if s.writesHistory c then some i else none).or historian)
      ((if s.writesTheme c then some i else none).or decorator) := by
  obtain ⟨hmirrors, ⟨shown, hshown, hload⟩, ⟨worn, hworn, hloadTheme⟩⟩ := h
  have hall := mirrors_set hmirrors hs w.store c
  have hmirror := hmirrors s (List.mem_of_getElem? hs)
  rw [s.writesHistory_eq, s.writesTheme_eq]
  rcases Session.run_cases s w.store c with ⟨hsaving, hstore, -, htheme, hhistory⟩ |
    ⟨entries, hsaving, hstore, -, htheme, hhistory, ⟨all, hkept⟩, -⟩ |
    ⟨t, hsaving, hstore, -, htheme, hhistory⟩
  · -- nothing is saved; a history that is taken from the log is the one on the screen
    have hsame : (s.run w.store c).session.screen.history = s.screen.history := by
      rcases hhistory with hhistory | hhistory
      · exact hhistory
      · exact hhistory.trans hmirror.history.symm
    rw [hsaving, hstore]
    exact ⟨hall, ⟨shown, Eq.trans (latest_set hs hsame _) hshown, hload⟩,
      ⟨worn, Eq.trans (latest_set hs (by rw [htheme]) _) hworn, hloadTheme⟩⟩
  · obtain ⟨store', hsave⟩ := Session.save_of_saved hsaving hsaved
    obtain ⟨hload', hloadTheme'⟩ := Store.loads_of_save hsave hload hloadTheme
    have hput : (s.run w.store c).store = store' := hstore.trans (Store.put_of_save hsave)
    -- the screen shows the entries that were kept, and keeping them again drops none
    have hentries : History.keep s.log.limit entries = entries := by
      rw [hkept, History.keep_keep hmirror.limit_nonneg]
    rw [hsaving, hput]
    refine ⟨hall, ⟨entries, Eq.trans (latest_self hs _ _) (congrArg some hhistory), ?_⟩,
      ⟨worn, Eq.trans (latest_set hs (by rw [htheme]) _) hworn, hloadTheme'⟩⟩
    rw [hload', Store.Saving.historyAfter, hentries]
  · obtain ⟨store', hsave⟩ := Session.save_of_saved hsaving hsaved
    obtain ⟨hload', hloadTheme'⟩ := Store.loads_of_save hsave hload hloadTheme
    have hput : (s.run w.store c).store = store' := hstore.trans (Store.put_of_save hsave)
    rw [hsaving, hput]
    exact ⟨hall, ⟨shown, Eq.trans (latest_set hs hhistory _) hshown, hload'⟩,
      ⟨some t, Eq.trans (latest_self hs _ _) (congrArg (some <| some ·) htheme), hloadTheme'⟩⟩

private theorem Reflects.after (h : w.Reflects history theme historian decorator) {t : Turn}
    (ht : t.LimitNonneg) (hsaves : w.saves t = true) :
    (w.after t).Reflects history theme ((w.writer? writesHistory t).or historian)
      ((w.writer? writesTheme t).or decorator) := by
  cases t with
  | opening limit unit =>
    obtain ⟨hmirrors, ⟨shown, hshown, hload⟩, ⟨worn, hworn, hloadTheme⟩⟩ := h
    unfold Sharing.after
    dsimp only
    split
    · next s hstart =>
      obtain ⟨_, _, rfl⟩ := Session.opened_of_start hstart
      refine ⟨fun s hs => ?_, ⟨shown, latest_append hshown _, hload⟩,
        ⟨worn, latest_append hworn _, hloadTheme⟩⟩
      rcases List.mem_append.mp hs with hs | hs
      · exact hmirrors s hs
      · rw [List.mem_singleton.mp hs]
        exact Session.opened_mirrors ht ..
    · exact ⟨hmirrors, ⟨shown, hshown, hload⟩, ⟨worn, hworn, hloadTheme⟩⟩
  | command i c =>
    unfold Sharing.after writer?
    unfold saves at hsaves
    dsimp only at hsaves ⊢
    cases hs : w.sessions[i]? with
    | none => exact h
    | some s =>
      rw [hs] at hsaves
      exact h.command hs hsaves

private theorem Reflects.afterAll (h : w.Reflects history theme historian decorator)
    {ts : List Turn} (hts : ∀ t ∈ ts, t.LimitNonneg) (hsaves : w.savesAll ts = true) :
    (w.afterAll ts).Reflects history theme ((w.lastWriter? writesHistory ts).or historian)
      ((w.lastWriter? writesTheme ts).or decorator) := by
  induction ts generalizing w historian decorator with
  | nil => exact h
  | cons t ts ih =>
    obtain ⟨ht, hts⟩ := List.forall_mem_cons.mp hts
    obtain ⟨hsave, hsaves⟩ := Bool.and_eq_true_iff.mp hsaves
    -- a writer among the later turns counts before the writer of this one
    have hrest := ih (h.after ht hsave) hts hsaves
    rwa [← Option.or_assoc, ← Option.or_assoc] at hrest

private theorem store_after_of_not_writes {i : Nat} {c : Command}
    (h : ∀ s, w.sessions[i]? = some s → s.writesHistory c = false ∧ s.writesTheme c = false) :
    (w.after (.command i c)).store = w.store := by
  unfold Sharing.after
  dsimp only
  split
  · next s hs =>
    obtain ⟨hhistory, htheme⟩ := h s hs
    rw [s.writesHistory_eq] at hhistory
    rw [s.writesTheme_eq] at htheme
    rw [Session.run_store]
    cases hsaving : s.saving? c with
    | none => rfl
    | some v => cases v <;> simp [hsaving] at hhistory htheme
  · rfl

private theorem afterAll_of_unreadable {store : Store} {e : StoreError}
    (h : store.loadHistory = .error e) (ts : List Turn) :
    afterAll ⟨[], store⟩ ts = ⟨[], store⟩ := by
  induction ts with
  | nil => rfl
  | cons t ts ih =>
    have hturn : Sharing.after ⟨[], store⟩ t = ⟨[], store⟩ := by
      cases t with
      | opening limit unit =>
        unfold Sharing.after
        dsimp only
        split
        · next s hstart =>
          obtain ⟨history, hload⟩ := Session.loadHistory_of_start hstart
          rw [h] at hload
          exact absurd hload (by simp)
        · rfl
      | command i c => rfl
    rw [Sharing.afterAll, hturn, ih]

/-- On a store that does what is asked of it, whatever sessions are opened and in whatever order
they act, the store holds the history of the session that last calculated with success or cleared
its history, and the theme of the session that last switched it; what nobody wrote is as it was at
the start. Every other command leaves the store as it is. On a store that cannot be read no session
opens. -/
theorem last_writer_wins {store : Store} {ts : List Turn} (hts : ∀ t ∈ ts, t.LimitNonneg)
    (hsaves : savesAll ⟨[], store⟩ ts = true) :
    let w := afterAll ⟨[], store⟩ ts
    ((∃ history theme, store.loadHistory = .ok history ∧ store.loadTheme = .ok theme ∧
        (∃ h, w.latest (fun s => s.screen.history) history
          (lastWriter? writesHistory ⟨[], store⟩ ts) = some h ∧ w.store.loadHistory = .ok h) ∧
        ∃ t, w.latest (fun s => some s.screen.modes.theme) theme
          (lastWriter? writesTheme ⟨[], store⟩ ts) = some t ∧ w.store.loadTheme = .ok t) ∨
      (∃ e, store.loadHistory = .error e) ∧ w = ⟨[], store⟩) ∧
      ∀ i c, (∀ s, w.sessions[i]? = some s →
        s.writesHistory c = false ∧ s.writesTheme c = false) →
        (w.after (.command i c)).store = w.store := by
  intro w
  refine ⟨?_, fun i c => store_after_of_not_writes⟩
  cases hhistory : store.loadHistory with
  | error e => exact .inr ⟨⟨e, rfl⟩, afterAll_of_unreadable hhistory ts⟩
  | ok history =>
    obtain ⟨theme, htheme⟩ := Session.loadTheme_of_loadHistory hhistory
    have hstart : Reflects ⟨[], store⟩ history theme none none :=
      ⟨by simp, ⟨history, rfl, hhistory⟩, ⟨theme, rfl, htheme⟩⟩
    obtain ⟨-, hload, hloadTheme⟩ := hstart.afterAll hts hsaves
    rw [Option.or_none] at hload hloadTheme
    exact .inl ⟨history, theme, rfl, htheme, hload, hloadTheme⟩

end runs

end stack

attribute [local instance] Stack.shallow

/-- Two sessions on one file. The first one calculates, the second one switches the theme with the
old history still on its screen, and then fails to calculate. -/
theorem last_writer_wins_of_two :
    let store := Store.file (.text (text
      "\x7b\"calculator_history\": [\"2*3\"], \"size\": 1.50\x7d"))
    let ts : List Turn :=
      [.opening 2 .degrees, .opening 1 .radians, .command 0 (.recallHistory (text "1+1")),
        .command 0 .calculate, .command 1 .toggleTheme, .command 1 (.recallHistory (text "4/")),
        .command 1 .calculate]
    let w := afterAll ⟨[], store⟩ ts
    w.store.loadHistory = .ok ([text "1+1", text "2*3"].map .ofText) ∧
      w.store.loadTheme = .ok (some .light) ∧
      w.sessions.map (fun s => s.screen.history) =
        [[text "1+1", text "2*3"].map .ofText, [text "2*3"].map .ofText] := by
  intro store ts w
  have hts : ∀ t ∈ ts, t.LimitNonneg := by simp [ts, Turn.LimitNonneg]
  have hload : store.loadHistory = .ok ([text "2*3"].map .ofText) := by decide +kernel
  have hloadTheme : store.loadTheme = .ok none := by decide +kernel
  rcases (last_writer_wins hts (by decide +kernel : savesAll ⟨[], store⟩ ts = true)).1 with
    ⟨history, theme, hinitial, hinitial', ⟨h, hshown, hkept⟩, t, hworn, hkept'⟩ | ⟨⟨e, he⟩, -⟩
  case inr => exact absurd (hload.symm.trans he) (by simp)
  obtain rfl : [text "2*3"].map .ofText = history := Except.ok.inj (hload.symm.trans hinitial)
  obtain rfl : none = theme := Except.ok.inj (hloadTheme.symm.trans hinitial')
  have hsessions : w.sessions.map (fun s => s.screen.history) =
      [[text "1+1", text "2*3"].map .ofText, [text "2*3"].map .ofText] := by decide +kernel
  have hhistory : w.latest (fun s => s.screen.history) ([text "2*3"].map .ofText)
      (lastWriter? writesHistory ⟨[], store⟩ ts) =
        some ([text "1+1", text "2*3"].map .ofText) := by
    decide +kernel
  have htheme : w.latest (fun s => some s.screen.modes.theme) none
      (lastWriter? writesTheme ⟨[], store⟩ ts) = some (some .light) := by decide +kernel
  obtain rfl := Option.some.inj (hshown.symm.trans hhistory)
  obtain rfl := Option.some.inj (hworn.symm.trans htheme)
  exact ⟨hkept, hkept', hsessions⟩

end Sharing

end DeskCalc
