import DeskCalc.Proofs.Page.Clicks
import DeskCalc.Proofs.Session.Failures

/-!
# The page as a view of the session

A click gives the session one command, and what is then on the screen is drawn for the session that
the command leaves: its buffer with a bar where its caret is, and a warning if the command ended
with a save that failed. This holds for all sequences of clicks, unless the script breaks off: at
half of a pair of code units, which can be neither written to the file nor shown in the history, and
at a file that is nested too deep for a save to read it.
-/

namespace DeskCalc

/-- Whether an element shows the buffer or a warning. -/
def Element.isReport : Element → Bool
  | display _ _ => true
  | warning _ => true
  | _ => false

section stack

variable [Stack]

/-- The warning about a command: that it ends with a save and the save fails. -/
def Session.warning? (s : Session) (store : Store) (c : Command) : Option Text :=
  match s.saving? c with
  | none => none
  | some v =>
    match store.save v with
    | .ok _ => none
    | .error _ => some (text "Could not save calculator state: Could not save " ++ v.key)

namespace Page

omit [Stack] in
/-- The script has come to its end and shows the session that the page has: its buffer, with the bar
at its caret, and the given warnings. -/
structure Shows (p : Page) (warnings : List Text) : Prop where
  failure : p.failure = none
  pending : p.pending = none
  caret : p.session.CaretInside
  reports : p.elements.filter Element.isReport =
    .display (text "Expression") (caretText p.session.screen) :: warnings.map .warning

/-- A click on a button changes session and store as the command of the button does, and the page
then shows the session, with a warning exactly if a save of the command failed. A button without a
command changes neither, and hands out a file. -/
structure Follows (p : Page) (b : Button) : Prop where
  command : ∀ c, b.command? = some c →
    (p.click b).session = (p.session.run p.store c).session ∧
      (p.click b).store = (p.session.run p.store c).store ∧
      (p.click b).Shows (p.session.warning? p.store c).toList
  download : b.command? = none →
    (∃ data, b.action = .download data) ∧
      (p.click b).session = p.session ∧ (p.click b).store = p.store ∧ (p.click b).Shows []

section shown

omit [Stack]

variable {s : Session} {store : Store} {warning : Option Text}

private theorem filter_placed (row : Nat) (buttons : List Button) :
    (placed row buttons).filter Element.isReport = [] := by
  refine List.filter_eq_nil_iff.mpr fun e he => ?_
  obtain ⟨x, -, rfl⟩ := List.mem_map.mp he
  simp [Element.isReport]

private theorem filter_historyPanel (row : Nat) (history : List DocText) :
    (historyPanel row history).filter Element.isReport = [] := by
  have hlast (buttons : List Button) : (if history.all DocText.isPlain then placed row buttons
      else []).filter Element.isReport = [] := by
    split
    · exact filter_placed row buttons
    · rfl
  unfold historyPanel
  split
  · rfl
  · rw [List.filter_cons_of_neg (by simp [Element.isReport]), List.filter_append, hlast,
      List.append_nil, List.filter_eq_nil_iff]
    intro e he
    obtain ⟨b, -, rfl⟩ := List.mem_map.mp he
    simp [Element.isReport]

private theorem shows_shown (hplain : s.IsPlain) (hcaret : s.CaretInside) :
    (shown s store warning).Shows warning.toList where
  failure := by
    have hall : s.screen.history.all DocText.isPlain = true := List.all_eq_true.mpr hplain.history
    refine if_neg ?_
    simp [breaksOff, hall]
  pending := rfl
  caret := hcaret
  reports := by
    have hrows : ((rows s.screen.modes).zipIdx.flatMap fun x => placed x.2 x.1).filter
        Element.isReport = [] := by
      simp [List.filter_flatMap, filter_placed]
    have hwarnings : (warning.toList.map Element.warning).filter Element.isReport =
        warning.toList.map .warning := by
      cases warning <;> rfl
    have hpanel : (if s.screen.modes.showHistory = true then
        historyPanel (rows s.screen.modes).length s.screen.history else []).filter
          Element.isReport = [] := by
      split
      · exact filter_historyPanel _ _
      · rfl
    have hfooter : (if breaksOff s.screen then [] else footer).filter Element.isReport = [] := by
      split <;> rfl
    simp only [shown, body, List.filter_append, hrows, hwarnings, hpanel, hfooter, List.append_nil]
    rfl

private theorem isPlain_of_shows {warnings : List Text} (h : (shown s store warning).Shows warnings)
    (hopen : s.screen.modes.showHistory = true) : ∀ e ∈ s.screen.history, e.isPlain = true := by
  by_contra hhalf
  have hbreaks : breaksOff s.screen = true := by simpa [breaksOff, hopen] using hhalf
  exact absurd h.failure (by simp [shown, hbreaks])

end shown

/-- A page that follows its session, whatever is clicked on: every entry of the history can be
shown, the caret stands in the buffer, and a save that fails is reported. -/
inductive IsView : Page → Prop
  | shown {s : Session} {store : Store} (hplain : s.IsPlain) (hcaret : s.CaretInside)
    (hstore : store.IsOrderly) (warning : Option Text) : IsView (shown s store warning)

section clicks

variable {s : Session} {store : Store} {c : Command}

omit [Stack] in
private theorem warning?_couldNotSave (key : Text) :
    (PageError.command (.store (.couldNotSave key))).warning? =
      some (text "Could not save calculator state: Could not save " ++ key) := by
  have htext : text "Could not save calculator state: " ++ text "Could not save " =
      text "Could not save calculator state: Could not save " := by decide
  rw [← htext, List.append_assoc]
  rfl

private theorem afterStep_eq (r : Request) (hplain : s.IsPlain) (hcaret : s.CaretInside)
    (hstore : store.IsOrderly) (hc : c.IsOffered s.screen) :
    afterStep r (s.run store c) =
      shown (s.run store c).session (s.run store c).store (s.warning? store c) := by
  have herror := Session.run_error store hcaret (hc.keysPass Command.keypad_hasToken)
  unfold Session.warning?
  cases hsaving : s.saving? c with
  | none =>
    rw [hsaving] at herror
    exact afterStep_of_no_error r herror
  | some v =>
    rw [hsaving, Option.bind_some, Store.saveError?] at herror
    dsimp only
    cases hsave : store.save v with
    | ok store' =>
      rw [hsave] at herror
      exact afterStep_of_no_error r herror
    | error e =>
      obtain rfl : e = .couldNotSave v.key :=
        hstore v (Session.isPlain_of_saving? hplain.entries hsaving) e
          (by rw [Store.saveError?, hsave])
      rw [hsave] at herror
      rw [afterStep, herror, Option.map_some]
      dsimp only
      rw [warning?_couldNotSave]

/-- On a page that follows its session every button does what it is for, and the page follows the
session on. -/
theorem IsView.click {p : Page} (hp : p.IsView) {b : Button} (hb : b ∈ p.buttons) :
    p.Follows b ∧ (p.click b).IsView := by
  obtain ⟨hplain, hcaret, hstore, warning⟩ := hp
  rename_i s store
  rcases download_or_command hb with ⟨data, hdata⟩ | ⟨c, hc⟩
  · have hnone : b.command? = none := by simp [Button.command?, hdata]
    have hclick : (Page.shown s store warning).click b = Page.shown s store none :=
      click_download hdata
    refine ⟨⟨fun c hc => absurd (hnone.symm.trans hc) (by simp), fun _ => ?_⟩, ?_⟩ <;> rw [hclick]
    · exact ⟨⟨data, hdata⟩, rfl, rfl, shows_shown hplain hcaret⟩
    · exact .shown hplain hcaret hstore none
  · have hoffered := isOffered_iff.mpr ⟨b, hb, hc⟩
    obtain ⟨r, hr, hcommand⟩ := Button.command?_eq_some_iff.mp hc
    have hclick : (Page.shown s store warning).click b =
        Page.shown (s.run store c).session (s.run store c).store (s.warning? store c) :=
      (click_request hr hcommand).trans (afterStep_eq r hplain hcaret hstore hoffered)
    have hplain' : (s.run store c).session.IsPlain := hplain.run store c
    have hcaret' : (s.run store c).session.CaretInside :=
      (Session.run_caretInside_iff store c hcaret).mpr
        (Session.not_stepsPastEnd hoffered.hasToken)
    have hstore' : (s.run store c).store.IsOrderly := by
      rw [Session.run_store]
      cases s.saving? c with
      | none => exact hstore
      | some v => exact hstore.put v
    refine ⟨⟨fun c' hc' => ?_, fun hnone => absurd (hnone.symm.trans hc) (by simp)⟩, ?_⟩ <;>
      rw [hclick]
    · obtain rfl : c = c' := Option.some.inj (hc.symm.trans hc')
      exact ⟨rfl, rfl, shows_shown hplain' hcaret'⟩
    · exact .shown hplain' hcaret' hstore' _

private theorem IsView.after {p : Page} (hp : p.IsView) {bs : List Button} (hbs : p.Offers bs) :
    (p.after bs).IsView := by
  induction bs generalizing p with
  | nil => exact hp
  | cons b bs ih => exact ih (hp.click hbs.1).2 hbs.2

end clicks

section broken

variable {s : Session} {store : Store} {warning : Option Text}

private theorem click_of_follows {c : Command} (hc : c.IsOffered s.screen)
    (herror : (s.run store c).error = none)
    (h : ∀ b ∈ (shown s store warning).buttons, (shown s store warning).Follows b) :
    ∃ b ∈ (shown s store warning).buttons,
      (shown s store warning).click b =
        shown (s.run store c).session (s.run store c).store none ∧
      (shown (s.run store c).session (s.run store c).store none).Shows
        (s.warning? store c).toList := by
  obtain ⟨b, hb, hcommand⟩ := isOffered_iff.mp hc
  obtain ⟨r, hr, hrequest⟩ := Button.command?_eq_some_iff.mp hcommand
  have hclick : (shown s store warning).click b = _ :=
    (click_request hr hrequest).trans (afterStep_of_no_error r herror)
  refine ⟨b, hb, hclick, ?_⟩
  have hshows := ((h b hb).command c hcommand).2.2
  rwa [hclick] at hshows

private theorem reports_of_follows (hcaret : s.CaretInside) {c : Command}
    (hc : c.IsOffered s.screen) {v : Store.Saving} (hsaving : s.saving? c = some v)
    (h : ∀ b ∈ (shown s store warning).buttons, (shown s store warning).Follows b) :
    store.Reports v := by
  intro e he
  obtain ⟨b, hb, hcommand⟩ := isOffered_iff.mp hc
  obtain ⟨r, hr, hrequest⟩ := Button.command?_eq_some_iff.mp hcommand
  have herror : (s.run store c).error = some (.store e) := by
    rw [Session.run_error store hcaret (hc.keysPass Command.keypad_hasToken), hsaving,
      Option.bind_some, he]
    rfl
  have hshows := ((h b hb).command c hcommand).2.2
  rw [click_request hr hrequest, afterStep, herror] at hshows
  -- only what there is a warning about leaves the script unbroken
  cases e with
  | couldNotSave key => exact ⟨key, rfl⟩
  | _ => exact absurd hshows.failure (by simp [PageError.warning?, broken])

private theorem ok_one (unit : AngleUnit) (limit : Int) (history : List DocText) :
    (Answer.run unit limit history (text "1")).ok = true := by
  have hresult : Evaluation.result? (Notation.normalize unit (Answer.expression (text "1"))) =
      some (text "1") := by
    cases unit <;> exact (Evaluation.result?_of_isLow (by decide +kernel)).trans (by decide +kernel)
  rw [Answer.run_eq, hresult]
  rfl

private theorem exists_history_saved (hempty : s.screen.buffer = []) (hcaret : s.CaretInside)
    (h : ∀ bs, (shown s store none).Offers bs → ∀ b ∈ ((shown s store none).after bs).buttons,
      ((shown s store none).after bs).Follows b) :
    ∃ entries, store.Reports (.history entries) := by
  have hone : (Command.press (text "1") false none).IsOffered s.screen := .inl (by decide +kernel)
  obtain ⟨typed, htyped⟩ :
      ∃ typed, s.update (fun v => { v with buffer := text "1", cursor := 1 }) = typed := ⟨_, rfl⟩
  have hpress : s.run store (.press (text "1") false none) = { session := typed, store } := by
    have hinserted : Buffer.insertAt s.screen.buffer (text "1") false s.screen.cursor.toNat =
        (text "1", 1) := by
      have hzero : s.screen.cursor.toNat = 0 := by
        have hend := hcaret.2
        rw [hempty] at hend
        exact Int.toNat_of_nonpos hend
      rw [hempty, hzero]
      decide
    refine (Session.press_at_caret s store hcaret (text "1") false).trans ?_
    rw [hinserted, ← htyped]
    rfl
  obtain ⟨b, hb, hclick, -⟩ := click_of_follows hone (by rw [hpress]) (h [] trivial)
  rw [hpress] at hclick
  have hinside : typed.CaretInside := by
    rw [← htyped]
    exact Session.caretInside_of_eq_length rfl
  have hok : typed.answer.ok = true := by
    rw [← htyped]
    exact ok_one _ _ _
  have hfollows := h [b] ⟨hb, trivial⟩
  rw [after, after, hclick] at hfollows
  exact ⟨_, reports_of_follows hinside (c := .calculate) (.inl (by decide +kernel)) (if_pos hok)
    hfollows⟩

end broken

/-- Once a page is open, it follows its session through all clicks exactly if the file can be read
for a save, what it holds can be written unless a save is refused before the temporary file is
filled, and no entry of the history that the page keeps holds half of a pair. So on a writable path,
and on one where every save fails, no error breaks the script off, every click is one command, and a
warning is shown exactly after a save that failed. -/
theorem page_follows_session_iff {settings : Settings} {f : File} {p : Page}
    (hstart : start settings f = .ok p) :
    (p.Shows [] ∧ ∀ bs, p.Offers bs → ∀ b ∈ (p.after bs).buttons, (p.after bs).Follows b) ↔
      (∃ d, Store.read Stack.saving f = .ok d ∧
        ((Json.object d).isPlain = true ∨ ∃ s, s ≠ .putInPlace ∧ f.refuses s = true)) ∧
      ∀ e ∈ p.session.screen.history, e.isPlain = true := by
  obtain ⟨s, hs, rfl⟩ := start_eq_ok_iff.mp hstart
  have hcaret := Session.start_caretInside hs
  obtain ⟨history, theme, hopened⟩ := Session.opened_of_start hs
  constructor
  · rintro ⟨-, h⟩
    have hempty : s.screen.buffer = [] := by rw [hopened]; rfl
    obtain ⟨entries, hhistory⟩ := exists_history_saved hempty hcaret h
    have htheme : (Store.file f).Reports (.theme s.screen.modes.theme.toggled) :=
      reports_of_follows hcaret (c := .toggleTheme) (.inl (by decide +kernel)) rfl (h [] trivial)
    refine ⟨Store.exists_read_of_saves hhistory htheme, ?_⟩
    -- the history is not shown at first, so what is wrong with it shows after a click
    have hoffered : Command.toggleHistory.IsOffered s.screen := .inl (by decide +kernel)
    obtain ⟨-, -, -, hshows⟩ := click_of_follows hoffered rfl (h [] trivial)
    have hopen : (s.run (.file f) .toggleHistory).session.screen.modes.showHistory = true := by
      rw [hopened]
      rfl
    have hshown := isPlain_of_shows hshows hopen
    exact hshown
  · rintro ⟨hstore, hhistory⟩
    have hplain : s.IsPlain := by
      rw [hopened] at hhistory ⊢
      exact ⟨hhistory, hhistory⟩
    have hview : (shown s (.file f) none).IsView :=
      .shown hplain hcaret (Store.isOrderly_file_iff.mpr hstore) none
    exact ⟨shows_shown hplain hcaret, fun bs hbs b hb => ((hview.after hbs).click hb).1⟩

end Page

end stack

namespace Page

attribute [local instance] Stack.shallow

/-- A page on a file in a directory that takes no new file. -/
theorem page_follows_session_where_saves_fail :
    let settings : Settings := ⟨.ofText (text "state.json"), 15, .degrees, text "INFO"⟩
    let f := File.fixed (text "\x7b\"calculator_history\": [\"1+1\"]\x7d") .makeTemporary
    ∃ p, start settings f = .ok p ∧ p.session.screen.history = [.ofText (text "1+1")] ∧
      p.Shows [] ∧ ∀ bs, p.Offers bs → ∀ b ∈ (p.after bs).buttons, (p.after bs).Follows b := by
  intro settings f
  let s := Session.opened 15 .degrees [.ofText (text "1+1")] none
  have hsession : Session.start 15 .degrees (.file f) = .ok s :=
    Session.start_eq (by decide +kernel) (by decide +kernel)
  have hstart : start settings f = .ok (shown s (.file f) none) :=
    start_eq_ok_iff.mpr ⟨s, hsession, rfl⟩
  refine ⟨_, hstart, rfl, (page_follows_session_iff hstart).mpr ⟨?_, ?_⟩⟩
  · have hread : (Store.read Stack.saving f).isOk = true := by decide +kernel
    cases hd : Store.read Stack.saving f with
    | error e => simp [hd, Except.isOk, Except.toBool] at hread
    | ok d => exact ⟨d, rfl, .inr ⟨.makeTemporary, by decide, rfl⟩⟩
  · decide +kernel

/-- An object with one text, which is half of a pair. -/
def halfPairFile : File := .text (text "\x7b\"a\": \"\\ud800\"\x7d")

/-- The theme cannot be saved to a file with half of a pair, and the script breaks off. -/
theorem page_not_always_follows :
    ¬∀ (settings : Settings) (f : File) (p : Page), start settings f = .ok p →
      p.Shows [] ∧ ∀ bs, p.Offers bs → ∀ b ∈ (p.after bs).buttons, (p.after bs).Follows b := by
  intro h
  let settings : Settings := ⟨.ofText (text "state.json"), 15, .degrees, text "INFO"⟩
  let s := Session.opened 15 .degrees [] none
  have hsession : Session.start 15 .degrees (.file halfPairFile) = .ok s :=
    Session.start_eq (by decide +kernel) (by decide +kernel)
  have hstart : start settings halfPairFile = .ok (shown s (.file halfPairFile) none) :=
    start_eq_ok_iff.mpr ⟨s, hsession, rfl⟩
  have hhalf : (Store.file halfPairFile).saveError? (.theme .light) = some .halfPair := by
    decide +kernel
  obtain ⟨key, hkey⟩ :=
    reports_of_follows (Session.caretInside_of_eq_length rfl) (c := .toggleTheme)
    (.inl (by decide +kernel)) rfl ((h settings _ _ hstart).2 [] trivial) _ hhalf
  simp at hkey

end Page

end DeskCalc
