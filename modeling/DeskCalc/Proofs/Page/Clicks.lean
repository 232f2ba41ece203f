import DeskCalc.Proofs.Page.Script
import DeskCalc.Proofs.Session.Texts

/-!
# Clicks

The page offers the commands of its rows, which are the same in all modes, and while it shows a
history, the recalling of the entries that it shows and, if these are all, the clearing of the
history. A click on any button of the page either hands out a file or has the session obey one of
these commands. What each of them keeps is kept by every sequence of clicks.
-/

namespace DeskCalc

open Page in
/-- The commands of the rows that are always shown. -/
def Command.keypad : List Command := (rows {}).flatten.filterMap Button.command?

/-- The commands that a page offers for what is on the screen. -/
def Command.IsOffered (s : Screen) (c : Command) : Prop :=
  c ∈ keypad ∨
    (s.modes.showHistory = true ∧ s.history ≠ []) ∧
      (s.history.all DocText.isPlain = true ∧ c = .clearHistory ∨
        ∃ e ∈ Page.shownEntries s.history, c = .recallHistory e)

namespace Page

private theorem mem_of_mem_shownEntries {history : List DocText} {e : Text}
    (h : e ∈ shownEntries history) : .ofText e ∈ history := by
  induction history with
  | nil => simp [shownEntries] at h
  | cons x rest ih =>
    rw [shownEntries] at h
    split at h
    · next t ht =>
      obtain rfl := DocText.text?_eq_some_iff.mp ht
      rcases List.mem_cons.mp h with rfl | h
      · exact List.mem_cons_self
      · exact List.mem_cons_of_mem _ (ih h)
    · simp at h

end Page

namespace Command

section offered

variable {c : Command} {screen : Screen}

/-- What passes a check on every key of the keypad is all that a page lets be pressed. -/
theorem IsOffered.keysPass {check : Text → Bool → Bool}
    (hcheck : keypad.all (Command.keysPass check) = true) (h : c.IsOffered screen) :
    c.keysPass check = true := by
  rcases h with hc | ⟨-, ⟨-, rfl⟩ | ⟨e, -, rfl⟩⟩
  · exact List.all_eq_true.mp hcheck c hc
  · rfl
  · rfl

private theorem IsOffered.mem_history {e : Text} (h : (recallHistory e).IsOffered screen) :
    .ofText e ∈ screen.history := by
  have hkeypad : keypad.any (· matches recallHistory _) = false := by decide +kernel
  rcases h with hc | ⟨-, ⟨-, hc⟩ | ⟨e', he, hc⟩⟩
  · exact absurd rfl (List.any_eq_false.mp hkeypad _ hc)
  · cases hc
  · cases hc
    exact Page.mem_of_mem_shownEntries he

theorem keypad_hasToken : keypad.all (Command.keysPass fun token _ => token ≠ []) = true := by
  decide +kernel

theorem IsOffered.hasToken (h : c.IsOffered screen) : c.HasToken := by
  have hkeys := h.keysPass keypad_hasToken
  unfold Command.HasToken
  split
  · simp only [Command.keysPass, Bool.and_eq_true, decide_eq_true_eq] at hkeys
    exact hkeys.2
  · trivial

end offered

end Command

/-- A property of no text, of failures and of all numbers that are shown is kept by every command of
the page that leaves it in the buffer if it edits. -/
theorem Session.AllTexts.run_offered [Stack] {P : Text → Prop} (hempty : P [])
    (herror : P errorSentinel) (hshown : ∀ z, P (Display.rounded z)) {s : Session}
    (h : s.AllTexts P) (store : Store) {c : Command} (hc : c.IsOffered s.screen)
    (hedit : c.Edits → P (s.run store c).session.screen.buffer) :
    (s.run store c).session.AllTexts P := by
  refine h.run hempty herror hshown store ?_ hedit
  rintro e rfl
  exact h.history e hc.mem_history

namespace Page

/-- The page after clicks on the given buttons. -/
def after [Stack] (p : Page) : List Button → Page
  | [] => p
  | b :: bs => (p.click b).after bs

/-- Every click is on a button that is on the page by then. -/
def Offers [Stack] (p : Page) : List Button → Prop
  | [] => True
  | b :: bs => b ∈ p.buttons ∧ (p.click b).Offers bs

section rows

variable {b : Button}

private theorem commands_rows (m : Modes) :
    (rows m).flatten.map Button.command? = Command.keypad.map some := rfl

private theorem mem_keypad_iff {m : Modes} {c : Command} :
    c ∈ Command.keypad ↔ ∃ b ∈ (rows m).flatten, b.command? = some c := by
  have hmem : some c ∈ (rows m).flatten.map Button.command? ↔ c ∈ Command.keypad := by
    rw [commands_rows]
    simp
  rw [← hmem, List.mem_map]

private theorem exists_command_of_mem_rows {m : Modes} (h : b ∈ (rows m).flatten) :
    ∃ c, b.command? = some c := by
  have hmem := List.mem_map_of_mem (f := Button.command?) h
  rw [commands_rows] at hmem
  obtain ⟨c, -, hc⟩ := List.mem_map.mp hmem
  exact ⟨c, hc.symm⟩

private theorem mem_numbered {row : String} {labels : List (Text × Request)} :
    b ∈ numbered row labels ↔
      ∃ n label r, labels[n]? = some (label, r) ∧ b = keyed row n label r := by
  simp only [numbered, List.mem_map, Prod.exists, List.mem_zipIdx_iff_getElem?]
  constructor
  · rintro ⟨label, r, n, h, rfl⟩
    exact ⟨n, label, r, h, rfl⟩
  · rintro ⟨n, label, r, h, rfl⟩
    exact ⟨label, r, n, h, rfl⟩

private theorem buttons_placed (row : Nat) (buttons : List Button) :
    (placed row buttons).filterMap Element.button? = buttons := by
  have hself : Element.button? ∘ (fun x : Button × Nat => Element.button x.1 (some (row, x.2))) =
      some ∘ Prod.fst := rfl
  rw [placed, List.filterMap_map, hself, List.filterMap_eq_map, List.zipIdx_map_fst]

end rows

section screen

variable {s : Session} {store : Store} {warning : Option Text} {b : Button}

/-- The buttons of the history panel: one for every entry that is shown and, if these are all, one
that hands out a file and one that clears the history. Without entries there are none. -/
private theorem mem_historyPanel {row : Nat} {history : List DocText} :
    b ∈ (historyPanel row history).filterMap Element.button? ↔
      history ≠ [] ∧
        ((∃ n e, (shownEntries history)[n]? = some e ∧ b = keyed "hist" n e (.fromHistory e)) ∨
          history.all DocText.isPlain = true ∧
            (b = { key := none, label := downloadLabel,
                   action := .download (Csv.writeColumn (text "expr") (shownEntries history)) } ∨
              b = plain "Clear history" "clear_history")) := by
  cases history with
  | nil => simp [historyPanel, Element.button?]
  | cons e rest =>
    obtain ⟨history, hhistory⟩ : ∃ history, e :: rest = history := ⟨_, rfl⟩
    have hne : history ≠ [] := hhistory ▸ List.cons_ne_nil e rest
    have hself : Element.button? ∘ (fun x : Button => Element.button x none) = some := rfl
    have hlast : ∀ buttons, b ∈ (if history.all DocText.isPlain then placed row buttons
        else []).filterMap Element.button? ↔ history.all DocText.isPlain = true ∧ b ∈ buttons := by
      intro buttons
      split
      · next hall => rw [buttons_placed, and_iff_right hall]
      · next hall => exact iff_of_false (by simp) fun h => hall h.1
    rw [hhistory, historyPanel, if_neg (by simpa using hne), List.filterMap_cons_none rfl,
      List.filterMap_append, List.filterMap_map, hself, List.filterMap_some, List.mem_append, hlast]
    simp only [List.mem_cons, List.not_mem_nil, or_false, ne_eq, hne, not_false_eq_true, true_and,
      mem_numbered, List.getElem?_map, Option.map_eq_some_iff, Prod.mk.injEq]
    constructor
    · rintro (⟨n, label, r, ⟨e, he, rfl, rfl⟩, rfl⟩ | h)
      · exact .inl ⟨n, e, he, rfl⟩
      · exact .inr h
    · rintro (⟨n, e, he, rfl⟩ | h)
      · exact .inl ⟨n, e, .fromHistory e, ⟨e, he, rfl, rfl⟩, rfl⟩
      · exact .inr h

/-- The buttons are those of the rows and, if it is shown, those of the history panel. -/
theorem mem_buttons_shown :
    b ∈ (shown s store warning).buttons ↔
      b ∈ (rows s.screen.modes).flatten ∨
        s.screen.modes.showHistory = true ∧
          b ∈ (historyPanel (rows s.screen.modes).length s.screen.history).filterMap
            Element.button? := by
  have hrows : ((rows s.screen.modes).zipIdx.flatMap fun x => placed x.2 x.1).filterMap
      Element.button? = (rows s.screen.modes).flatten := by
    rw [List.filterMap_flatMap]
    simp only [buttons_placed]
    rw [List.flatMap_def, List.zipIdx_map_fst]
  have hwarning : (warning.toList.map Element.warning).filterMap Element.button? = [] := by
    cases warning <;> rfl
  have hfooter : (if breaksOff s.screen then [] else footer).filterMap Element.button? = [] := by
    split <;> rfl
  simp only [buttons, shown, heading, body, List.filterMap_append, List.mem_append, hrows, hwarning,
    hfooter]
  cases s.screen.modes.showHistory <;> simp [Element.button?]

private theorem command?_clear :
    (plain "Clear history" "clear_history").command? = some .clearHistory := rfl

/-- A page offers exactly the commands that its buttons give. -/
theorem isOffered_iff {c : Command} :
    c.IsOffered s.screen ↔ ∃ b ∈ (shown s store warning).buttons, b.command? = some c := by
  constructor
  · rintro (hkeypad | ⟨⟨hshow, hne⟩, ⟨hall, rfl⟩ | ⟨e, he, rfl⟩⟩)
    · obtain ⟨b, hb, hc⟩ := mem_keypad_iff.mp hkeypad
      exact ⟨b, mem_buttons_shown.mpr (.inl hb), hc⟩
    · refine ⟨_, mem_buttons_shown.mpr (.inr ⟨hshow, ?_⟩), command?_clear⟩
      exact mem_historyPanel.mpr ⟨hne, .inr ⟨hall, .inr rfl⟩⟩
    · obtain ⟨n, hn⟩ := List.getElem?_of_mem he
      refine ⟨keyed "hist" n e (.fromHistory e), mem_buttons_shown.mpr (.inr ⟨hshow, ?_⟩), rfl⟩
      exact mem_historyPanel.mpr ⟨hne, .inl ⟨n, e, hn, rfl⟩⟩
  · rintro ⟨b, hb, hc⟩
    rcases mem_buttons_shown.mp hb with hb | ⟨hshow, hb⟩
    · exact .inl (mem_keypad_iff.mpr ⟨b, hb, hc⟩)
    · obtain ⟨hne, ⟨n, e, he, rfl⟩ | ⟨hall, rfl | rfl⟩⟩ := mem_historyPanel.mp hb
      · obtain rfl : Command.recallHistory e = c := Option.some.inj hc
        exact .inr ⟨⟨hshow, hne⟩, .inr ⟨e, List.mem_of_getElem? he, rfl⟩⟩
      · simp [Button.command?] at hc
      · rw [command?_clear] at hc
        exact .inr ⟨⟨hshow, hne⟩, .inl ⟨hall, (Option.some.inj hc).symm⟩⟩

theorem download_or_command (h : b ∈ (shown s store warning).buttons) :
    (∃ data, b.action = .download data) ∨ ∃ c, b.command? = some c := by
  rcases mem_buttons_shown.mp h with hb | ⟨-, hb⟩
  · exact .inr (exists_command_of_mem_rows hb)
  · obtain ⟨-, ⟨n, e, -, rfl⟩ | ⟨-, rfl | rfl⟩⟩ := mem_historyPanel.mp hb
    · exact .inr ⟨_, rfl⟩
    · exact .inl ⟨_, rfl⟩
    · exact .inr ⟨_, command?_clear⟩

end screen

section clicks

variable [Stack]

/-- What is on the screen is drawn for the session, or the script broke off before it drew a
button. -/
inductive Settled : Page → Prop
  | shown (s : Session) (store : Store) (warning : Option Text) : Settled (shown s store warning)
  | broken (r : Request) (e : PageError) (s : Session) (store : Store) :
    Settled (broken r e s store)

omit [Stack] in
private theorem settled_afterStep (r : Request) (step : Step) : (afterStep r step).Settled := by
  unfold afterStep
  split
  · exact .shown ..
  · split
    · exact .shown ..
    · exact .broken ..

theorem settled_of_start {settings : Settings} {f : File} {p : Page}
    (h : start settings f = .ok p) : p.Settled := by
  obtain ⟨s, -, rfl⟩ := start_eq_ok_iff.mp h
  exact .shown ..

/-- A page that is opened without a history shows a session without texts. -/
theorem start_empty {settings : Settings} {f : File} {p : Page} (hstart : start settings f = .ok p)
    (hempty : (Store.file f).loadHistory = .ok []) :
    ∃ theme, p = shown
      (Session.opened settings.historyLimit settings.angleUnit [] theme) (.file f) none := by
  obtain ⟨s, hs, hp⟩ := start_eq_ok_iff.mp hstart
  obtain ⟨history, hhistory⟩ := Session.loadHistory_of_start hs
  obtain rfl : history = [] := Except.ok.inj (hhistory.symm.trans hempty)
  obtain ⟨theme, htheme⟩ := Session.start_of_loadHistory hempty
  obtain rfl := Except.ok.inj (hs.symm.trans htheme)
  exact ⟨theme, hp⟩

/-- A click changes session and store as a command does that the page offers, or not at all. -/
theorem click_cases {p : Page} {b : Button} (hp : p.Settled) (hb : b ∈ p.buttons) :
    (p.click b).Settled ∧
      ((b.command? = none ∧ (p.click b).session = p.session ∧ (p.click b).store = p.store) ∨
        ∃ c, b.command? = some c ∧ c.IsOffered p.session.screen ∧
          (p.click b).session = (p.session.run p.store c).session ∧
          (p.click b).store = (p.session.run p.store c).store) := by
  cases hp with
  | broken r e s store => exact absurd hb (by simp [broken, buttons, heading, Element.button?])
  | shown s store warning =>
    rcases download_or_command hb with ⟨data, hdata⟩ | ⟨c, hc⟩
    · rw [click_download hdata]
      exact ⟨.shown .., .inl ⟨by simp [Button.command?, hdata], rfl, rfl⟩⟩
    · obtain ⟨r, hr, hcommand⟩ := Button.command?_eq_some_iff.mp hc
      rw [click_request hr hcommand]
      obtain ⟨hsession, hstore⟩ := afterStep_session r (s.run store c)
      exact ⟨settled_afterStep r _,
        .inr ⟨c, hc, isOffered_iff.mpr ⟨b, hb, hc⟩, hsession, hstore⟩⟩

theorem after_append (p : Page) (as bs : List Button) :
    p.after (as ++ bs) = (p.after as).after bs := by
  induction as generalizing p with
  | nil => rfl
  | cons a as ih => exact ih (p.click a)

theorem offers_append {p : Page} {as bs : List Button} :
    p.Offers (as ++ bs) ↔ p.Offers as ∧ (p.after as).Offers bs := by
  induction as generalizing p with
  | nil => simp [Offers, after]
  | cons a as ih => simp [Offers, after, ih, and_assoc]

theorem Offers.of_prefix {p : Page} {as bs : List Button} (h : p.Offers bs) (has : as <+: bs) :
    p.Offers as := by
  obtain ⟨rest, rfl⟩ := has
  exact (offers_append.mp h).1

theorem Settled.after {p : Page} (hp : p.Settled) {bs : List Button} (hbs : p.Offers bs) :
    (p.after bs).Settled := by
  induction bs generalizing p with
  | nil => exact hp
  | cons b bs ih => exact ih (click_cases hp hbs.1).1 hbs.2

/-- What is kept by every command that the page offers and that is allowed holds after all
sequences of clicks that give such commands. -/
theorem after_keeps {P : Session → Prop} {allowed : Session → Command → Prop}
    (step : ∀ s store c, P s → c.IsOffered s.screen → allowed s c → P (s.run store c).session)
    {p : Page} (hp : p.Settled) (hP : P p.session) {bs : List Button} (hbs : p.Offers bs)
    (hallowed : ∀ as b, as ++ [b] <+: bs → ∀ c, b.command? = some c →
      allowed (p.after as).session c) :
    P (p.after bs).session := by
  -- the first click leads to another page, and what it allows is asked of the rest from there
  induction bs generalizing p with
  | nil => exact hP
  | cons b bs ih =>
    obtain ⟨hb, hrest⟩ := hbs
    obtain ⟨hsettled, ⟨-, hsession, -⟩ | ⟨c, hc, hoffered, hsession, -⟩⟩ := click_cases hp hb
    · refine ih hsettled (hsession ▸ hP) hrest fun as a ha => ?_
      exact hallowed (b :: as) a ((List.prefix_cons_inj b).mpr ha)
    · have hfirst := hallowed [] b ((List.prefix_cons_inj b).mpr bs.nil_prefix) c hc
      refine ih hsettled (hsession ▸ step _ _ c hP hoffered hfirst) hrest fun as a ha => ?_
      exact hallowed (b :: as) a ((List.prefix_cons_inj b).mpr ha)

end clicks

end Page

end DeskCalc
