import DeskCalc.Proofs.Page.Clicks
import DeskCalc.Proofs.Session.Failures

/-!
# The failure marker on the page

Where there is no result the buffer shows a marker. The next key and the equals key take it for no
text at all, but the key that removes the last character takes it for a text and leaves a piece of
it. No other text on the page has the letter that the marker begins with, so the marker stays apart
from what is typed exactly as long as no piece of it is removed.
-/

namespace DeskCalc

namespace Buffer

/-- A text that is the failure marker or has nothing of it. -/
def IsApart (t : Text) : Prop := t = errorSentinel ∨ 'E' ∉ t

/-- Whether what a key inserts has nothing of the failure marker. -/
def isUnmarked (token : Text) (isFunction : Bool) : Bool :=
  'E' ∉ (insertion token isFunction).1

section texts

variable {t : Text}

private theorem isApart_nil : IsApart [] := .inr List.not_mem_nil

private theorem isApart_errorSentinel : IsApart errorSentinel := .inl rfl

private theorem isApart_rounded (z : Dyadic) : IsApart (Display.rounded z) :=
  .inr (not_mem_of_class (isNumber_rounded z) (by decide))

private theorem IsApart.prior (h : IsApart t) : 'E' ∉ prior t := by
  unfold Buffer.prior
  split
  · exact List.not_mem_nil
  · next hne => exact h.resolve_left hne

private theorem IsApart.insertAt (h : IsApart t) {token : Text} {isFunction : Bool}
    (hkey : isUnmarked token isFunction = true) (caret : Nat) :
    IsApart (insertAt t token isFunction caret).1 := by
  rcases insertAt_cases t token isFunction caret with ⟨-, hinsert⟩ | ⟨-, hinsert⟩ <;> rw [hinsert]
  · exact h
  · have hinserted : 'E' ∉ (insertion token isFunction).1 := by simpa [isUnmarked] using hkey
    have hleft : 'E' ∉ (Buffer.prior t).take (priorCaret t caret) :=
      fun hmem => h.prior (List.mem_of_mem_take hmem)
    have hright : 'E' ∉ (Buffer.prior t).drop (priorCaret t caret) :=
      fun hmem => h.prior (List.mem_of_mem_drop hmem)
    exact .inr (by simp [hinserted, hleft, hright])

private theorem IsApart.removeLast_iff (h : IsApart t) :
    IsApart (removeLast t) ↔ t ≠ errorSentinel := by
  constructor
  · rintro hremoved rfl
    have hpiece : ¬IsApart (removeLast errorSentinel) := by
      unfold IsApart
      decide
    exact hpiece hremoved
  · intro hne
    exact .inr fun hmem => h.resolve_left hne (List.dropLast_prefix t |>.subset hmem)

end texts

end Buffer

open Buffer

namespace Session

variable [Stack]

omit [Stack] in
private theorem keypad_unmarked : Command.keypad.all (Command.keysPass isUnmarked) = true := by
  decide +kernel

/-- The texts of a session stay apart from the marker under every command of the page, unless it
removes the last character of the marker. -/
theorem AllTexts.run_isApart {s : Session} (h : s.AllTexts IsApart) (store : Store) {c : Command}
    (hc : c.IsOffered s.screen) (hremove : c = .backspace → s.screen.buffer ≠ errorSentinel) :
    (s.run store c).session.AllTexts IsApart := by
  refine h.run_offered isApart_nil isApart_errorSentinel isApart_rounded store hc fun hedits => ?_
  rcases run_of_edits s store (hc.keysPass keypad_unmarked) hedits with
    rfl | ⟨token, isFunction, hkey, hpress⟩
  · exact h.buffer.removeLast_iff.mpr (hremove rfl)
  · rw [hpress]
    rcases press_cases token isFunction none s store with ⟨n, -, -, hp⟩ | ⟨-, hp⟩ <;> rw [hp]
    · exact h.buffer.insertAt hkey n
    · exact h.buffer

end Session

namespace Page

/-- On a page that is opened without a history, the buffer is at all times the failure marker or
without a piece of it exactly if the last character is never removed while the marker is shown. -/
theorem marker_stays_apart_iff [Stack] {settings : Settings} {f : File} {p : Page}
    (hstart : start settings f = .ok p) (hempty : (Store.file f).loadHistory = .ok [])
    {bs : List Button} (hbs : p.Offers bs) :
    (∀ as, as <+: bs → IsApart (p.after as).session.screen.buffer) ↔
      ∀ as b, as ++ [b] <+: bs → b.command? = some .backspace →
        (p.after as).session.screen.buffer ≠ errorSentinel := by
  have hsettled := settled_of_start hstart
  constructor
  · intro h as b hb hc
    have hoffers := offers_append.mp (hbs.of_prefix hb)
    obtain ⟨-, ⟨hnone, -⟩ | ⟨c, hcommand, -, hsession, -⟩⟩ :=
      click_cases (hsettled.after hoffers.1) hoffers.2.1
    · exact absurd (hc.symm.trans hnone) (by simp)
    · obtain rfl : Command.backspace = c := Option.some.inj (hc.symm.trans hcommand)
      have hbefore := h as ((List.prefix_append as [b]).trans hb)
      have hafter := h (as ++ [b]) hb
      rw [after_append, after, after, hsession] at hafter
      exact hbefore.removeLast_iff.mp hafter
  · intro h as has
    obtain ⟨theme, hp⟩ := start_empty hstart hempty
    have hopened : p.session.AllTexts IsApart := by
      rw [hp]
      exact Session.allTexts_opened isApart_nil _ _ _
    have hstep : ∀ (s : Session) (store : Store) (c : Command), s.AllTexts IsApart →
        c.IsOffered s.screen → (c = .backspace → s.screen.buffer ≠ errorSentinel) →
          (s.run store c).session.AllTexts IsApart :=
      fun s store c hs hc hremove => hs.run_isApart store hc hremove
    refine (after_keeps hstep hsettled hopened (hbs.of_prefix has) ?_).buffer
    rintro bs' b hb c hc rfl
    exact h bs' b (hb.trans has) hc

section

attribute [local instance] Stack.shallow

/-- A digit, its removal, and the equals key on no text. -/
theorem marker_stays_apart_after_digit :
    let settings : Settings := ⟨.ofText (text "state.json"), 15, .degrees, text "INFO"⟩
    let bs := [keyed "k2" 0 (text "1") (.insert (text "1")),
      keyed "r1" 6 (text "DEL") (.named (text "backspace")),
      keyed "k3" 2 (text "=") (.named (text "equals"))]
    ∃ p, start settings .missing = .ok p ∧ p.Offers bs ∧
      ∀ as, as <+: bs → IsApart (p.after as).session.screen.buffer := by
  intro settings bs
  let p := shown (Session.opened 15 .degrees [] none) (.file .missing) none
  have hbs : p.Offers bs :=
    ⟨List.mem_of_getElem? (i := 38) rfl, List.mem_of_getElem? (i := 6) rfl,
      List.mem_of_getElem? (i := 45) rfl, trivial⟩
  have hstart : start settings .missing = .ok p := rfl
  refine ⟨p, hstart, hbs, (marker_stays_apart_iff hstart rfl hbs).mpr ?_⟩
  intro as b hb hc
  rcases as with _ | ⟨digit, _ | ⟨remove, _ | ⟨equals, rest⟩⟩⟩ <;>
    simp only [bs, List.nil_append, List.cons_append, List.cons_prefix_cons] at hb
  · rw [hb.1] at hc
    exact absurd hc (by decide +kernel)
  · obtain ⟨rfl, -⟩ := hb
    decide +kernel
  · rw [hb.2.2.1] at hc
    exact absurd hc (by decide +kernel)
  · simp at hb

/-- The equals key on no text, then the key that removes the last character. -/
theorem marker_not_always_apart :
    ¬∀ (settings : Settings) (f : File) (p : Page) (bs : List Button),
      start settings f = .ok p → (Store.file f).loadHistory = .ok [] → p.Offers bs →
        IsApart (p.after bs).session.screen.buffer := by
  intro h
  let settings : Settings := ⟨.ofText (text "state.json"), 15, .degrees, text "INFO"⟩
  let equals := keyed "k3" 2 (text "=") (.named (text "equals"))
  let remove := keyed "r1" 6 (text "DEL") (.named (text "backspace"))
  let s := Session.opened 15 .degrees [] none
  let store := Store.file .missing
  obtain ⟨herror, hmarker⟩ := Session.calculate_nil (s := s) store
    (Session.caretInside_of_eq_length rfl) rfl
  have hequals : (shown s store none).click equals =
      shown (s.run store .calculate).session (s.run store .calculate).store none := by
    rw [click_request (r := .named (text "equals")) rfl rfl, afterStep_of_no_error _ herror]
  have hoffers : (shown s store none).Offers [equals, remove] := by
    refine ⟨List.mem_of_getElem? (i := 45) rfl, ?_, trivial⟩
    rw [hequals]
    exact mem_buttons_shown.mpr (.inl (List.mem_of_getElem? (i := 6) rfl))
  have hpiece := h settings .missing (shown s store none) [equals, remove] rfl rfl hoffers
  rw [after, after, after, hequals, click_request (r := .named (text "backspace")) rfl rfl,
    (afterStep_session _ _).1] at hpiece
  exact (isApart_errorSentinel.removeLast_iff.mp (hmarker ▸ hpiece)) rfl

end

end Page

end DeskCalc
