import DeskCalc.Proofs.Session.Damaged
import DeskCalc.Proofs.Session.Texts

/-!
# What goes wrong in a session

As long as every key is pressed at the caret of the session, nothing goes wrong but a save. A save
that the system refuses is reported as one that could not be made. So is every save that fails,
unless the file cannot be read or the temporary file would have to be filled with half of a pair; a
file that has been saved to can be read and holds no such half, so from then on all saves succeed.
-/

namespace DeskCalc

private theorem Answer.buffer_of_not_ok [Stack] {unit : AngleUnit} {limit : Int}
    {history : List DocText} {buffer : Text} (h : (run unit limit history buffer).ok = false) :
    (run unit limit history buffer).buffer = errorSentinel := by
  revert h
  unfold run runWith ofResult
  dsimp only
  split
  · exact fun h => absurd h (by simp)
  · exact fun _ => rfl

section steps

variable {key : Text} {f : File} {refused : WriteStep → Bool}

/-- A step that is refused before there is a new file to put in place ends the save, whatever it
would have written. -/
theorem WriteStep.take_all_of_early (content : Option Text) {s : WriteStep} (h : refused s = true)
    (hs : s ≠ .putInPlace) :
    (take key content refused { file := f } all).2 = some (.couldNotSave key) := by
  rcases (take_all_of_refused key content f h).2 with hq | ⟨-, -, hearly⟩
  · exact hq
  · simp [hearly s hs] at h

/-- A save that has nothing to fill the temporary file with, and is refused no step before, stops
there. -/
theorem WriteStep.take_all_of_unfilled (h : ∀ s, s ≠ .putInPlace → refused s = false) :
    (take key none refused { file := f } all).2 = some .halfPair := by
  have hdirectory := h .makeDirectory (by decide)
  have htemporary := h .makeTemporary (by decide)
  have hfill := h .fillTemporary (by decide)
  simp [all, take, perform?, hdirectory, htemporary, hfill]

end steps

namespace Store

variable [Stack]

/-- What goes wrong with a save, if anything. -/
def saveError? (store : Store) (v : Saving) : Option StoreError :=
  match store.save v with
  | .ok _ => none
  | .error e => some e

/-- A save that fails is reported as one that could not be made. -/
def Reports (store : Store) (v : Saving) : Prop :=
  ∀ e, store.saveError? v = some e → ∃ key, e = .couldNotSave key

/-- Every save without halves of pairs is reported if it fails, by the member that it is about. -/
def IsOrderly (store : Store) : Prop :=
  ∀ v, v.isPlain = true → ∀ e, store.saveError? v = some e → e = .couldNotSave v.key

section orderly

variable {store : Store} {f : File} {d : Document} {v : Saving}

private theorem saveError?_eq_none_iff :
    store.saveError? v = none ↔ ∃ store', store.save v = .ok store' := by
  unfold saveError?
  split
  · next store' h => simp [h]
  · next e h => simp [h]

private theorem IsOrderly.reports (h : store.IsOrderly) (hv : v.isPlain = true) : store.Reports v :=
  fun e he => ⟨v.key, h v hv e he⟩

private theorem saveError?_file (v : Saving) (hread : read Stack.saving f = .ok d) :
    (file f).saveError? v =
      (WriteStep.take v.key (v.setIn d).toText? f.refuses { file := f } WriteStep.all).2 := by
  rw [saveError?, save_file, write, replaceMember, hread, Saving.setIn]
  dsimp only
  generalize WriteStep.take _ _ _ _ _ = q
  obtain ⟨p, _ | e⟩ := q <;> rfl

/-- What a save cannot read, it does not report as a save that could not be made. -/
private theorem exists_read_of_reports (h : (file f).Reports v) :
    ∃ d, read Stack.saving f = .ok d := by
  cases hread : read Stack.saving f with
  | ok d => exact ⟨d, rfl⟩
  | error e =>
    have herror : (file f).saveError? v = some e := by
      rw [saveError?, save_file, write, replaceMember, hread]
      rfl
    obtain ⟨key, rfl⟩ := h e herror
    have hends := Session.endsReading_of_read hread
    simp [Session.EndsReading] at hends

private theorem isOrderly_of_writable (h : store.Writable) : store.IsOrderly := by
  intro v hv e he
  rw [saveError?_eq_none_iff.mpr (writable_iff.mp h v (accepts_of_isPlain hv _))] at he
  simp at he

/-- After a save an orderly store is orderly, whether it was saved to or not. -/
theorem IsOrderly.put (h : store.IsOrderly) (v : Saving) : (store.put v).IsOrderly := by
  unfold Store.put
  cases hsave : store.save v with
  | ok store' => exact isOrderly_of_writable (writable_of_save hsave)
  | error e => exact h

/-- Where a save of the history and one of the theme are reported if they fail, the file can
be read, and all that it holds can be written unless a step is refused before the temporary
file is filled. -/
theorem exists_read_of_saves {entries : List DocText} {theme : Theme}
    (hhistory : (file f).Reports (.history entries)) (htheme : (file f).Reports (.theme theme)) :
    ∃ d, read Stack.saving f = .ok d ∧
      ((Json.object d).isPlain = true ∨ ∃ s, s ≠ .putInPlace ∧ f.refuses s = true) := by
  obtain ⟨d, hread⟩ := exists_read_of_reports hhistory
  refine ⟨d, hread, ?_⟩
  by_cases hearly : ∃ s, s ≠ .putInPlace ∧ f.refuses s = true
  · exact .inr hearly
  have hfilled : ∀ s, s ≠ .putInPlace → f.refuses s = false := by simpa using hearly
  have hplain : ∀ v : Saving, (file f).Reports v → (Json.object (v.setIn d)).isPlain = true := by
    intro v hv
    cases ht : (v.setIn d).toText? with
    | some t => exact (Document.toText?_eq_some_iff.mp ht).1
    | none =>
      obtain ⟨key, hkey⟩ := hv .halfPair (by
        rw [saveError?_file v hread, ht]
        exact WriteStep.take_all_of_unfilled hfilled)
      simp at hkey
  -- a save of the history drops what is stored as history, one of the theme what is stored as
  -- theme, so both are needed to see all that the file holds
  exact .inl (Saving.isPlain_of_setIn (hplain _ hhistory) (hplain _ htheme))

private theorem isOrderly_of_plain (hread : read Stack.saving f = .ok d)
    (hplain : (Json.object d).isPlain = true) : (file f).IsOrderly := by
  intro v hv e he
  have ht := Document.toText?_eq_some_iff.mpr ⟨Saving.isPlain_setIn hv hplain, rfl⟩
  rw [saveError?_file v hread, ht] at he
  by_cases hall : ∀ s, f.refuses s = false
  · simp [WriteStep.take_all_of_allowed v.key _ f hall] at he
  · obtain ⟨s, hs⟩ : ∃ s, f.refuses s = true := by simpa using hall
    rcases (WriteStep.take_all_of_refused v.key _ f hs).2 with herror | ⟨hnone, -⟩
    · exact Option.some.inj (he.symm.trans herror)
    · simp at hnone

/-- A file is orderly exactly if it can be read for a save and what it holds can be written again or
a step is refused before the temporary file is filled. -/
theorem isOrderly_file_iff :
    (file f).IsOrderly ↔
      ∃ d, read Stack.saving f = .ok d ∧
        ((Json.object d).isPlain = true ∨ ∃ s, s ≠ .putInPlace ∧ f.refuses s = true) := by
  constructor
  · intro h
    exact exists_read_of_saves (h.reports (v := .history []) rfl)
      (h.reports (v := .theme .dark) (Saving.isPlain_theme _))
  · rintro ⟨d, hread, hplain | ⟨s, hne, hs⟩⟩
    · exact isOrderly_of_plain hread hplain
    · intro v _ e he
      rw [saveError?_file v hread, WriteStep.take_all_of_early _ hs hne] at he
      exact (Option.some.inj he).symm

end orderly

end Store

namespace Session

/-- No entry of the history holds half of a pair. -/
structure IsPlain (s : Session) : Prop where
  history : ∀ e ∈ s.screen.history, e.isPlain = true
  entries : ∀ e ∈ s.log.entries, e.isPlain = true

theorem IsPlain.run [Stack] {s : Session} (h : s.IsPlain) (store : Store) (c : Command) :
    (s.run store c).session.IsPlain := by
  refine ⟨?_, run_isPlain store h.entries c⟩
  rcases run_cases s store c with ⟨-, -, -, -, hhistory | hhistory⟩ |
    ⟨entries, -, -, -, -, hhistory, -, hnew⟩ | ⟨theme, -, -, -, -, hhistory⟩ <;> rw [hhistory]
  · exact h.history
  · exact h.entries
  · exact fun e he => (hnew e he).elim (h.entries e) id
  · exact h.history

section errors

variable [Stack] {s : Session} {c : Command}

private theorem save_error (s : Session) (store : Store) (v : Store.Saving) :
    (save s store (store.save v)).error = (store.saveError? v).map .store := by
  rw [Store.saveError?]
  cases store.save v <;> rfl

private theorem replaceEntries_error (entries : List DocText) (s : Session) (store : Store) :
    (s.replaceEntries entries store).error =
      (store.saveError? (.history (History.keep s.log.limit entries))).map .store :=
  save_error _ store (.history (History.keep s.log.limit entries))

private theorem calculate_error (s : Session) (store : Store) :
    (s.calculate store).error = ((s.saving? .calculate).bind store.saveError?).map .store := by
  by_cases hok : s.answer.ok = true
  · have hsaving : s.saving? .calculate =
        some (.history (History.keep s.log.limit s.answer.history)) := if_pos hok
    have herror := congrArg Step.error (if_pos hok : s.calculate store = _)
    refine herror.trans ?_
    rw [replaceEntries_error, hsaving]
    rfl
  · have hsaving : s.saving? .calculate = none := if_neg hok
    have herror := congrArg Step.error (if_neg hok : s.calculate store = _)
    refine herror.trans ?_
    rw [hsaving]
    rfl

/-- What goes wrong with a command whose keys are pressed at the caret of the session is what goes
wrong with its save. -/
theorem run_error (store : Store) (hcaret : s.CaretInside) {check : Text → Bool → Bool}
    (hkeys : c.keysPass check = true) :
    (s.run store c).error = ((s.saving? c).bind store.saveError?).map .store := by
  cases c with
  | press token isFunction cursor =>
    simp only [Command.keysPass, Bool.and_eq_true, decide_eq_true_eq] at hkeys
    obtain ⟨rfl, -⟩ := hkeys
    exact press_no_cursor_error hcaret token isFunction store
  | pressFunction pair cursor =>
    simp only [Command.keysPass, Bool.and_eq_true, decide_eq_true_eq] at hkeys
    obtain ⟨⟨rfl, -⟩, -⟩ := hkeys
    exact press_no_cursor_error hcaret _ true store
  | calculate => exact calculate_error s store
  | clearHistory =>
    have hnone : History.keep s.log.limit ([] : List DocText) = [] := History.keep_nil _
    have hcleared := replaceEntries_error [] (s.update fun v => { v with history := [] }) store
    rwa [update, hnone] at hcleared
  | toggleTheme => exact save_error _ store (.theme s.screen.modes.theme.toggled)
  | memoryRecall =>
    unfold run
    dsimp only
    split <;> rfl
  | moveCursor delta => rfl
  | backspace => rfl
  | clear => rfl
  | memorySave => rfl
  | recallHistory e => rfl
  | toggleAngleUnit => rfl
  | toggleShift => rfl
  | toggleHistory => rfl

/-- Without a text the equals key shows a failure, and nothing else goes wrong. -/
theorem calculate_nil (store : Store) (hcaret : s.CaretInside) (h : s.screen.buffer = []) :
    (s.run store .calculate).error = none ∧
      (s.run store .calculate).session.screen.buffer = errorSentinel := by
  have hexpression : Answer.expression s.screen.buffer = [] := by rw [h]; rfl
  have hok : s.answer.ok = false := Answer.run_empty _ _ _ hexpression
  have hsaving : s.saving? .calculate = none := if_neg (Bool.eq_false_iff.mp hok)
  refine ⟨?_, (calculate_buffer_memory s store).1.trans (Answer.buffer_of_not_ok hok)⟩
  have hkeys : Command.calculate.keysPass (fun _ _ => true) = true := rfl
  rw [run_error store hcaret hkeys, hsaving]
  rfl

end errors

end Session

end DeskCalc
