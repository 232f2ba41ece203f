import DeskCalc.Proofs.Session.Effects
import DeskCalc.Proofs.Store.Replacing

/-!
# Sessions on damaged files

Bytes that hold no document, or a document of another shape, count as an empty one, so a session
opens and its saves replace them. Four kinds of damage are not met in this way: bytes that encode no
text, an integer with too many digits and a bracket inside too many others stop every load and every
save, or every save alone where a load has more room, and half of a pair of code units stops the
saves that leave it in the document.
-/

namespace DeskCalc.Session

open Store (Saving replaceMember)

variable {content : ByteArray}

private theorem ofBytes_of_fromUTF8? {s : String} (h : String.fromUTF8? content = some s) :
    File.ofBytes content = .text s.toList := by
  rw [File.ofBytes, h]

private theorem ofBytes_of_not_text (h : String.fromUTF8? content = none) :
    File.ofBytes content = .bytes content := by
  rw [File.ofBytes, h]

private theorem refuses_ofBytes (content : ByteArray) (s : WriteStep) :
    (File.ofBytes content).refuses s = false := by
  unfold File.ofBytes
  split <;> rfl

/-- The error of a file that cannot be read. -/
def EndsReading (e : StoreError) : Prop :=
  e = .notText ∨ (∃ digits, e = .tooLong digits) ∨ ∃ isArray, e = .tooDeep isArray

theorem endsReading_of_read {room : Nat} {f : File} {e : StoreError}
    (h : Store.read room f = .error e) : EndsReading e := by
  cases f with
  | text t | fixed t _ => exact .inr (Document.error_of_ofText h)
  | bytes content => exact .inl (Except.error.inj h).symm
  | missing | blocked | directory => simp [Store.read] at h

section stack

variable [Stack]

/-- A file with the given bytes does not stop a calculator: history and theme can be loaded, a
session opens, and a save of what can be encoded stores it or says that it could not save, whatever
steps of it are refused. -/
structure Tolerates (content : ByteArray) : Prop where
  loads : ∃ history theme, (Store.file (.ofBytes content)).loadHistory = .ok history ∧
    (Store.file (.ofBytes content)).loadTheme = .ok theme ∧
    ∀ v : Saving, v.isPlain = true → ∀ refused : WriteStep → Bool,
      let q := replaceMember refused v.key v.value { file := .ofBytes content }
      (q.2 = none ∧ (Store.file q.1.file).loadHistory = .ok (v.historyAfter history) ∧
        (Store.file q.1.file).loadTheme = .ok (v.themeAfter theme)) ∨
        q.2 = some (.couldNotSave v.key)
  opens : ∀ limit unit, ∃ s, start limit unit (.file (.ofBytes content)) = .ok s

private theorem tolerates_of_writable (h : (Store.file (.ofBytes content)).Writable) :
    Tolerates content := by
  obtain ⟨history, theme, hholds⟩ := h.holds
  refine ⟨⟨history, theme, hholds.loadHistory, hholds.loadTheme, fun v hv refused => ?_⟩,
    fun limit unit => ⟨_, start_eq hholds.loadHistory hholds.loadTheme⟩⟩
  intro q
  obtain ⟨store', hsave⟩ := Store.writable_iff.mp h v (Store.accepts_of_isPlain hv _)
  obtain ⟨hhistory, htheme⟩ := Store.loads_of_save hsave hholds.loadHistory hholds.loadTheme
  obtain ⟨-, d, t, hread, ht, rfl⟩ := Store.save_eq_ok_iff.mp hsave
  -- the document can be read and written, so only a refused step is left to fail
  by_cases hall : ∀ s, refused s = false
  · have hq : q = ({ file := .text t }, none) := by
      unfold q
      rw [Store.replaceMember_of_allowed hread hall, ← Saving.setIn, ht]
    rw [hq]
    exact .inl ⟨rfl, hhistory, htheme⟩
  · obtain ⟨s, hs⟩ : ∃ s, refused s = true := by simpa using hall
    rcases (Store.replaceMember_of_refused hread hs).2 with herror | ⟨hnone, -⟩
    · exact .inr herror
    · exact absurd (ht.symm.trans hnone) (by simp)

private theorem stopped_of_read {f : File} {e : StoreError}
    (h : Store.read Stack.loading f = .error e) :
    (∀ limit unit, start limit unit (.file f) = .error e) ∧
      ∀ v : Saving, ∃ e', (Store.file f).save v = .error e' ∧ EndsReading e' := by
  constructor
  · intro limit unit
    simp only [start, HistoryLog.load, Store.loadHistory, h]
    rfl
  · intro v
    cases hread : Store.read Stack.saving f with
    | error e' =>
      refine ⟨e', ?_, endsReading_of_read hread⟩
      rw [Store.save_file, Store.write, replaceMember, hread]
      rfl
    | ok d =>
      rw [Store.read_loading hread] at h
      simp at h

/-- A file that can be loaded opens a session. The only saves that fail are those that would have to
write half of a pair, and all of them if there are too many brackets in one another to save. -/
theorem opens_of_read {d : Document} (h : Store.read Stack.loading (.ofBytes content) = .ok d) :
    (∀ limit unit, ∃ s, start limit unit (.file (.ofBytes content)) = .ok s) ∧
      ∀ v : Saving, (Store.file (.ofBytes content)).save v = .error .halfPair ∨
        (∃ isArray, (Store.file (.ofBytes content)).save v = .error (.tooDeep isArray)) ∨
        ∃ store', (Store.file (.ofBytes content)).save v = .ok store' := by
  constructor
  · intro limit unit
    have hhistory : (Store.file (.ofBytes content)).loadHistory = .ok (Store.historyOf d) := by
      rw [Store.loadHistory, h]
      rfl
    obtain ⟨theme, hstart⟩ := start_of_loadHistory hhistory
    exact ⟨_, hstart⟩
  · intro v
    have hall := refuses_ofBytes content
    cases hread : Store.read Stack.saving (.ofBytes content) with
    | error e =>
      obtain ⟨isArray, rfl⟩ := Store.tooDeep_of_read hread h
      refine .inr (.inl ⟨isArray, ?_⟩)
      rw [Store.save_file, Store.write, replaceMember, hread]
      rfl
    | ok d' =>
      cases ht : (v.setIn d').toText? with
      | none =>
        refine .inl ?_
        rw [Store.save_file, Store.write, Store.replaceMember_of_allowed hread hall,
          ← Saving.setIn, ht]
        rfl
      | some t => exact .inr (.inr ⟨_, Store.save_eq_ok_iff.mpr ⟨hall, d', t, hread, ht, rfl⟩⟩)

private theorem Tolerates.writable (h : Tolerates content) :
    (Store.file (.ofBytes content)).Writable := by
  obtain ⟨⟨_, _, -, -, hsaves⟩, -⟩ := h
  have hall := refuses_ofBytes content
  refine Store.writable_iff.mpr fun v hv => ?_
  have hsave := hsaves v hv (File.ofBytes content).refuses
  cases hread : Store.read Stack.saving (.ofBytes content) with
  | error e =>
    rw [replaceMember, hread] at hsave
    rcases hsave with ⟨hnone, -⟩ | herror
    · simp at hnone
    · have hends := endsReading_of_read hread
      obtain rfl := Option.some.inj herror
      simp [EndsReading] at hends
  | ok d =>
    rw [Store.replaceMember_of_allowed hread hall, ← Saving.setIn] at hsave
    cases ht : (v.setIn d).toText? with
    | none => simp [ht] at hsave
    | some t => exact ⟨_, Store.save_eq_ok_iff.mpr ⟨hall, d, t, hread, ht, rfl⟩⟩

/-- A file is tolerated exactly if its bytes encode a text, no integer that is read in it is too
long, brackets are not nested too deep in it to save, and no text in its document holds half of a
pair. Where nothing can be loaded no session opens and no save succeeds. Where the file can be
loaded a session opens, and the saves that fail are stopped by half of a pair or by the brackets. -/
theorem tolerates_iff (content : ByteArray) :
    (Tolerates content ↔
      ∃ s, String.fromUTF8? content = some s ∧ Document.isRewritable s.toList = true) ∧
    (∀ e, Store.read Stack.loading (.ofBytes content) = .error e →
      EndsReading e ∧ (∀ limit unit, start limit unit (.file (.ofBytes content)) = .error e) ∧
        ∀ v : Saving, ∃ e', (Store.file (.ofBytes content)).save v = .error e' ∧ EndsReading e') ∧
    ∀ d, Store.read Stack.loading (.ofBytes content) = .ok d →
      (∀ limit unit, ∃ s, start limit unit (.file (.ofBytes content)) = .ok s) ∧
        ∀ v : Saving, (Store.file (.ofBytes content)).save v = .error .halfPair ∨
          (∃ isArray, (Store.file (.ofBytes content)).save v = .error (.tooDeep isArray)) ∨
          ∃ store', (Store.file (.ofBytes content)).save v = .ok store' := by
  refine ⟨?_, fun e he => ⟨endsReading_of_read he, stopped_of_read he⟩,
    fun d hd => opens_of_read hd⟩
  have hwritable : Tolerates content ↔ (Store.file (.ofBytes content)).Writable :=
    ⟨fun h => h.writable, tolerates_of_writable⟩
  rw [hwritable]
  cases htext : String.fromUTF8? content with
  | none =>
    rw [ofBytes_of_not_text htext]
    simp [Store.Writable]
  | some s =>
    rw [ofBytes_of_fromUTF8? htext]
    simp [Store.Writable]

end stack

attribute [local instance] Stack.shallow

theorem not_tolerates_byte : ¬Tolerates ⟨#[0xff]⟩ := by
  intro h
  have hbytes : String.fromUTF8? ⟨#[0xff]⟩ = none := by decide +kernel
  have hwritable := h.writable
  rw [ofBytes_of_not_text hbytes] at hwritable
  exact hwritable

end DeskCalc.Session
