import DeskCalc.Proofs.Store.Saving

/-!
# One member is replaced, all others stay

A save reads the document, sets one member and writes the whole document again, so what it promises
rests on reading back what was written. The promise is kept for a file that can be read and a
document that can be written once the member is set. It fails for three kinds of files that hold a
text: an integer with too many digits and a bracket inside too many others end the reading, and half
of a pair of code units that is in the document once the member is set ends the writing.
-/

namespace DeskCalc

namespace Json

section whole

/-- Every number within the value is an integer. -/
inductive Whole : Json → Prop where
  | null : Whole null
  | bool (b : Bool) : Whole (bool b)
  | integer (n : Int) : Whole (integer n)
  | string (s : DocText) : Whole (string s)
  | array {items : List Json} (values : ∀ x ∈ items, Whole x) : Whole (array items)
  | object {members : List (DocText × Json)} (values : ∀ m ∈ members, Whole m.2) :
      Whole (object members)

private theorem rereadItems_eq_map (items : List Json) : rereadItems items = items.map reread := by
  induction items with
  | nil => rfl
  | cons x xs ih => rw [rereadItems, ih, List.map_cons]

private theorem rereadMembers_eq_map (members : List (DocText × Json)) :
    rereadMembers members = members.map fun m => (m.1, m.2.reread) := by
  induction members with
  | nil => rfl
  | cons m ms ih => rw [rereadMembers, ih, List.map_cons]

/-- Only doubles may change when they are written and read back. -/
theorem Whole.reread_eq {x : Json} (h : Whole x) : x.reread = x := by
  induction h with
  | null | bool b | integer n | string s => rfl
  | array _ ih =>
    rw [reread, rereadItems_eq_map, List.map_congr_left ih, List.map_id']
  | @object members _ ih =>
    have hmember : ∀ m ∈ members, (m.1, m.2.reread) = m := fun m hm => Prod.ext rfl (ih m hm)
    rw [reread, rereadMembers_eq_map, List.map_congr_left hmember, List.map_id']

private theorem Whole.set {key : DocText} {value : Json} {members : List (DocText × Json)}
    (h : Whole (.object members)) (hvalue : Whole value) :
    Whole (.object (Json.set key value members)) := by
  cases h with
  | object values =>
    refine .object fun m hm => ?_
    rcases mem_set hm with rfl | hm
    · exact hvalue
    · exact values m hm

end whole

private theorem set_set (key : DocText) (value : Json) (members : List (DocText × Json)) :
    set key value (set key value members) = set key value members := by
  induction members with
  | nil => simp [set]
  | cons m rest ih =>
    obtain ⟨k, v⟩ := m
    by_cases hk : k = key
    · simp [set, hk]
    · simp [set, hk, ih]

end Json

namespace Document

/-- Only an integer that is too long and a bracket that is nested too deep keep a text from being
read as a document. -/
theorem error_of_ofText {room : Nat} {t : Text} {e : StoreError} (h : ofText room t = .error e) :
    (∃ digits, e = .tooLong digits) ∨ ∃ isArray, e = .tooDeep isArray := by
  unfold ofText at h
  split at h
  · simp at h
  · next digits _ => exact .inl ⟨digits, (Except.error.inj h).symm⟩
  · next isArray _ => exact .inr ⟨isArray, (Except.error.inj h).symm⟩
  · simp at h

private theorem ofText_eq_tooLong_iff {room : Nat} {t : Text} {digits : Nat} :
    ofText room t = .error (.tooLong digits) ↔ Json.ofText room t = .error (.tooLong digits) := by
  unfold ofText
  split <;> simp_all

end Document

namespace File

/-- The file holds an object with the given members, however deep its brackets are nested. -/
def HoldsObject (members : Document) : File → Prop
  | text t | fixed t _ => ∃ room, Json.ofText room t = .ok (.object members)
  | _ => False

end File

namespace Store

section stack

variable [Stack]

namespace Saving

variable (v : Saving)

omit [Stack] in
private theorem whole_value : v.value.Whole := by
  cases v with
  | history entries =>
    refine .array fun x hx => ?_
    obtain ⟨t, -, rfl⟩ := List.mem_map.mp hx
    exact .string _
  | theme t => exact .string _

/-- One member has a new value, in its old place or at the end. The keys before it and after it are
the old ones in their order, and so are their values. -/
structure Replaces (before after : Document) : Prop where
  keys : after.map Prod.fst =
    if .ofText v.key ∈ before.map Prod.fst then before.map Prod.fst
    else before.map Prod.fst ++ [.ofText v.key]
  value : Json.get? (.ofText v.key) after = some v.value
  others : ∀ k, .ofText v.key ≠ k → Json.get? k after = Json.get? k before

omit [Stack] in
private theorem replaces_setIn (d : Document) : v.Replaces d (v.setIn d) :=
  ⟨Json.map_fst_set .., Json.get?_set_self .., fun _ hk => Json.get?_set_of_ne hk ..⟩

/-- What is promised of a save to a file: it succeeds if it is refused no step. An object without
other numbers than integers then has one member replaced, and saving once more leaves the text as it
is; any other file holds nothing but that member. Whatever the file held, the history and the theme
are the old ones but for what was saved. A save that is refused a step says so and leaves the file
as it was. -/
structure Promise (f : File) : Prop where
  saved : ∃ t after history theme, (file f).save v = .ok (file (.text t)) ∧
    Json.ofText Stack.saving t = .ok (.object after) ∧
    (∀ before, f.HoldsObject before → Json.Whole (.object before) →
      v.Replaces before after ∧ (file (.text t)).save v = .ok (file (.text t))) ∧
    ((∀ before, ¬f.HoldsObject before) → after = [(.ofText v.key, v.value)]) ∧
    (file f).loadHistory = .ok history ∧ (file f).loadTheme = .ok theme ∧
    (file (.text t)).loadHistory = .ok (v.historyAfter history) ∧
    (file (.text t)).loadTheme = .ok (v.themeAfter theme)
  refused : ∀ (refused : WriteStep → Bool) s, refused s = true →
    let q := replaceMember refused v.key v.value { file := f }
    q.1.file = f ∧ q.2 = some (.couldNotSave v.key)

end Saving

section promise

variable {f : File} {v : Saving} {d : Document}

omit [Stack] in
private theorem document_eq_of_holds {room : Nat} {t : Text} (h : Document.ofText room t = .ok d) :
    (∀ room' members, Json.ofText room' t = .ok (.object members) → members = d) ∧
      ((∀ room' members, Json.ofText room' t ≠ .ok (.object members)) → d = []) := by
  unfold Document.ofText at h
  split at h
  · next members hread =>
    obtain rfl := Except.ok.inj h
    refine ⟨fun room' members' hread' => ?_, fun hnone => absurd hread (hnone room members)⟩
    have hsame : Json.ofText room t = Json.ofText room' t :=
      Json.ofText_eq_of_fits (hread ▸ Json.fits_ok _) (hread' ▸ Json.fits_ok _)
    rw [hread, hread'] at hsame
    exact (Json.object.inj (Except.ok.inj hsame)).symm
  · simp at h
  · simp at h
  · next hobject _ hdeep =>
    refine ⟨fun room' members hread' => ?_, fun _ => (Except.ok.inj h).symm⟩
    have hsame : Json.ofText room t = Json.ofText room' t :=
      Json.ofText_eq_of_fits hdeep (hread' ▸ Json.fits_ok _)
    exact absurd (hsame.trans hread') (hobject members)

/-- A file that holds an object is read as that object; any other file that is read counts as an
empty one. -/
theorem eq_of_holdsObject (hread : read Stack.saving f = .ok d) :
    (∀ before, f.HoldsObject before → before = d) ∧
      ((∀ before, ¬f.HoldsObject before) → d = []) := by
  cases f with
  | text t | fixed t _ =>
    obtain ⟨hsame, hempty⟩ := document_eq_of_holds hread
    exact ⟨fun before ⟨room, h⟩ => hsame room before h,
      fun hnone => hempty fun room before h => hnone before ⟨room, h⟩⟩
  | bytes content => simp [read] at hread
  | missing | blocked | directory =>
    exact ⟨fun _ h => h.elim, fun _ => (Except.ok.inj hread).symm⟩

/-- Only brackets keep a save from reading what can be loaded. -/
theorem tooDeep_of_read {e : StoreError} (hread : read Stack.saving f = .error e)
    (hload : read Stack.loading f = .ok d) : ∃ isArray, e = .tooDeep isArray := by
  cases f with
  | text t | fixed t _ =>
    rcases Document.error_of_ofText hread with ⟨digits, rfl⟩ | hdeep
    · have hlong : Json.ofText Stack.saving t = .error (.tooLong digits) :=
        Document.ofText_eq_tooLong_iff.mp hread
      have hsame := Json.ofText_of_le Stack.saving_le_loading (t := t) (by simp [Json.Fits, hlong])
      have hload' := Document.ofText_eq_tooLong_iff.mpr (hsame.trans hlong)
      exact absurd (hload.symm.trans hload') (by simp)
    · exact hdeep
  | bytes content => simp [read] at hload
  | missing | blocked | directory => simp [read] at hread

/-- A text that was written for a document without other numbers than integers is read as that
document, and saving the same once more writes the same text. -/
private theorem save_again {t : Text} (hread : read Stack.saving f = .ok d)
    (ht : (v.setIn d).toText? = some t) (hwhole : Json.Whole (.object d)) :
    Json.ofText Stack.saving t = .ok (.object (v.setIn d)) ∧
      (file (.text t)).save v = .ok (file (.text t)) := by
  have hset : Json.Whole (.object (v.setIn d)) := hwhole.set v.whole_value
  have hvalue : Json.ofText Stack.saving t = .ok (.object (v.setIn d)) :=
    (Json.ofText_of_toText? (tidy_setIn_of_read v hread) ht).trans
      (congrArg Except.ok hset.reread_eq)
  have hagain : read Stack.saving (.text t) = .ok (v.setIn d) := by
    rw [read, Document.ofText, hvalue]
  refine ⟨hvalue, save_eq_ok_iff.mpr ⟨fun s => rfl, _, t, hagain, ?_, rfl⟩⟩
  rw [Saving.setIn, Saving.setIn, Json.set_set]
  exact ht

private theorem promise_of_toText? {t : Text} (hall : ∀ s, f.refuses s = false)
    (hread : read Stack.saving f = .ok d) (ht : (v.setIn d).toText? = some t) : v.Promise f := by
  have hsave : (file f).save v = .ok (file (.text t)) :=
    save_eq_ok_iff.mpr ⟨hall, d, t, hread, ht, rfl⟩
  have hhistory : (file f).loadHistory = .ok (historyOf d) := by
    rw [loadHistory, read_loading hread]
    rfl
  have htheme : (file f).loadTheme = .ok (themeOf d) := by
    rw [loadTheme, read_loading hread]
    rfl
  obtain ⟨hhistory', htheme'⟩ := loads_of_save hsave hhistory htheme
  have hvalue := Json.ofText_of_toText? (tidy_setIn_of_read v hread) ht
  obtain ⟨hsame, hempty⟩ := eq_of_holdsObject hread
  refine ⟨⟨t, Json.rereadMembers (v.setIn d), historyOf d, themeOf d, hsave, hvalue, ?_, ?_,
    hhistory, htheme, hhistory', htheme'⟩, ?_⟩
  · -- without doubles the document that is read back is the one that was written
    intro before hbefore hwhole
    obtain rfl := (hsame before hbefore).symm
    obtain ⟨hvalue', hagain⟩ := save_again hread ht hwhole
    have hafter : Json.rereadMembers (v.setIn d) = v.setIn d := by
      simpa [Json.reread] using hvalue.symm.trans hvalue'
    rw [hafter]
    exact ⟨v.replaces_setIn d, hagain⟩
  · intro hnone
    obtain rfl := hempty hnone
    have hwhole : Json.Whole (.object (v.setIn [])) :=
      Json.Whole.set (.object (by simp)) v.whole_value
    simpa [Json.reread, Saving.setIn, Json.set] using hwhole.reread_eq
  · intro refused s hs
    refine (replaceMember_of_refused hread hs).imp_right fun h => ?_
    rcases h with herror | ⟨hnone, -⟩
    · exact herror
    · exact absurd (ht.symm.trans hnone) (by simp)

end promise

/-- For a file that is missing or holds a text, the promise of a save is kept exactly if the file
can be read and the document, once its member is set, holds no half of a pair. Otherwise the save
fails with the integer that is too long, the bracket that is nested too deep or the half that cannot
be written, and leaves the file as it was. -/
theorem promise_iff (content : Option Text) (v : Saving) :
    let f := content.elim File.missing File.text
    (v.Promise f ↔
        ∃ d, read Stack.saving f = .ok d ∧ (Json.object (v.setIn d)).isPlain = true) ∧
      (¬v.Promise f →
        let q := replaceMember f.refuses v.key v.value { file := f }
        q.1.file = f ∧ (q.2 = some .halfPair ∨ (∃ digits, q.2 = some (.tooLong digits)) ∨
          ∃ isArray, q.2 = some (.tooDeep isArray))) := by
  intro f
  have hall : ∀ s, f.refuses s = false := by
    intro s
    cases content <;> rfl
  have hiff : v.Promise f ↔
      ∃ d, read Stack.saving f = .ok d ∧ (Json.object (v.setIn d)).isPlain = true := by
    constructor
    · rintro ⟨⟨t, _, _, _, hsave, -⟩, -⟩
      obtain ⟨-, d, t, hread, ht, -⟩ := save_eq_ok_iff.mp hsave
      exact ⟨d, hread, (Document.toText?_eq_some_iff.mp ht).1⟩
    · rintro ⟨d, hread, hplain⟩
      exact promise_of_toText? hall hread (Document.toText?_eq_some_iff.mpr ⟨hplain, rfl⟩)
  refine ⟨hiff, fun hpromise => ?_⟩
  rw [hiff] at hpromise
  cases hread : read Stack.saving f with
  | error e =>
    have he : (∃ digits, e = .tooLong digits) ∨ ∃ isArray, e = .tooDeep isArray := by
      cases content with
      | none => simp [f, read] at hread
      | some t => exact Document.error_of_ofText hread
    rw [replaceMember, hread]
    refine ⟨rfl, .inr ?_⟩
    obtain ⟨digits, rfl⟩ | ⟨isArray, rfl⟩ := he
    · exact .inl ⟨digits, rfl⟩
    · exact .inr ⟨isArray, rfl⟩
  | ok d =>
    have hnone : (v.setIn d).toText? = none := by
      rw [Document.toText?, Json.toText?, if_neg fun hplain => hpromise ⟨d, hread, hplain⟩]
    rw [replaceMember_of_allowed hread hall, ← Saving.setIn, hnone]
    exact ⟨rfl, .inl rfl⟩

end stack

attribute [local instance] Stack.shallow

/-- An object with one integer that has one digit too many. -/
def longInteger : Text := text "\x7b\"a\": " ++ List.replicate 4301 '1' ++ text "\x7d"

theorem promise_not_kept :
    ¬(Saving.history [.ofText (text "1+1")]).Promise (.text longInteger) := by
  rintro ⟨⟨_, _, _, _, hsave, -⟩, -⟩
  obtain ⟨-, d, _, hread, -⟩ := save_eq_ok_iff.mp hsave
  have hfails : (read Stack.saving (.text longInteger)).isOk = false := by decide +kernel
  simp [hread, Except.isOk, Except.toBool] at hfails

end Store

end DeskCalc
