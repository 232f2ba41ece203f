import DeskCalc.Proofs.Json.Rereading
import DeskCalc.Store

/-!
# What a store holds

A store that can be written holds one history and perhaps a theme. Saving either of them succeeds
and leaves the other as it was, in memory as well as in a file; only a file takes no half of a pair.
For a file this rests on two facts: a document is read back as it was written, and setting one
member keeps all others. What a damaged file holds counts as nothing, so the first save replaces it.
-/

namespace DeskCalc

namespace Json

private theorem get?_rereadMembers (key : DocText) (members : List (DocText × Json)) :
    get? key (rereadMembers members) = (get? key members).map reread := by
  induction members with
  | nil => rfl
  | cons m rest ih =>
    obtain ⟨k, v⟩ := m
    by_cases h : k = key <;> simp [rereadMembers, get?, h, ih]

mutual

theorem isPlain_reread (x : Json) : x.reread.isPlain = x.isPlain := by
  cases x with
  | null | bool b | integer n | number y | string s => rfl
  | array items => exact itemsArePlain_rereadItems items
  | object members => exact membersArePlain_rereadMembers members

theorem itemsArePlain_rereadItems (items : List Json) :
    itemsArePlain (rereadItems items) = itemsArePlain items := by
  match items with
  | [] => rfl
  | x :: xs =>
    rw [rereadItems, itemsArePlain, itemsArePlain, isPlain_reread x, itemsArePlain_rereadItems xs]

private theorem membersArePlain_rereadMembers (members : List (DocText × Json)) :
    membersArePlain (rereadMembers members) = membersArePlain members := by
  match members with
  | [] => rfl
  | (k, v) :: ms =>
    rw [rereadMembers, membersArePlain, membersArePlain, isPlain_reread v,
      membersArePlain_rereadMembers ms]

end

private theorem strings_rereadItems (items : List Json) :
    strings (rereadItems items) = strings items := by
  induction items with
  | nil => rfl
  | cons x rest ih =>
    simp only [strings] at ih
    cases x <;> simp [strings, rereadItems, reread, ih]

section members

variable {key : DocText} {value : Json} {members : List (DocText × Json)}

private theorem mem_set_of_mem {m : DocText × Json} (h : m ∈ members) (hne : m.1 ≠ key) :
    m ∈ set key value members := by
  induction members with
  | nil => simp at h
  | cons n rest ih =>
    obtain ⟨k, v⟩ := n
    rcases List.mem_cons.mp h with rfl | h
    · rw [set, if_neg hne]
      exact List.mem_cons_self
    · by_cases hk : k = key
      · rw [set, if_pos hk]
        exact List.mem_cons_of_mem _ h
      · rw [set, if_neg hk]
        exact List.mem_cons_of_mem _ (ih h)

private theorem membersArePlain_set (h : membersArePlain members = true) (hkey : key.isPlain = true)
    (hvalue : value.isPlain = true) : membersArePlain (set key value members) = true := by
  refine membersArePlain_iff.mpr fun m hm => ?_
  rcases mem_set hm with rfl | hm
  · exact ⟨hkey, hvalue⟩
  · exact membersArePlain_iff.mp h m hm

private theorem mem_of_get? (h : get? key members = some value) : (key, value) ∈ members := by
  induction members with
  | nil => simp [get?] at h
  | cons m rest ih =>
    obtain ⟨k, v⟩ := m
    rw [get?] at h
    split at h
    · next hk =>
      obtain rfl := Option.some.inj h
      exact hk ▸ List.mem_cons_self
    · exact List.mem_cons_of_mem _ (ih h)

end members

end Json

namespace Document

variable {room : Nat}

private theorem tidy_of_ofText {t : Text} {d : Document} (h : ofText room t = .ok d)
    (hroom : 1 ≤ room) : Json.Tidy room (.object d) := by
  unfold ofText at h
  split at h
  · next hread =>
    obtain rfl := Except.ok.inj h
    exact Json.tidy_of_ofText hread
  · simp at h
  · simp at h
  · obtain rfl := Except.ok.inj h
    obtain ⟨room, rfl⟩ := Nat.exists_eq_add_of_le' hroom
    exact Json.tidy_nil

private theorem ofText_of_le {room' : Nat} (hle : room ≤ room') {t : Text} {d : Document}
    (h : ofText room t = .ok d) : ofText room' t = .ok d := by
  have hfits : Json.Fits (Json.ofText room t) := by
    intro isArray hdeep
    rw [ofText, hdeep] at h
    simp at h
  rw [ofText, Json.ofText_of_le hle hfits]
  exact h

theorem toText?_eq_some_iff {d : Document} {t : Text} :
    d.toText? = some t ↔ (Json.object d).isPlain = true ∧ Json.write 0 (.object d) = t := by
  simp [toText?, Json.toText?]

private theorem ofText_of_toText? {d : Document} {t : Text} (h : Json.Tidy room (.object d))
    (ht : d.toText? = some t) : ofText room t = .ok (Json.rereadMembers d) := by
  rw [ofText, Json.ofText_of_toText? h ht, Json.reread]

variable [Stack]

/-- Whether a text can be read as a document and that document be written. -/
def isRewritable (t : Text) : Bool :=
  match ofText Stack.saving t with
  | .ok d => (Json.object d).isPlain
  | .error _ => false

theorem isRewritable_iff {t : Text} :
    isRewritable t = true ↔
      ∃ d, ofText Stack.saving t = .ok d ∧ (Json.object d).isPlain = true := by
  unfold isRewritable
  split
  · next d h => simp [h]
  · next e h => simp [h]

private theorem isRewritable_of_toText? {d : Document} {t : Text}
    (h : Json.Tidy Stack.saving (.object d)) (ht : d.toText? = some t) :
    isRewritable t = true := by
  refine isRewritable_iff.mpr ⟨_, ofText_of_toText? h ht, ?_⟩
  exact (Json.membersArePlain_rereadMembers d).trans (toText?_eq_some_iff.mp ht).1

end Document

section steps

variable (key : Text) (content : Option Text) {refused : WriteStep → Bool} (f : File)

/-- A save that is allowed all its steps puts its text in place of the file, if there is a text. -/
theorem WriteStep.take_all_of_allowed (h : ∀ s, refused s = false) :
    take key content refused { file := f } all =
      match content with
      | some t => ({ file := .text t }, none)
      | none => ({ file := f, temporary := some [] }, some .halfPair) := by
  cases content <;> simp [all, take, perform?, h]

/-- A save that is refused a step leaves the file as it was. What is wrong with the text shows only
if no step is refused before there is a new file to put in place. -/
theorem WriteStep.take_all_of_refused {s : WriteStep} (h : refused s = true) :
    let q := take key content refused { file := f } all
    q.1.file = f ∧ (q.2 = some (.couldNotSave key) ∨
      content = none ∧ q.2 = some .halfPair ∧ ∀ s, s ≠ .putInPlace → refused s = false) := by
  cases hdirectory : refused .makeDirectory with
  | true => simp [all, take, hdirectory]
  | false =>
    cases htemporary : refused .makeTemporary with
    | true => simp [all, take, perform?, hdirectory, htemporary]
    | false =>
      cases hfill : refused .fillTemporary with
      | true => simp [all, take, perform?, hdirectory, htemporary, hfill]
      | false =>
        have hput : refused .putInPlace = true := by cases s <;> simp_all
        have hearly : ∀ s, s ≠ .putInPlace → refused s = false := by
          intro s hs
          cases s <;> first | assumption | exact absurd rfl hs
        cases content with
        | none =>
          exact ⟨by simp [all, take, perform?, hdirectory, htemporary, hfill],
            .inr ⟨rfl, by simp [all, take, perform?, hdirectory, htemporary, hfill], hearly⟩⟩
        | some t => simp [all, take, perform?, hdirectory, htemporary, hfill, hput]

end steps

namespace Store

section documents

variable (d : Document)

private theorem historyOf_rereadMembers : historyOf (Json.rereadMembers d) = historyOf d := by
  unfold historyOf
  rw [Json.get?_rereadMembers]
  cases Json.get? (.ofText historyKey) d with
  | none => rfl
  | some x => cases x <;> simp [Json.reread, Json.strings_rereadItems]

private theorem themeOf_rereadMembers : themeOf (Json.rereadMembers d) = themeOf d := by
  unfold themeOf
  rw [Json.get?_rereadMembers]
  cases Json.get? (.ofText themeKey) d with
  | none => rfl
  | some x => cases x <;> simp [Json.reread]

private theorem isPlain_of_mem_historyOf {d : Document} (h : (Json.object d).isPlain = true)
    {e : DocText} (he : e ∈ historyOf d) : e.isPlain = true := by
  unfold historyOf at he
  split at he
  · next items hitems =>
    have harray := (Json.membersArePlain_iff.mp h _ (Json.mem_of_get? hitems)).2
    obtain ⟨x, hx, hxe⟩ := List.mem_filterMap.mp he
    cases x with
    | string s =>
      obtain rfl := Option.some.inj hxe
      exact Json.itemsArePlain_iff.mp harray _ hx
    | _ => simp at hxe
  · simp at he

end documents

/-- Something that a session hands to the store. -/
inductive Saving where
  | history (entries : List DocText)
  | theme (t : Theme)

namespace Saving

def key : Saving → Text
  | history _ => historyKey
  | theme _ => themeKey

def value : Saving → Json
  | history entries => .array (entries.map .string)
  | theme t => .string (.ofText t.name)

/-- The history that a store holds once this is saved, given the one that it held before. -/
def historyAfter (before : List DocText) : Saving → List DocText
  | history entries => entries
  | theme _ => before

/-- The theme that a store holds once this is saved, given the one that it held before. -/
def themeAfter (before : Option Theme) : Saving → Option Theme
  | history _ => before
  | theme t => some t

def isPlain (v : Saving) : Bool := v.value.isPlain

theorem isPlain_history_iff {entries : List DocText} :
    (history entries).isPlain = true ↔ ∀ e ∈ entries, e.isPlain = true :=
  Json.itemsArePlain_iff.trans List.forall_mem_map

@[simp]
theorem isPlain_theme (t : Theme) : (theme t).isPlain = true := DocText.isPlain_ofText _

private theorem tidy_value (v : Saving) (room : Nat) : v.value.Tidy (room + 1) := by
  cases v with
  | history entries =>
    refine .array fun x hx => ?_
    obtain ⟨t, -, rfl⟩ := List.mem_map.mp hx
    exact .string _
  | theme t => exact .string _

def setIn (v : Saving) (d : Document) : Document := Json.set (.ofText v.key) v.value d

private theorem tidy_setIn (v : Saving) {d : Document} {room : Nat} (h : Json.Tidy room (.object d))
    (hroom : 2 ≤ room) : Json.Tidy room (.object (v.setIn d)) := by
  obtain ⟨room, rfl⟩ := Nat.exists_eq_add_of_le' hroom
  exact h.set (v.tidy_value room)

theorem isPlain_setIn {v : Saving} (hv : v.isPlain = true) {d : Document}
    (h : (Json.object d).isPlain = true) : (Json.object (v.setIn d)).isPlain = true :=
  Json.membersArePlain_set h (DocText.isPlain_ofText _) hv

/-- Each of two saves keeps the members that the other one may replace. -/
theorem isPlain_of_setIn {entries : List DocText} {t : Theme} {d : Document}
    (hhistory : (Json.object ((history entries).setIn d)).isPlain = true)
    (htheme : (Json.object ((theme t).setIn d)).isPlain = true) :
    (Json.object d).isPlain = true := by
  refine Json.membersArePlain_iff.mpr fun m hm => ?_
  by_cases hkey : m.1 = .ofText historyKey
  · refine Json.membersArePlain_iff.mp htheme m (Json.mem_set_of_mem hm ?_)
    rw [hkey]
    exact (by decide : DocText.ofText historyKey ≠ .ofText themeKey)
  · exact Json.membersArePlain_iff.mp hhistory m (Json.mem_set_of_mem hm hkey)

private theorem historyOf_setIn (v : Saving) (d : Document) :
    historyOf (v.setIn d) = v.historyAfter (historyOf d) := by
  cases v with
  | history entries => simp [historyOf, setIn, key, value, historyAfter]
  | theme t =>
    have hne : DocText.ofText themeKey ≠ .ofText historyKey := by decide
    simp only [historyOf, setIn, key, historyAfter, Json.get?_set_of_ne hne]

private theorem themeOf_setIn (v : Saving) (d : Document) :
    themeOf (v.setIn d) = v.themeAfter (themeOf d) := by
  cases v with
  | history entries =>
    have hne : DocText.ofText historyKey ≠ .ofText themeKey := by decide
    simp only [themeOf, setIn, key, themeAfter, Json.get?_set_of_ne hne]
  | theme t => simp [themeOf, setIn, key, value, themeAfter, Theme.ofName?_name]

end Saving

section stack

variable [Stack]

def save : Saving → Store → Except StoreError Store
  | .history entries => saveHistory entries
  | .theme t => saveTheme t

/-- The store once something has been saved, or as it was if the save failed. -/
def put (v : Saving) (store : Store) : Store := (store.save v).toOption.getD store

theorem put_of_save {store store' : Store} {v : Saving} (h : store.save v = .ok store') :
    store.put v = store' := by
  rw [put, h]
  rfl

section files

variable {f : File} {d : Document}

omit [Stack] in
private theorem tidy_of_read {room : Nat} (h : read room f = .ok d) (hroom : 1 ≤ room) :
    Json.Tidy room (.object d) := by
  cases f with
  | text t | fixed t _ => exact Document.tidy_of_ofText h hroom
  | bytes content => simp [read] at h
  | missing | blocked | directory =>
    obtain rfl := Except.ok.inj h
    obtain ⟨room, rfl⟩ := Nat.exists_eq_add_of_le' hroom
    exact Json.tidy_nil

omit [Stack] in
private theorem read_of_le {room room' : Nat} (hle : room ≤ room') (h : read room f = .ok d) :
    read room' f = .ok d := by
  cases f with
  | text t | fixed t _ => exact Document.ofText_of_le hle h
  | bytes content => simp [read] at h
  | missing | blocked | directory => exact h

/-- What a save reads, a load reads. -/
theorem read_loading (h : read Stack.saving f = .ok d) : read Stack.loading f = .ok d :=
  read_of_le Stack.saving_le_loading h

/-- A save adds no more brackets than there is room for. -/
theorem tidy_setIn_of_read (v : Saving) (h : read Stack.saving f = .ok d) :
    Json.Tidy Stack.saving (.object (v.setIn d)) :=
  v.tidy_setIn (tidy_of_read h (Nat.le_of_succ_le Stack.le_saving)) Stack.le_saving

section replacing

variable {key : Text} {value : Json} {refused : WriteStep → Bool}

theorem replaceMember_of_allowed (hread : read Stack.saving f = .ok d)
    (hall : ∀ s, refused s = false) :
    replaceMember refused key value { file := f } =
      match Document.toText? (Json.set (.ofText key) value d) with
      | some t => ({ file := .text t }, none)
      | none => ({ file := f, temporary := some [] }, some .halfPair) := by
  rw [replaceMember, hread]
  exact WriteStep.take_all_of_allowed key _ f hall

theorem replaceMember_of_refused (hread : read Stack.saving f = .ok d) {s : WriteStep}
    (hs : refused s = true) :
    let q := replaceMember refused key value { file := f }
    q.1.file = f ∧ (q.2 = some (.couldNotSave key) ∨
      Document.toText? (Json.set (.ofText key) value d) = none ∧ q.2 = some .halfPair) := by
  rw [replaceMember, hread]
  obtain ⟨hfile, herror⟩ :=
    WriteStep.take_all_of_refused key (Document.toText? (Json.set (.ofText key) value d)) f hs
  exact ⟨hfile, herror.imp_right fun h => ⟨h.1, h.2.1⟩⟩

private theorem write_eq_ok_iff_replaceMember {f' : File} :
    write key value f = .ok f' ↔
      (replaceMember f.refuses key value { file := f }).2 = none ∧
        (replaceMember f.refuses key value { file := f }).1.file = f' := by
  unfold write
  split
  · next p h => simp [h]
  · next e h => simp [h]

/-- A file that is saved to holds the document that was read from it, with one member replaced. -/
theorem write_eq_ok_iff {f' : File} :
    write key value f = .ok f' ↔
      (∀ s, f.refuses s = false) ∧ ∃ d t, read Stack.saving f = .ok d ∧
        Document.toText? (Json.set (.ofText key) value d) = some t ∧ f' = .text t := by
  rw [write_eq_ok_iff_replaceMember]
  cases hread : read Stack.saving f with
  | error e => simp [replaceMember, hread]
  | ok d =>
    by_cases hall : ∀ s, f.refuses s = false
    · rw [replaceMember_of_allowed hread hall]
      cases ht : Document.toText? (Json.set (.ofText key) value d) with
      | none => simp [ht]
      | some t => simp [ht, hall, eq_comm]
    · obtain ⟨s, hs⟩ : ∃ s, f.refuses s = true := by simpa using hall
      refine iff_of_false ?_ fun h => hall h.1
      rintro ⟨hnone, -⟩
      obtain ⟨-, herror | ⟨-, herror⟩⟩ := replaceMember_of_refused hread hs
      · exact absurd (herror.symm.trans hnone) (by simp)
      · exact absurd (herror.symm.trans hnone) (by simp)

end replacing

theorem save_file (v : Saving) (f : File) :
    (file f).save v = (write v.key v.value f).map file := by
  cases v <;> rfl

theorem save_eq_ok_iff {v : Saving} {f : File} {store' : Store} :
    (file f).save v = .ok store' ↔
      (∀ s, f.refuses s = false) ∧ ∃ d t, read Stack.saving f = .ok d ∧
        (v.setIn d).toText? = some t ∧ store' = file (.text t) := by
  rw [save_file, Except.map_eq_ok_iff]
  constructor
  · rintro ⟨f', hwrite, rfl⟩
    obtain ⟨hall, d, t, hread, ht, rfl⟩ := write_eq_ok_iff.mp hwrite
    exact ⟨hall, d, t, hread, ht, rfl⟩
  · rintro ⟨hall, d, t, hread, ht, rfl⟩
    exact ⟨.text t, write_eq_ok_iff.mpr ⟨hall, d, t, hread, ht, rfl⟩, rfl⟩

end files

/-- A store can be written: it is in memory, or its file is missing or holds a text that can be read
and written. -/
def Writable : Store → Prop
  | memory _ _ => True
  | file .missing => True
  | file (.text t) => Document.isRewritable t = true
  | file _ => False

omit [Stack] in
/-- Whether there is nothing in what is saved that such a store never takes. -/
def Accepts (v : Saving) : Store → Prop
  | memory _ _ => True
  | file _ => v.isPlain = true

omit [Stack] in
theorem accepts_of_isPlain {v : Saving} (h : v.isPlain = true) (store : Store) :
    store.Accepts v := by
  cases store with
  | memory _ _ => trivial
  | file _ => exact h

/-- A save that succeeds replaces what the store held by what is saved; the rest stays. -/
theorem loads_of_save {store store' : Store} {v : Saving} (h : store.save v = .ok store')
    {history : List DocText} {theme : Option Theme} (hhistory : store.loadHistory = .ok history)
    (htheme : store.loadTheme = .ok theme) :
    store'.loadHistory = .ok (v.historyAfter history) ∧
      store'.loadTheme = .ok (v.themeAfter theme) := by
  cases store with
  | memory history' theme' =>
    obtain rfl := Except.ok.inj hhistory
    obtain rfl := Except.ok.inj htheme
    cases v <;>
    · obtain rfl := Except.ok.inj h
      exact ⟨rfl, rfl⟩
  | file f =>
    obtain ⟨-, d, t, hread, ht, rfl⟩ := save_eq_ok_iff.mp h
    rw [loadHistory, read_loading hread] at hhistory
    rw [loadTheme, read_loading hread] at htheme
    obtain rfl := Except.ok.inj hhistory
    obtain rfl := Except.ok.inj htheme
    have hafter : read Stack.loading (.text t) = .ok (Json.rereadMembers (v.setIn d)) :=
      Document.ofText_of_toText? ((tidy_setIn_of_read v hread).mono Stack.saving_le_loading) ht
    rw [loadHistory, loadTheme, hafter, Except.map, Except.map, historyOf_rereadMembers,
      themeOf_rereadMembers, v.historyOf_setIn, v.themeOf_setIn]
    exact ⟨rfl, rfl⟩

/-- What has been saved to can be written. -/
theorem writable_of_save {store store' : Store} {v : Saving} (h : store.save v = .ok store') :
    store'.Writable := by
  cases store with
  | memory history theme => cases v <;> cases Except.ok.inj h <;> trivial
  | file f =>
    obtain ⟨-, d, t, hread, ht, rfl⟩ := save_eq_ok_iff.mp h
    exact Document.isRewritable_of_toText? (tidy_setIn_of_read v hread) ht

/-- A document without halves of pairs is still one once a member is replaced by a value without
them, so it is written. -/
theorem exists_write {v : Saving} (hv : v.isPlain = true) (hall : ∀ s, f.refuses s = false)
    (hread : read Stack.saving f = .ok d) (hplain : (Json.object d).isPlain = true) :
    ∃ store', (file f).save v = .ok store' := by
  have ht := Document.toText?_eq_some_iff.mpr ⟨Saving.isPlain_setIn hv hplain, rfl⟩
  exact ⟨_, save_eq_ok_iff.mpr ⟨hall, d, _, hread, ht, rfl⟩⟩

/-- The stores that can be written are those on which every save succeeds that they accept. -/
theorem writable_iff {store : Store} :
    store.Writable ↔ ∀ v, store.Accepts v → ∃ store', store.save v = .ok store' := by
  constructor
  · intro h v hv
    match store, h with
    | memory _ _, _ => cases v <;> exact ⟨_, rfl⟩
    | file .missing, _ => exact exists_write hv (fun s => rfl) rfl rfl
    | file (.text t), h =>
      obtain ⟨d, hread, hplain⟩ := Document.isRewritable_iff.mp h
      exact exists_write hv (fun s => rfl) hread hplain
  · intro h
    cases store with
    | memory history theme => trivial
    | file f =>
      have hwrite : ∀ v : Saving, v.isPlain = true → (∀ s, f.refuses s = false) ∧
          ∃ d, read Stack.saving f = .ok d ∧ (Json.object (v.setIn d)).isPlain = true := by
        intro v hv
        obtain ⟨store', hsave⟩ := h v hv
        obtain ⟨hall, d, t, hread, ht, -⟩ := save_eq_ok_iff.mp hsave
        exact ⟨hall, d, hread, (Document.toText?_eq_some_iff.mp ht).1⟩
      obtain ⟨hall, d, hread, hhistory⟩ := hwrite (.history []) rfl
      cases f with
      | missing => trivial
      | bytes content => simp [read] at hread
      | fixed t s => exact absurd (hall s) (by simp [File.refuses])
      | blocked => exact absurd (hall .makeDirectory) (by decide)
      | directory => exact absurd (hall .putInPlace) (by decide)
      | text t =>
        obtain ⟨-, d', hread', htheme⟩ := hwrite (.theme .dark) (Saving.isPlain_theme _)
        obtain rfl := Except.ok.inj (hread.symm.trans hread')
        exact Document.isRewritable_iff.mpr ⟨d, hread, Saving.isPlain_of_setIn hhistory htheme⟩

/-- The store can be written, and holds the given history and theme. -/
structure Holds (store : Store) (history : List DocText) (theme : Option Theme) : Prop where
  writable : store.Writable
  loadHistory : store.loadHistory = .ok history
  loadTheme : store.loadTheme = .ok theme

theorem holds_memory (history : Option (List DocText)) (theme : Option Theme) :
    (memory history theme).Holds (history.getD []) theme :=
  ⟨trivial, rfl, rfl⟩

theorem holds_missing : (file .missing).Holds [] none := ⟨trivial, rfl, rfl⟩

theorem Writable.holds {store : Store} (h : store.Writable) :
    ∃ history theme, store.Holds history theme := by
  match store, h with
  | memory history theme, _ => exact ⟨_, _, holds_memory history theme⟩
  | file .missing, _ => exact ⟨_, _, holds_missing⟩
  | file (.text t), h =>
    obtain ⟨d, hread, -⟩ := Document.isRewritable_iff.mp h
    have hload : read Stack.loading (.text t) = .ok d := read_loading hread
    refine ⟨historyOf d, themeOf d, h, ?_, ?_⟩
    · rw [loadHistory, hload]
      rfl
    · rw [loadTheme, hload]
      rfl

section holds

variable {store : Store} {history : List DocText} {theme : Option Theme}

/-- A store that can be written accepts the entries that it holds, and any others without halves of
pairs beside them. -/
theorem Holds.accepts (h : store.Holds history theme) {entries : List DocText}
    (hentries : ∀ e ∈ entries, e ∈ history ∨ e.isPlain = true) :
    store.Accepts (.history entries) := by
  match store, h with
  | memory _ _, _ => trivial
  | file .missing, h =>
    obtain rfl : [] = history := Except.ok.inj h.loadHistory
    exact Saving.isPlain_history_iff.mpr fun e he => (hentries e he).resolve_left List.not_mem_nil
  | file (.text t), h =>
    obtain ⟨d, hread, hplain⟩ := Document.isRewritable_iff.mp h.writable
    have hload : read Stack.loading (.text t) = .ok d := read_loading hread
    have hhistory := h.loadHistory
    rw [Store.loadHistory, hload] at hhistory
    obtain rfl : historyOf d = history := Except.ok.inj hhistory
    exact Saving.isPlain_history_iff.mpr fun e he =>
      (hentries e he).elim (isPlain_of_mem_historyOf hplain) id

/-- Every save that the store accepts succeeds. What is saved replaces what the store held; the rest
stays. -/
theorem Holds.save (h : store.Holds history theme) {v : Saving} (hv : store.Accepts v) :
    ∃ store', store.save v = .ok store' ∧
      store'.Holds (v.historyAfter history) (v.themeAfter theme) := by
  obtain ⟨store', hsave⟩ := writable_iff.mp h.writable v hv
  obtain ⟨hhistory, htheme⟩ := loads_of_save hsave h.loadHistory h.loadTheme
  exact ⟨store', hsave, writable_of_save hsave, hhistory, htheme⟩

theorem Holds.put (h : store.Holds history theme) {v : Saving} (hv : store.Accepts v) :
    (store.put v).Holds (v.historyAfter history) (v.themeAfter theme) := by
  obtain ⟨store', hsave, hholds⟩ := h.save hv
  rwa [put_of_save hsave]

end holds

end stack

end Store

end DeskCalc
