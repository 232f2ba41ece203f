import DeskCalc.Proofs.Session.Reopening

/-!
# Files in place of memory

Two stores that hold the same history and theme, and can be written, reply the same to whatever is
saved and loaded, and sessions on them show the same, as long as only characters are saved. In
particular a document can be kept in a file that is not there yet as well as in an empty memory.
-/

namespace DeskCalc

namespace Store

inductive Request where
  | saveHistory (entries : List Text)
  | saveTheme (t : Theme)
  | loadHistory
  | loadTheme

inductive Reply where
  | saved
  | failed (e : StoreError)
  | history (entries : List DocText)
  | theme (t : Option Theme)

variable [Stack]

/-- The reply to a save, and the store after it. -/
def replyToSave (store : Store) (v : Saving) : Reply × Store :=
  match store.save v with
  | .ok store' => (.saved, store')
  | .error e => (.failed e, store)

/-- The reply to a request, and the store after it. -/
def reply (store : Store) : Request → Reply × Store
  | .saveHistory entries => store.replyToSave (.history (entries.map .ofText))
  | .saveTheme t => store.replyToSave (.theme t)
  | .loadHistory =>
    match store.loadHistory with
    | .ok entries => (.history entries, store)
    | .error e => (.failed e, store)
  | .loadTheme =>
    match store.loadTheme with
    | .ok t => (.theme t, store)
    | .error e => (.failed e, store)

/-- The replies to some requests. -/
def replies (store : Store) : List Request → List Reply
  | [] => []
  | r :: rs => (store.reply r).1 :: (store.reply r).2.replies rs

/-- Two stores that can be written hold the same, and no half of a pair in it. -/
def Alike (a b : Store) : Prop :=
  ∃ history theme, (∀ e ∈ history, e.isPlain = true) ∧
    a.Holds history theme ∧ b.Holds history theme

private theorem alike_missing_memory : Alike (file .missing) (memory none none) :=
  ⟨[], none, by simp, holds_missing, holds_memory none none⟩

namespace Alike

variable {a b : Store}

private theorem loadHistory_eq (h : a.Alike b) : a.loadHistory = b.loadHistory := by
  obtain ⟨history, theme, -, ha, hb⟩ := h
  rw [ha.loadHistory, hb.loadHistory]

private theorem loadTheme_eq (h : a.Alike b) : a.loadTheme = b.loadTheme := by
  obtain ⟨history, theme, -, ha, hb⟩ := h
  rw [ha.loadTheme, hb.loadTheme]

private theorem isPlain_of_loadHistory (h : a.Alike b) {history : List DocText}
    (hload : a.loadHistory = .ok history) : ∀ e ∈ history, e.isPlain = true := by
  obtain ⟨history', theme, hplain, ha, -⟩ := h
  obtain rfl := Except.ok.inj (ha.loadHistory.symm.trans hload)
  exact hplain

private theorem save (h : a.Alike b) {v : Saving} (hv : v.isPlain = true) :
    ∃ a' b', a.save v = .ok a' ∧ b.save v = .ok b' ∧ a'.Alike b' := by
  obtain ⟨history, theme, hplain, ha, hb⟩ := h
  obtain ⟨a', hsavea, ha'⟩ := ha.save (accepts_of_isPlain hv a)
  obtain ⟨b', hsaveb, hb'⟩ := hb.save (accepts_of_isPlain hv b)
  refine ⟨a', b', hsavea, hsaveb, _, _, ?_, ha', hb'⟩
  cases v with
  | history entries => exact Saving.isPlain_history_iff.mp hv
  | theme t => exact hplain

private theorem put (h : a.Alike b) {v : Saving} (hv : v.isPlain = true) :
    (a.put v).Alike (b.put v) := by
  obtain ⟨a', b', hsavea, hsaveb, h'⟩ := h.save hv
  rwa [put_of_save hsavea, put_of_save hsaveb]

private theorem replyToSave (h : a.Alike b) {v : Saving} (hv : v.isPlain = true) :
    (a.replyToSave v).1 = (b.replyToSave v).1 ∧
      (a.replyToSave v).2.Alike (b.replyToSave v).2 := by
  obtain ⟨a', b', hsavea, hsaveb, h'⟩ := h.save hv
  rw [Store.replyToSave, Store.replyToSave, hsavea, hsaveb]
  exact ⟨rfl, h'⟩

private theorem reply (h : a.Alike b) (r : Request) :
    (a.reply r).1 = (b.reply r).1 ∧ (a.reply r).2.Alike (b.reply r).2 := by
  cases r with
  | saveHistory entries =>
    refine h.replyToSave (Saving.isPlain_history_iff.mpr fun e he => ?_)
    obtain ⟨t, -, rfl⟩ := List.mem_map.mp he
    exact DocText.isPlain_ofText t
  | saveTheme t => exact h.replyToSave (Saving.isPlain_theme t)
  | loadHistory =>
    obtain ⟨history, theme, hplain, ha, hb⟩ := h
    rw [Store.reply, Store.reply, ha.loadHistory, hb.loadHistory]
    exact ⟨rfl, _, _, hplain, ha, hb⟩
  | loadTheme =>
    obtain ⟨history, theme, hplain, ha, hb⟩ := h
    rw [Store.reply, Store.reply, ha.loadTheme, hb.loadTheme]
    exact ⟨rfl, _, _, hplain, ha, hb⟩

private theorem replies_eq (h : a.Alike b) (rs : List Request) : a.replies rs = b.replies rs := by
  induction rs generalizing a b with
  | nil => rfl
  | cons r rs ih =>
    obtain ⟨hreply, hrest⟩ := h.reply r
    rw [replies, replies, hreply, ih hrest]

end Alike

end Store

namespace Session

open Store (Saving)

variable [Stack] {a b : Store} {s : Session}

private theorem afterEvent_of_alike (h : a.Alike b) (hs : ∀ e ∈ s.log.entries, e.isPlain = true)
    (e : Event) :
    (s.afterEvent a e).1 = (s.afterEvent b e).1 ∧
      (s.afterEvent a e).2.Alike (s.afterEvent b e).2 ∧
      ∀ e' ∈ (s.afterEvent a e).1.log.entries, e'.isPlain = true := by
  cases e with
  | command c =>
    refine ⟨run_session s a b c, ?_, run_isPlain a hs c⟩
    simp only [afterEvent, run_store]
    cases hsaving : s.saving? c with
    | none => exact h
    | some v => exact h.put (isPlain_of_saving? hs hsaving)
  | reopen limit unit =>
    obtain ⟨history, hload⟩ : ∃ history, a.loadHistory = .ok history := by
      obtain ⟨history, theme, -, ha, -⟩ := h
      exact ⟨history, ha.loadHistory⟩
    obtain ⟨theme, hstart⟩ : ∃ theme, start limit unit a = .ok (opened limit unit history theme) :=
      start_of_loadHistory hload
    refine ⟨?_, h, ?_⟩
    · rw [afterEvent, afterEvent, start_congr h.loadHistory_eq h.loadTheme_eq]
    · rw [afterEvent, hstart]
      exact fun e he => h.isPlain_of_loadHistory hload e (List.mem_of_mem_take he)

private theorem after_of_alike (h : a.Alike b) (hs : ∀ e ∈ s.log.entries, e.isPlain = true)
    (es : List Event) : (s.after a es).1 = (s.after b es).1 := by
  induction es generalizing s a b with
  | nil => rfl
  | cons e es ih =>
    obtain ⟨hsession, hstore, hplain⟩ := afterEvent_of_alike h hs e
    rw [after, after, ← hsession]
    exact ih hstore hplain

/-- A file that is missing replies to all saves and loads as an empty memory does. Sessions open on
both with the same screen, and show the same after any commands and reopenings. -/
theorem file_as_memory :
    (∀ rs, (Store.file .missing).replies rs = (Store.memory none none).replies rs) ∧
      ∀ limit unit, ∃ s, start limit unit (.file .missing) = .ok s ∧
        start limit unit (.memory none none) = .ok s ∧
        ∀ es, (s.after (.file .missing) es).1 = (s.after (.memory none none) es).1 :=
  ⟨Store.alike_missing_memory.replies_eq, fun limit unit =>
    ⟨opened limit unit [] none, rfl, rfl,
      after_of_alike Store.alike_missing_memory (by simp [opened])⟩⟩

end Session

end DeskCalc
