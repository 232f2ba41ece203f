import DeskCalc.Proofs.Session.Effects

/-!
# The history of a session

The history is what was calculated last: the buffers of the successful calculations, latest first,
then the history that was loaded, each text once and no more than the limit allows. Cutting off the
entries after every calculation loses nothing: a new expression takes one place, and an older copy
of it frees one.
-/

namespace DeskCalc

namespace History

section distinct

variable {α : Type} [BEq α] [LawfulBEq α]

private theorem eraseDups_filter (p : α → Bool) : ∀ xs : List α,
    (xs.filter p).eraseDups = xs.eraseDups.filter p
  | [] => rfl
  | x :: xs => by
    have ih := eraseDups_filter p (xs.filter fun y => !y == x)
    rw [List.filter_comm] at ih
    by_cases hx : p x = true
    · rw [List.filter_cons_of_pos hx, List.eraseDups_cons, List.eraseDups_cons,
        List.filter_cons_of_pos hx, ih]
    · have hothers : (xs.filter p).filter (fun y => !y == x) = xs.filter p := by
        refine List.filter_eq_self.mpr fun y hy => ?_
        rw [Bool.not_eq_true', beq_eq_false_iff_ne]
        rintro rfl
        exact hx (List.mem_filter.mp hy).2
      rw [List.filter_cons_of_neg hx, List.eraseDups_cons, List.filter_cons_of_neg hx, ← ih,
        hothers]
termination_by xs => xs.length
decreasing_by exact Nat.lt_succ_of_le (List.length_filter_le _ _)

private theorem nodup_eraseDups : ∀ xs : List α, xs.eraseDups.Nodup
  | [] => by simp
  | x :: xs => by
    rw [List.eraseDups_cons, List.nodup_cons]
    exact ⟨by simp, nodup_eraseDups _⟩
termination_by xs => xs.length
decreasing_by exact Nat.lt_succ_of_le (List.length_filter_le _ _)

private theorem eraseDups_of_nodup {xs : List α} (h : xs.Nodup) : xs.eraseDups = xs := by
  induction xs with
  | nil => rfl
  | cons x xs ih =>
    obtain ⟨hx, hxs⟩ := List.nodup_cons.mp h
    have hothers : xs.filter (fun y => !y == x) = xs := by
      refine List.filter_eq_self.mpr fun y hy => ?_
      rw [Bool.not_eq_true', beq_eq_false_iff_ne]
      rintro rfl
      exact hx hy
    rw [List.eraseDups_cons, hothers, ih hxs]

end distinct

private theorem promote_eraseDups {α : Type} [BEq α] [LawfulBEq α] [DecidableEq α] (expression : α)
    (xs : List α) :
    promote expression xs.eraseDups = (expression :: xs).eraseDups := by
  have hfilter : (fun y : α => decide (y ≠ expression)) = fun y => !y == expression := by
    funext y
    by_cases h : y = expression <;> simp [h]
  rw [promote, List.eraseDups_cons, hfilter, eraseDups_filter]

/-- Cutting off one entry more than is needed does not show after one entry is removed. -/
private theorem take_filter_take {α : Type} [DecidableEq α] {entries : List α} (h : entries.Nodup)
    (expression : α) (n : Nat) :
    ((entries.take (n + 1)).filter (· ≠ expression)).take n =
      (entries.filter (· ≠ expression)).take n := by
  induction entries generalizing n with
  | nil => rfl
  | cons e es ih =>
    obtain ⟨he, hes⟩ := List.nodup_cons.mp h
    rw [List.take_succ_cons]
    by_cases hsame : e = expression
    · -- the copy stands here, so nothing after it is removed
      subst hsame
      have hothers : ∀ l : List α, (∀ x ∈ l, x ∈ es) → l.filter (· ≠ e) = l := by
        refine fun l hl => List.filter_eq_self.mpr fun x hx => ?_
        rw [decide_eq_true_eq]
        rintro rfl
        exact he (hl x hx)
      rw [List.filter_cons_of_neg (by simp), List.filter_cons_of_neg (by simp),
        hothers _ fun x => List.mem_of_mem_take, hothers _ fun _ => id, List.take_take,
        Nat.min_self]
    · rw [List.filter_cons_of_pos (by simpa using hsame),
        List.filter_cons_of_pos (by simpa using hsame)]
      cases n with
      | zero => rfl
      | succ n => rw [List.take_succ_cons, List.take_succ_cons, ih hes]

/-- Recording an expression in the entries that a limit has kept is as good as recording it in
all. -/
private theorem record_take {α : Type} [DecidableEq α] {limit : Int} (hlimit : 0 ≤ limit)
    (expression : α) {entries : List α} (h : entries.Nodup) :
    record limit expression (entries.take limit.toNat) =
      (promote expression entries).take limit.toNat := by
  rw [record, keep_of_nonneg hlimit]
  unfold promote
  cases limit.toNat with
  | zero => rfl
  | succ n => rw [List.take_succ_cons, List.take_succ_cons, take_filter_take h]

end History

namespace Session

section stack

variable [Stack]

/-- The calculations that count after a command, latest first, given those that counted before. -/
def calculatedAfter (s : Session) (before : List DocText) : Command → List DocText
  | .calculate => if s.answer.ok then .ofText s.screen.buffer :: before else before
  | .clearHistory => []
  | _ => before

/-- The buffers at which a calculation succeeded since the history was last cleared, latest first,
and what counted before if it was never cleared. -/
def calculated (s : Session) (store : Store) (before : List DocText) :
    List Command → List DocText
  | [] => before
  | c :: cs =>
    (s.run store c).session.calculated (s.run store c).store (s.calculatedAfter before c) cs

section steps

variable {s : Session} (store : Store)

private theorem run_entries_of_quiet {c : Command} (hclear : c ≠ .clearHistory)
    (hcalculate : c = .calculate → s.answer.ok = false) :
    (s.run store c).session.log.entries = s.log.entries := by
  rw [run_entries]
  unfold saving?
  split
  · simp [hcalculate rfl]
  · exact absurd rfl hclear
  · rfl
  · rfl

private theorem run_entries_eq_take {before : List DocText} (hlimit : 0 ≤ s.log.limit)
    (h : s.log.entries = before.eraseDups.take s.log.limit.toNat) (c : Command) :
    (s.run store c).session.log.entries =
      (s.calculatedAfter before c).eraseDups.take s.log.limit.toNat := by
  by_cases hclear : c = .clearHistory
  · subst hclear
    simp [run_entries, saving?, calculatedAfter, Store.Saving.historyAfter]
  by_cases hcalculate : c = .calculate ∧ s.answer.ok = true
  · obtain ⟨rfl, hok⟩ := hcalculate
    obtain ⟨-, -, hrecorded⟩ := Answer.recorded_of_ok hok
    have hkept : History.keep s.log.limit s.answer.history = s.answer.history := by
      rw [answer, hrecorded, History.record, History.keep_keep hlimit]
    rw [run_entries]
    simp only [saving?, calculatedAfter, hok, if_true, Option.elim, Store.Saving.historyAfter,
      hkept]
    rw [answer, hrecorded, h, History.record_take hlimit _ (History.nodup_eraseDups _),
      History.promote_eraseDups]
  · have hnot : c = .calculate → s.answer.ok = false := fun hc =>
      Bool.eq_false_iff.mpr fun hok => hcalculate ⟨hc, hok⟩
    have hsame : s.calculatedAfter before c = before := by
      unfold calculatedAfter
      split
      · simp [hnot rfl]
      · exact absurd rfl hclear
      · rfl
    rw [run_entries_of_quiet store hclear hnot, hsame, h]

end steps

private theorem runAll_entries_eq_take {s : Session} (store : Store) {before : List DocText}
    (hlimit : 0 ≤ s.log.limit)
    (h : s.log.entries = before.eraseDups.take s.log.limit.toNat) (cs : List Command) :
    (s.runAll store cs).1.log.entries =
      (s.calculated store before cs).eraseDups.take s.log.limit.toNat := by
  induction cs generalizing s store before with
  | nil => exact h
  | cons c cs ih =>
    have hlimit' := run_limit s store c
    have hstep := run_entries_eq_take store hlimit h c
    rw [← hlimit'] at hlimit hstep
    rw [runAll_cons, calculated, ih _ hlimit hstep, hlimit']

private theorem ne_of_mem_calculated {s : Session} (store : Store) {before : List DocText}
    (cs : List Command) {b : DocText} (h : b ∈ s.calculated store before cs) :
    b ∈ before ∨ b ≠ .ofText errorSentinel ∧ b ≠ [] := by
  induction cs generalizing s store before with
  | nil => exact .inl h
  | cons c cs ih =>
    rcases ih _ h with h | h
    · unfold calculatedAfter at h
      split at h
      · split at h
        · next hok =>
          obtain ⟨hsentinel, hempty, -⟩ := Answer.recorded_of_ok hok
          rcases List.mem_cons.mp h with rfl | h
          · exact .inr ⟨DocText.ofText_injective.ne hsentinel, DocText.ofText_injective.ne hempty⟩
          · exact .inl h
        · exact .inl h
      · simp at h
      · exact .inl h
    · exact .inr h

/-- Whatever is done in a session that was opened on a history without repetition, its history is
what was calculated last, then what was loaded unless the history was cleared, each text once and as
many as the limit allows. All other commands leave it as it is, and neither a failure nor an empty
text is added. -/
theorem history_is_recent {limit : Int} (hlimit : 0 ≤ limit) (unit : AngleUnit) {store : Store}
    {loaded : List DocText} (hload : store.loadHistory = .ok loaded) (hloaded : loaded.Nodup) :
    ∃ s, start limit unit store = .ok s ∧ ∀ cs : List Command,
      let t := (s.runAll store cs).1
      t.screen.history = (s.calculated store loaded cs).eraseDups.take limit.toNat ∧
        (∀ (found : Store) (c : Command), c ≠ .clearHistory →
          (c = .calculate → t.answer.ok = false) →
          (t.run found c).session.screen.history = t.screen.history) ∧
        ∀ b ∈ s.calculated store [] cs, b ≠ .ofText errorSentinel ∧ b ≠ [] := by
  obtain ⟨theme, hstart⟩ := start_of_loadHistory hload
  refine ⟨_, hstart, fun cs => ?_⟩
  have hentries : (opened limit unit loaded theme).log.entries =
      loaded.eraseDups.take limit.toNat := by
    rw [History.eraseDups_of_nodup hloaded]
    exact History.keep_of_nonneg hlimit loaded
  have hmirrors : ((opened limit unit loaded theme).runAll store cs).1.Mirrors :=
    runAll_keeps (fun _ found c h (_ : True) => run_mirrors found c h) store
      (opened_mirrors hlimit ..) fun _ _ => trivial
  refine ⟨?_, fun found c hclear hcalculate => ?_, fun b hb => ?_⟩
  · exact hmirrors.history.trans (runAll_entries_eq_take store hlimit hentries cs)
  · rw [(run_mirrors found c hmirrors).history, hmirrors.history]
    exact run_entries_of_quiet found hclear hcalculate
  · exact (ne_of_mem_calculated store cs hb).resolve_left List.not_mem_nil

end stack

attribute [local instance] Stack.shallow

/-- Of two old entries and two calculations two texts are kept; a failure is none of them. -/
theorem history_is_recent_after_failure :
    let loaded : List DocText := [.ofText (text "1+1"), .ofText (text "2*3")]
    let store := Store.memory (some loaded) none
    let cs : List Command :=
      [.recallHistory (text "3+4"), .calculate, .recallHistory (text "1+1"), .calculate,
        .recallHistory (text "1/0"), .calculate]
    ∃ s, start 2 .degrees store = .ok s ∧
      s.calculated store loaded cs =
        [text "1+1", text "3+4", text "1+1", text "2*3"].map .ofText ∧
      (s.runAll store cs).1.screen.history = [text "1+1", text "3+4"].map .ofText := by
  intro loaded store cs
  have hload : store.loadHistory = .ok loaded := rfl
  obtain ⟨s, hstart, hall⟩ :=
    history_is_recent (by decide : (0 : Int) ≤ 2) .degrees hload (by decide)
  have hcalculated : s.calculated store loaded cs =
      [text "1+1", text "3+4", text "1+1", text "2*3"].map .ofText := by
    obtain rfl : _ = s := Except.ok.inj hstart
    decide +kernel
  refine ⟨s, hstart, hcalculated, ?_⟩
  rw [(hall cs).1, hcalculated]
  decide

end Session

end DeskCalc
