import DeskCalc.Proofs.Session.Effects

/-!
# Repetitions in the history

A calculation removes the older copies of its own expression and of nothing else. So the history
never repeats a text more often than what was kept of the loaded one did, and a history that was
loaded without repetition stays without one. A session that is opened on a repetition shows it.
-/

namespace DeskCalc

namespace History

variable {α : Type}

theorem keep_sublist (limit : Int) (entries : List α) : (keep limit entries).Sublist entries :=
  List.take_sublist _ _

private theorem length_keep_le {limit : Int} (h : 0 ≤ limit) (entries : List α) :
    ((keep limit entries).length : Int) ≤ limit := by
  rw [keep_of_nonneg h, List.length_take]
  omega

variable [BEq α] [LawfulBEq α] [DecidableEq α]

private theorem count_promote_le (t expression : α) (entries : List α) :
    (promote expression entries).count t ≤ max 1 (entries.count t) := by
  unfold promote
  by_cases h : expression = t
  · subst h
    have hothers : (entries.filter (· ≠ expression)).count expression = 0 :=
      List.count_eq_zero.mpr (by simp)
    rw [List.count_cons_self, hothers]
    exact Nat.le_max_left 1 _
  · rw [List.count_cons_of_ne h]
    exact Nat.le_trans (List.filter_sublist.count_le t) (Nat.le_max_right 1 _)

private theorem count_record_le (t : α) (limit : Int) (expression : α) (entries : List α) :
    (record limit expression entries).count t ≤ max 1 (entries.count t) :=
  Nat.le_trans ((keep_sublist limit _).count_le t) (count_promote_le t expression entries)

end History

namespace Session

section stack

variable [Stack]

section steps

variable (s : Session) (store : Store)

/-- The entries after a command are those before it, none, or those before it with the buffer
recorded. -/
theorem run_entries_cases (c : Command) :
    let after := (s.run store c).session.log.entries
    after = s.log.entries ∨ after = [] ∨
      c = .calculate ∧ s.answer.ok = true ∧
        after = History.keep s.log.limit
          (History.record s.log.limit (.ofText s.screen.buffer) s.log.entries) := by
  intro after
  have hafter : after = (s.saving? c).elim s.log.entries
      (Store.Saving.historyAfter s.log.entries) := run_entries s store c
  unfold saving? at hafter
  split at hafter
  · by_cases hok : s.answer.ok = true
    · obtain ⟨-, -, hrecorded⟩ := Answer.recorded_of_ok hok
      rw [if_pos hok] at hafter
      exact .inr (.inr ⟨rfl, hok, by rw [hafter, answer, hrecorded]; rfl⟩)
    · rw [if_neg hok] at hafter
      exact .inl hafter
  · exact .inr (.inl hafter)
  · exact .inl hafter
  · exact .inl hafter

private theorem count_run_le (c : Command) (t : DocText) :
    (s.run store c).session.log.entries.count t ≤ max 1 (s.log.entries.count t) := by
  rcases run_entries_cases s store c with h | h | ⟨-, -, h⟩ <;> rw [h]
  · exact Nat.le_max_right 1 _
  · simp
  · exact Nat.le_trans ((History.keep_sublist _ _).count_le t) (History.count_record_le t _ _ _)

end steps

/-- The session keeps no more entries than its limit and repeats no text more often than the given
entries do. -/
structure KeepsFrom (first : List DocText) (s : Session) : Prop where
  mirrors : s.Mirrors
  length : (s.log.entries.length : Int) ≤ s.log.limit
  count : ∀ t, s.log.entries.count t ≤ max 1 (first.count t)

private theorem KeepsFrom.run {first : List DocText} {s : Session} (h : s.KeepsFrom first)
    (store : Store) (c : Command) : (s.run store c).session.KeepsFrom first where
  mirrors := run_mirrors store c h.mirrors
  length := by
    rw [run_limit]
    have hlimit := h.mirrors.limit_nonneg
    rcases run_entries_cases s store c with hafter | hafter | ⟨-, -, hafter⟩ <;> rw [hafter]
    · exact h.length
    · exact hlimit
    · exact History.length_keep_le hlimit _
  count t := by
    have hstep := count_run_le s store c t
    have hbefore := h.count t
    omega

omit [Stack] in
private theorem keepsFrom_opened {limit : Int} (hlimit : 0 ≤ limit) (unit : AngleUnit)
    (loaded : List DocText) (theme : Option Theme) :
    (opened limit unit loaded theme).KeepsFrom (loaded.take limit.toNat) where
  mirrors := opened_mirrors hlimit ..
  length := History.length_keep_le hlimit loaded
  count t := by
    rw [← History.keep_of_nonneg hlimit]
    exact Nat.le_max_right 1 _

/-- Whatever was stored and whatever is done, the history has no more entries than the limit and
repeats no text more often than the entries that were kept when the session was opened. So it is
without repetition after all runs of commands exactly if those entries are. -/
theorem history_distinct_iff {limit : Int} (hlimit : 1 ≤ limit) (unit : AngleUnit) {store : Store}
    {loaded : List DocText} (hload : store.loadHistory = .ok loaded) :
    ∃ s, start limit unit store = .ok s ∧
      (∀ cs : List Command, ((s.runAll store cs).1.screen.history.length : Int) ≤ limit) ∧
      (∀ (cs : List Command) (t : DocText), (s.runAll store cs).1.screen.history.count t ≤
        max 1 ((loaded.take limit.toNat).count t)) ∧
      ((∀ cs : List Command, (s.runAll store cs).1.screen.history.Nodup) ↔
        (loaded.take limit.toNat).Nodup) := by
  obtain ⟨theme, hstart⟩ : ∃ theme, start limit unit store = .ok (opened limit unit loaded theme) :=
    start_of_loadHistory hload
  have hnonneg : 0 ≤ limit := by omega
  have hkeeps : ∀ cs, ((opened limit unit loaded theme).runAll store cs).1.KeepsFrom
      (loaded.take limit.toNat) := fun cs =>
    runAll_keeps (fun _ found c h (_ : True) => h.run found c) store
      (keepsFrom_opened hnonneg unit loaded theme) fun _ _ => trivial
  have hlimits : ∀ cs, ((opened limit unit loaded theme).runAll store cs).1.log.limit = limit :=
    fun cs => runAll_keeps (P := fun t => t.log.limit = limit)
      (fun t found c h (_ : True) => (run_limit t found c).trans h) store rfl fun _ _ => trivial
  have hcount :
      ∀ cs t, ((opened limit unit loaded theme).runAll store cs).1.screen.history.count t ≤
      max 1 ((loaded.take limit.toNat).count t) := by
    intro cs t
    rw [(hkeeps cs).mirrors.history]
    exact (hkeeps cs).count t
  refine ⟨_, hstart, fun cs => ?_, hcount, fun h => ?_, fun h cs => ?_⟩
  · have hlength := (hkeeps cs).length
    rwa [hlimits, ← (hkeeps cs).mirrors.history] at hlength
  · -- before the first command the screen shows what was kept
    have hopened : (loaded.take limit.toNat) = (opened limit unit loaded theme).screen.history :=
      (History.keep_of_nonneg hnonneg loaded).symm
    rw [hopened]
    exact h []
  · refine List.nodup_iff_count_le_one.mpr fun t => ?_
    have honce := List.nodup_iff_count_le_one.mp h t
    have hle := hcount cs t
    omega

end stack

attribute [local instance] Stack.shallow

/-- Of a stored history that repeats its first text, half of a pair, a limit of two keeps no
repetition. -/
theorem history_distinct_of_short_limit :
    let loaded : List DocText := [[.half 0xD800], .ofText (text "2*3"), [.half 0xD800]]
    let store := Store.memory (some loaded) none
    ∃ s, start 2 .degrees store = .ok s ∧
      ∀ cs : List Command, (s.runAll store cs).1.screen.history.Nodup := by
  intro loaded store
  obtain ⟨s, hstart, -, -, hdistinct⟩ := history_distinct_iff (by decide : (1 : Int) ≤ 2) .degrees
    (rfl : store.loadHistory = .ok loaded)
  exact ⟨s, hstart, hdistinct.mpr (by decide)⟩

/-- A repetition in the store is shown by the session that is opened on it. -/
theorem history_not_always_distinct :
    ¬∀ (limit : Int) (unit : AngleUnit) (store : Store) (s : Session) (cs : List Command),
      1 ≤ limit → start limit unit store = .ok s →
        (s.runAll store cs).1.screen.history.Nodup ∧
          ((s.runAll store cs).1.screen.history.length : Int) ≤ limit := by
  intro h
  have hshown := (h 15 .degrees
    (.memory (some [.ofText (text "1+1"), .ofText (text "1+1")]) none) _ [] (by decide) rfl).1
  exact absurd hshown (by decide)

end Session

end DeskCalc
