import DeskCalc.Json.Reader

/-!
# Room for brackets

Reading ends at a bracket that is nested deeper than there is room. If it does not end there, more
room makes no difference: the same value is read, or the same damage met.
-/

namespace DeskCalc.Json

/-- Whether reading is not ended by a bracket inside too many others. -/
def Fits {α : Type} (outcome : Except Damage α) : Prop :=
  ∀ isArray, outcome ≠ .error (.tooDeep isArray)

section fits

variable {α β : Type} {x : Except Damage α}

theorem fits_ok (a : α) : Fits (.ok a) := by simp [Fits]

private theorem Fits.of_map {f : α → β} (h : Fits (x.map f)) : Fits x := by
  rintro isArray rfl
  exact h isArray rfl

private theorem Fits.of_bind {f : α → Except Damage β} (h : Fits (x >>= f)) : Fits x := by
  rintro isArray rfl
  exact h isArray rfl

end fits

/-- What is read within some fuel is read in the same way with more room. -/
structure ReadsFurther (fuel : Nat) : Prop where
  value : ∀ room room' t, room ≤ room' → Fits (valueWithin fuel room t) →
    valueWithin fuel room' t = valueWithin fuel room t
  items : ∀ room room' t, room ≤ room' → Fits (itemsWithin fuel room t) →
    itemsWithin fuel room' t = itemsWithin fuel room t
  members : ∀ room room' ms t, room ≤ room' → Fits (membersWithin fuel room ms t) →
    membersWithin fuel room' ms t = membersWithin fuel room ms t

variable {fuel room room' : Nat}

theorem valueWithin_bracket (fuel room : Nat) {r : Text} (h : ∀ t, skipBlanks r ≠ ']' :: t) :
    valueWithin (fuel + 1) (room + 1) ('[' :: r) =
      (itemsWithin fuel room (skipBlanks r)).map fun (xs, rest) => (array xs, rest) := by
  rw [valueWithin]
  split
  · next t heq => exact absurd heq (h t)
  · rfl

theorem valueWithin_brace (fuel room : Nat) {r : Text} (h : ∀ t, skipBlanks r ≠ '\x7d' :: t) :
    valueWithin (fuel + 1) (room + 1) ('\x7b' :: r) =
      (membersWithin fuel room [] (skipBlanks r)).map fun (ms, rest) => (object ms, rest) := by
  rw [valueWithin]
  split
  · next t heq => exact absurd heq (h t)
  · rfl

private theorem ReadsFurther.value_succ (ih : ReadsFurther fuel) {t : Text} (hle : room ≤ room')
    (h : Fits (valueWithin (fuel + 1) room t)) :
    valueWithin (fuel + 1) room' t = valueWithin (fuel + 1) room t := by
  unfold valueWithin
  split
  · rfl
  · cases room with
    | zero => exact absurd rfl (h true)
    | succ room =>
      obtain ⟨room', rfl⟩ := Nat.exists_eq_add_of_le' (Nat.le_trans (Nat.le_add_left 1 _) hle)
      dsimp only
      split
      · rfl
      · next hopen =>
        rw [valueWithin_bracket _ _ hopen] at h
        rw [ih.items room room' _ (Nat.le_of_succ_le_succ hle) h.of_map]
  · cases room with
    | zero => exact absurd rfl (h false)
    | succ room =>
      obtain ⟨room', rfl⟩ := Nat.exists_eq_add_of_le' (Nat.le_trans (Nat.le_add_left 1 _) hle)
      dsimp only
      split
      · rfl
      · next hopen =>
        rw [valueWithin_brace _ _ hopen] at h
        rw [ih.members room room' _ _ (Nat.le_of_succ_le_succ hle) h.of_map]
  · rfl

private theorem ReadsFurther.items_succ (ih : ReadsFurther fuel) {t : Text} (hle : room ≤ room')
    (h : Fits (itemsWithin (fuel + 1) room t)) :
    itemsWithin (fuel + 1) room' t = itemsWithin (fuel + 1) room t := by
  rw [itemsWithin] at h
  rw [itemsWithin, itemsWithin, ih.value room room' t hle h.of_bind]
  cases hx : valueWithin fuel room t with
  | error e => rfl
  | ok p =>
    rw [hx] at h
    simp only [bind, Except.bind] at h ⊢
    split
    · rfl
    · next r hr =>
      rw [hr] at h
      rw [ih.items room room' _ hle h.of_bind]
    · rfl

private theorem ReadsFurther.members_succ (ih : ReadsFurther fuel) {ms : List (DocText × Json)}
    {t : Text} (hle : room ≤ room') (h : Fits (membersWithin (fuel + 1) room ms t)) :
    membersWithin (fuel + 1) room' ms t = membersWithin (fuel + 1) room ms t := by
  unfold membersWithin
  split
  · next r =>
    rw [membersWithin] at h
    cases hkey : readString r with
    | error e => rfl
    | ok p =>
      simp only [hkey, bind, Except.bind] at h ⊢
      split
      · next r' hr' =>
        simp only [hr'] at h
        have hvalue : Fits (valueWithin fuel room (skipBlanks r')) := h.of_bind
        rw [ih.value room room' _ hle hvalue]
        cases hx : valueWithin fuel room (skipBlanks r') with
        | error e => rfl
        | ok q =>
          simp only [hx] at h ⊢
          split
          · rfl
          · next r'' hr'' =>
            simp only [hr''] at h
            exact ih.members room room' _ _ hle h
          · rfl
      · rfl
  · rfl

private theorem readsFurther (fuel : Nat) : ReadsFurther fuel := by
  induction fuel with
  | zero => constructor <;> intros <;> rfl
  | succ fuel ih =>
    exact ⟨fun _ _ _ => ih.value_succ, fun _ _ _ => ih.items_succ, fun _ _ _ _ => ih.members_succ⟩

/-- More room makes no difference to what is read. -/
theorem ofText_of_le {t : Text} (hle : room ≤ room') (h : Fits (ofText room t)) :
    ofText room' t = ofText room t := by
  rw [ofText] at h
  rw [ofText, ofText, (readsFurther _).value room room' _ hle h.of_bind]

/-- If there is room twice, the same is read. -/
theorem ofText_eq_of_fits {t : Text} (h : Fits (ofText room t)) (h' : Fits (ofText room' t)) :
    ofText room t = ofText room' t := by
  rcases Nat.le_total room room' with hle | hle
  · exact (ofText_of_le hle h).symm
  · exact ofText_of_le hle h'

end DeskCalc.Json
