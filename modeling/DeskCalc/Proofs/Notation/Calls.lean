import DeskCalc.Proofs.Notation.Keypad

/-!
# Renaming calls in a text

Renaming changes nothing but the names of calls, so it leaves what follows the last opening
parenthesis as it is, and a text that no letter ends is renamed apart from what follows it. Neither
renaming nor the later steps bring an operator or an exclamation mark to the start of a text.
-/

namespace DeskCalc.Notation

private theorem renames_spec : ∀ r ∈ renames, (∀ c ∈ r.1, isPlainLetter c = true) ∧
    r.2.getLast? = some '(' ∧ IsFormulaText r.2 ∧ ∀ c, r.2.head? = some c → IsInert c := by
  unfold IsInert
  decide

/-- A text with all its calls renamed. -/
def renamed (t : Text) : Text := renames.foldl (fun t (name, new) => rename name new t) t

/-- The formula that an expression of the keypad stands for in radians, with no zeros before its
numerals. -/
def formula (t : Text) : Text := plainFormula (renamed t)

section rename

variable {name new : Text}

/-- Skipping all of a text leaves what follows it. -/
private theorem renameFrom_skip (name new : Text) {b : Text} (hb : '(' ∉ b) (a : Text)
    (afterLetter : Bool) : renameFrom name new a.length afterLetter (a ++ b) = b := by
  induction a generalizing afterLetter with
  | nil => exact renameFrom_of_no_call hb afterLetter
  | cons c a ih => exact ih _

/-- A call that is renamed ends no later than the last opening parenthesis. -/
private theorem length_le_of_call (hname : ∀ c ∈ name, isPlainLetter c = true) {a b : Text}
    (h : (name ++ ['(']).isPrefixOf (a ++ '(' :: b) = true) : name.length ≤ a.length := by
  rw [List.isPrefixOf_iff_prefix] at h
  by_contra hlong
  have hopen : a ++ ['('] <+: a ++ '(' :: b := ⟨b, by simp⟩
  have hlength : (a ++ ['(']).length ≤ name.length := by
    rw [List.length_append, List.length_singleton]
    omega
  have hstart : a ++ ['('] <+: name :=
    List.prefix_of_prefix_length_le hopen ((List.prefix_append name ['(']).trans h) hlength
  have hopening := hname '(' (hstart.subset (by simp))
  exact absurd hopening (by decide)

private theorem renameFrom_tail (hname : ∀ c ∈ name, isPlainLetter c = true)
    (hnew : new.getLast? = some '(') {b : Text} (hb : '(' ∉ b) (a : Text) {skip : Nat}
    (hskip : skip ≤ a.length) (afterLetter : Bool) :
    ∃ w, renameFrom name new skip afterLetter (a ++ '(' :: b) = w ++ '(' :: b := by
  obtain ⟨v, rfl⟩ := List.getLast?_eq_some_iff.mp hnew
  induction a generalizing skip afterLetter with
  | nil =>
    obtain rfl : skip = 0 := Nat.le_zero.mp hskip
    simp only [List.nil_append, renameFrom]
    split
    · next h =>
      simp only [Bool.and_eq_true] at h
      have hlength := length_le_of_call hname (a := []) h.2
      have hrest : renameFrom name (v ++ ['(']) name.length (isPlainLetter '(') b = b := by
        rw [Nat.le_zero.mp hlength]
        exact renameFrom_of_no_call hb _
      exact ⟨v, by rw [hrest, List.append_assoc]; rfl⟩
    · exact ⟨[], by rw [renameFrom_of_no_call hb]; rfl⟩
  | cons c a ih =>
    cases skip with
    | succ k => exact ih (Nat.le_of_succ_le_succ hskip) _
    | zero =>
      simp only [List.cons_append, renameFrom]
      split
      · next h =>
        simp only [Bool.and_eq_true] at h
        have hlength := length_le_of_call hname (a := c :: a) h.2
        rw [List.length_cons] at hlength
        rcases Nat.lt_or_eq_of_le hlength with hshort | hall
        · obtain ⟨w, hw⟩ := ih (Nat.le_of_lt_succ hshort) (isPlainLetter c)
          exact ⟨v ++ ['('] ++ w, by rw [hw]; simp⟩
        · have hrest := renameFrom_skip name (v ++ ['(']) hb (a ++ ['(']) (isPlainLetter c)
          rw [List.length_append, List.length_singleton, ← hall, List.append_assoc,
            List.singleton_append] at hrest
          exact ⟨v, by rw [hrest, List.append_assoc]; rfl⟩
      · obtain ⟨w, hw⟩ := ih (Nat.zero_le _) (isPlainLetter c)
        exact ⟨c :: w, by rw [hw]; rfl⟩

private theorem rename_tail (hname : ∀ c ∈ name, isPlainLetter c = true)
    (hnew : new.getLast? = some '(') {b : Text} (hb : '(' ∉ b) (a : Text) :
    ∃ w, rename name new (a ++ '(' :: b) = w ++ '(' :: b :=
  renameFrom_tail hname hnew hb a (Nat.zero_le _) false

theorem exists_last_opening (t : Text) : '(' ∉ t ∨ ∃ a b, t = a ++ '(' :: b ∧ '(' ∉ b := by
  induction t with
  | nil => exact .inl (by simp)
  | cons c t ih =>
    obtain ht | ⟨a, b, rfl, hb⟩ := ih
    · by_cases hc : c = '('
      · exact .inr ⟨[], t, by rw [hc]; rfl, ht⟩
      · exact .inl (by simp [ht, Ne.symm hc])
    · exact .inr ⟨c :: a, b, rfl, hb⟩

private theorem endsOpen_opening (a : Text) {b : Text} : EndsOpen (a ++ '(' :: b) ↔ EndsOpen b := by
  simp only [EndsOpen, List.getLast?_append, List.getLast?_cons]
  cases b.getLast? with
  | none => simp [isPlainLetter]
  | some c => simp

private theorem endsOpen_rename (hname : ∀ c ∈ name, isPlainLetter c = true)
    (hnew : new.getLast? = some '(') {t : Text} (ht : EndsOpen t) :
    EndsOpen (rename name new t) := by
  obtain hopening | ⟨a, b, rfl, hb⟩ := exists_last_opening t
  · rwa [rename_of_no_call hopening]
  · obtain ⟨w, hw⟩ := rename_tail hname hnew hb a
    rw [hw, endsOpen_opening]
    exact (endsOpen_opening a).mp ht

end rename

section renamed

variable {a b t : Text}

private theorem foldl_append {rs : List (Text × Text)} (hrs : ∀ r ∈ rs, r ∈ renames) {a : Text}
    (ha : EndsOpen a) (b : Text) : rs.foldl (fun t (name, new) => rename name new t) (a ++ b) =
      rs.foldl (fun t (name, new) => rename name new t) a ++
        rs.foldl (fun t (name, new) => rename name new t) b := by
  induction rs generalizing a b with
  | nil => rfl
  | cons r rs ih =>
    obtain ⟨hname, hnew, -⟩ := renames_spec r (hrs r (by simp))
    simp only [List.foldl_cons, rename_append hname ha]
    exact ih (fun r' hr' => hrs r' (List.mem_cons_of_mem r hr')) (endsOpen_rename hname hnew ha) _

/-- A text that no letter ends is renamed apart from what follows it. -/
theorem renamed_append (ha : EndsOpen a) (b : Text) : renamed (a ++ b) = renamed a ++ renamed b :=
  foldl_append (fun _ h => h) ha b

theorem renamed_of_no_call (ht : '(' ∉ t) : renamed t = t :=
  foldl_rename_eq fun _ _ => rename_of_no_call ht

/-- A call whose argument has no calls is renamed apart from what stands around it. -/
theorem renamed_call {name new : Text} (ha : EndsOpen a)
    (hname : renamed (name ++ ['(']) = new ++ ['(']) (ht : '(' ∉ t) (b : Text) :
    renamed (a ++ (name ++ '(' :: (t ++ ')' :: b))) =
      renamed a ++ (new ++ '(' :: (t ++ ')' :: renamed b)) := by
  have hclosing : renamed (t ++ [')']) = t ++ [')'] := renamed_of_no_call (by simpa using ht)
  have hb := renamed_append (endsOpen_append_singleton (x := ')') (by decide) t) b
  have hcall :=
    renamed_append (endsOpen_append_singleton (x := '(') (by decide) name) (t ++ ')' :: b)
  rw [hclosing] at hb
  rw [hname] at hcall
  simp only [List.append_assoc, List.singleton_append] at hb hcall
  rw [renamed_append ha, hcall, hb]

/-- A call on a text without calls, factorials and constants is rewritten by its name alone. -/
theorem normalize_radians_call {name new : Text} (hname : renamed (name ++ ['(']) = new ++ ['('])
    (ht : '(' ∉ t) (hbang : '!' ∉ new ++ t) (hpi : piLetter ∉ new ++ t) :
    normalize .radians (name ++ '(' :: (t ++ [')'])) = new ++ '(' :: (t ++ [')']) := by
  have hcall : renamed (name ++ '(' :: (t ++ [')'])) = new ++ '(' :: (t ++ [')']) :=
    renamed_call (a := []) (b := []) (fun c hc => by simp at hc) hname ht
  have hkept : ∀ c, c ∉ new ++ t → c ∉ ['(', ')'] → c ∉ new ++ '(' :: (t ++ [')']) := by
    intro c hc hparen
    simp_all
  calc normalize .radians (name ++ '(' :: (t ++ [')']))
      = nameConstants (factorials (renamed (name ++ '(' :: (t ++ [')'])))) := rfl
    _ = new ++ '(' :: (t ++ [')']) := by
      rw [hcall, factorials_of_no_bang (hkept '!' hbang (by decide)),
        nameConstants_eq (hkept piLetter hpi (by decide))]

private theorem foldl_tail {rs : List (Text × Text)} (hrs : ∀ r ∈ rs, r ∈ renames)
    (hb : '(' ∉ b) (a : Text) :
    ∃ w, rs.foldl (fun t (name, new) => rename name new t) (a ++ '(' :: b) = w ++ '(' :: b := by
  induction rs generalizing a with
  | nil => exact ⟨a, rfl⟩
  | cons r rs ih =>
    obtain ⟨hname, hnew, -⟩ := renames_spec r (hrs r (by simp))
    obtain ⟨w, hw⟩ := rename_tail hname hnew hb a
    simp only [List.foldl_cons, hw]
    exact ih (fun r' hr' => hrs r' (List.mem_cons_of_mem r hr')) w

theorem renamed_tail (hb : '(' ∉ b) (a : Text) : ∃ w, renamed (a ++ '(' :: b) = w ++ '(' :: b :=
  foldl_tail (fun _ h => h) hb a

end renamed

end DeskCalc.Notation
