import DeskCalc.Proofs.Json.Numbers
import DeskCalc.Proofs.Outcomes

/-!
# What a document looks like once it is read

A value is tidy if no object in it, at any depth, has two members with one key, no integer in it has
more digits than can be read, and its brackets are nested no deeper than there is room. A value that
was read is tidy, since a member whose key is already there takes the place of the earlier one, and
setting a member to a tidy value keeps an object tidy.
-/

namespace DeskCalc.Json

/-- No object within the value repeats a key, every integer can be read, and brackets are nested at
most `room` deep. -/
inductive Tidy : Nat → Json → Prop where
  | null {room} : Tidy room null
  | bool {room} (b : Bool) : Tidy room (bool b)
  | integer {room} {n : Int} (short : (Text.ofNat n.natAbs).length ≤ Text.digitLimit) :
      Tidy room (integer n)
  | number {room} (x : Double) : Tidy room (number x)
  | string {room} (s : DocText) : Tidy room (string s)
  | array {room} {items : List Json} (values : ∀ x ∈ items, Tidy room x) :
      Tidy (room + 1) (array items)
  | object {room} {members : List (DocText × Json)} (keys : (members.map Prod.fst).Nodup)
      (values : ∀ m ∈ members, Tidy room m.2) : Tidy (room + 1) (object members)

theorem Tidy.mono {room room' : Nat} {x : Json} (h : Tidy room x) (hle : room ≤ room') :
    Tidy room' x := by
  induction h generalizing room' with
  | null => exact .null
  | bool b => exact .bool b
  | integer short => exact .integer short
  | number x => exact .number x
  | string s => exact .string s
  | array _ ih =>
    obtain ⟨room', rfl⟩ := Nat.exists_eq_add_of_le' (Nat.le_trans (Nat.le_add_left 1 _) hle)
    exact .array fun x hx => ih x hx (Nat.le_of_succ_le_succ hle)
  | object keys _ ih =>
    obtain ⟨room', rfl⟩ := Nat.exists_eq_add_of_le' (Nat.le_trans (Nat.le_add_left 1 _) hle)
    exact .object keys fun m hm => ih m hm (Nat.le_of_succ_le_succ hle)

section members

variable {room : Nat} {key : DocText} {value : Json} {members : List (DocText × Json)}

theorem set_of_not_mem (h : key ∉ members.map Prod.fst) :
    set key value members = members ++ [(key, value)] := by
  induction members with
  | nil => rfl
  | cons m rest ih =>
    obtain ⟨k, v⟩ := m
    simp only [List.map_cons, List.mem_cons, not_or] at h
    rw [set, if_neg (Ne.symm h.1), ih h.2, List.cons_append]

/-- Setting a member adds its key at the end, if the key is not there yet. -/
theorem map_fst_set (key : DocText) (value : Json) (members : List (DocText × Json)) :
    (set key value members).map Prod.fst =
      if key ∈ members.map Prod.fst then members.map Prod.fst
      else members.map Prod.fst ++ [key] := by
  induction members with
  | nil => rfl
  | cons m rest ih =>
    obtain ⟨k, v⟩ := m
    by_cases hk : k = key
    · simp [set, hk]
    · rw [set, if_neg hk, List.map_cons, ih]
      simp only [List.map_cons, List.mem_cons, Ne.symm hk, false_or]
      split <;> rfl

/-- The members after setting one are that one and members that were there before. -/
theorem mem_set {m : DocText × Json} (h : m ∈ set key value members) :
    m = (key, value) ∨ m ∈ members := by
  induction members with
  | nil => exact .inl (List.mem_singleton.mp h)
  | cons n rest ih =>
    obtain ⟨k, v⟩ := n
    by_cases hk : k = key
    · rw [set, if_pos hk, List.mem_cons] at h
      rcases h with rfl | h
      · exact .inl (by rw [hk])
      · exact .inr (List.mem_cons_of_mem _ h)
    · rw [set, if_neg hk, List.mem_cons] at h
      rcases h with rfl | h
      · exact .inr List.mem_cons_self
      · exact (ih h).imp_right (List.mem_cons_of_mem _)

theorem Tidy.set (h : Tidy (room + 1) (.object members)) (hvalue : Tidy room value) :
    Tidy (room + 1) (.object (set key value members)) := by
  cases h with
  | object keys values =>
    refine .object ?_ fun m hm => ?_
    · rw [map_fst_set]
      split
      · exact keys
      · next hkey =>
        exact List.nodup_append.mpr ⟨keys, by simp, by
          rintro k hk _ hk' rfl
          exact hkey (List.mem_singleton.mp hk' ▸ hk)⟩
    · rcases mem_set hm with rfl | hm
      · exact hvalue
      · exact values m hm

theorem tidy_nil : Tidy (room + 1) (.object []) := .object (by simp) (by simp)

end members

section reading

/-- Digits stand for a number that is written with no more of them. -/
theorem length_ofNat_ofDigits {ds : Text} (h : ds.IsDigitRun) :
    (Text.ofNat (Numeral.ofDigits 10 ds)).length ≤ ds.length := by
  have hdigit : ∀ c, Numeral.isPlainDigit c = true → Numeral.digitValue c < 10 := by
    intro c hc
    have hrange := hc
    simp only [Numeral.isPlainDigit, decide_eq_true_eq] at hrange
    have hle : c.toNat ≤ '9'.toNat := hrange.2
    have hnine : '9'.toNat = '0'.toNat + 9 := rfl
    rw [Numeral.digitValue, if_pos hc]
    omega
  have hfold : ∀ (ds : Text) (n k : Nat), (∀ c ∈ ds, Numeral.isPlainDigit c = true) →
      n < 10 ^ k →
        ds.foldl (fun n c => n * 10 + Numeral.digitValue c) n < 10 ^ (k + ds.length) := by
    intro ds
    induction ds with
    | nil => exact fun _ _ _ hn => hn
    | cons c cs ih =>
      intro n k hds hn
      have hc := hdigit c (hds c List.mem_cons_self)
      have hnext : n * 10 + Numeral.digitValue c < 10 ^ (k + 1) := by
        rw [pow_succ]
        omega
      rw [List.foldl_cons, List.length_cons, Nat.add_comm cs.length 1, ← Nat.add_assoc]
      exact ih _ _ (fun d hd => hds d (List.mem_cons_of_mem _ hd)) hnext
  have hlt := hfold ds 0 0 h.2 Nat.one_pos
  rw [Nat.zero_add] at hlt
  exact (Nat.length_toDigits_le_iff (by decide) (List.length_pos_of_ne_nil h.1)).mpr hlt

private theorem isDigitRun_of_readWhole? {t whole rest : Text}
    (h : readWhole? t = some (whole, rest)) : whole.IsDigitRun := by
  unfold readWhole? at h
  split at h
  · obtain ⟨rfl, -⟩ := Prod.mk.inj (Option.some.inj h)
    exact ⟨by simp, by decide⟩
  · split at h
    · simp at h
    · next hne =>
      obtain ⟨rfl, -⟩ := Prod.mk.inj (Option.some.inj h)
      exact ⟨hne, fun c hc => List.all_eq_true.mp List.all_takeWhile c hc⟩

private theorem tidy_of_readUnsigned {negative : Bool} {t rest : Text} {x : Json}
    (h : readUnsigned negative t = .ok (x, rest)) (room : Nat) : Tidy room x := by
  unfold readUnsigned at h
  split at h
  · simp at h
  · next whole r hwhole =>
    dsimp only at h
    split at h
    · split at h
      · simp at h
      · next hshort =>
        obtain ⟨rfl, -⟩ := Prod.mk.inj (Except.ok.inj h)
        have hlength := length_ofNat_ofDigits (isDigitRun_of_readWhole? hwhole)
        refine .integer ?_
        split
        · rw [Int.natAbs_neg, Int.natAbs_natCast]
          omega
        · rw [Int.natAbs_natCast]
          omega
    · obtain ⟨rfl, -⟩ := Prod.mk.inj (Except.ok.inj h)
      exact .number _

private theorem tidy_of_readSimple {t rest : Text} {x : Json} (h : readSimple t = .ok (x, rest))
    (room : Nat) : Tidy room x := by
  have hwords : ∀ w ∈ words, Tidy room w.2 := by
    simp only [words, List.map_cons, List.map_nil, List.forall_mem_cons]
    exact ⟨.null, .bool _, .bool _, .number _, .number _, .number _, by simp⟩
  unfold readSimple at h
  split at h
  · next w y hfind =>
    obtain ⟨rfl, -⟩ := Prod.mk.inj (Except.ok.inj h)
    exact hwords _ (List.mem_of_find?_eq_some hfind)
  · split at h
    · exact tidy_of_readUnsigned h room
    · exact tidy_of_readUnsigned h room

/-- What is read within some fuel is tidy, if the members read so far are. -/
structure ReadsTidy (fuel : Nat) : Prop where
  value : ∀ room t x rest, valueWithin fuel room t = .ok (x, rest) → Tidy room x
  items : ∀ room t xs rest, itemsWithin fuel room t = .ok (xs, rest) → ∀ x ∈ xs, Tidy room x
  members : ∀ room ms t ms' rest, Tidy (room + 1) (.object ms) →
    membersWithin fuel room ms t = .ok (ms', rest) → Tidy (room + 1) (.object ms')

variable {fuel room : Nat}

private theorem ReadsTidy.value_succ (ih : ReadsTidy fuel) {t rest : Text} {x : Json}
    (h : valueWithin (fuel + 1) room t = .ok (x, rest)) : Tidy room x := by
  unfold valueWithin at h
  split at h
  · simp only [Except.map_eq_ok_iff, Prod.mk.injEq] at h
    obtain ⟨-, -, rfl, -⟩ := h
    exact .string _
  · split at h
    · simp at h
    · split at h
      · obtain ⟨rfl, -⟩ := Prod.mk.inj (Except.ok.inj h)
        exact .array (by simp)
      · simp only [Except.map_eq_ok_iff, Prod.mk.injEq] at h
        obtain ⟨⟨xs, r⟩, hxs, rfl, -⟩ := h
        exact .array (ih.items _ _ _ _ hxs)
  · split at h
    · simp at h
    · split at h
      · obtain ⟨rfl, -⟩ := Prod.mk.inj (Except.ok.inj h)
        exact tidy_nil
      · simp only [Except.map_eq_ok_iff, Prod.mk.injEq] at h
        obtain ⟨⟨ms, r⟩, hms, rfl, -⟩ := h
        exact ih.members _ _ _ _ _ tidy_nil hms
  · exact tidy_of_readSimple h room

private theorem ReadsTidy.items_succ (ih : ReadsTidy fuel) {t rest : Text} {xs : List Json}
    (h : itemsWithin (fuel + 1) room t = .ok (xs, rest)) : ∀ x ∈ xs, Tidy room x := by
  simp only [itemsWithin, Except.bind_eq_ok_iff] at h
  obtain ⟨⟨y, r⟩, hy, h⟩ := h
  have hhead : Tidy room y := ih.value _ _ _ _ hy
  split at h
  · obtain ⟨rfl, -⟩ := Prod.mk.inj (Except.ok.inj h)
    simpa using hhead
  · simp only [Except.bind_eq_ok_iff] at h
    obtain ⟨⟨ys, r'⟩, hys, h⟩ := h
    obtain ⟨rfl, -⟩ := Prod.mk.inj (Except.ok.inj h)
    exact List.forall_mem_cons.mpr ⟨hhead, ih.items _ _ _ _ hys⟩
  · simp at h

private theorem ReadsTidy.members_succ (ih : ReadsTidy fuel) {t rest : Text}
    {ms ms' : List (DocText × Json)} (hms : Tidy (room + 1) (.object ms))
    (h : membersWithin (fuel + 1) room ms t = .ok (ms', rest)) :
    Tidy (room + 1) (.object ms') := by
  unfold membersWithin at h
  split at h
  · simp only [Except.bind_eq_ok_iff] at h
    obtain ⟨⟨key, r⟩, -, h⟩ := h
    split at h
    · simp only [Except.bind_eq_ok_iff] at h
      obtain ⟨⟨x, r'⟩, hx, h⟩ := h
      have hset : Tidy (room + 1) (.object (set key x ms)) := hms.set (ih.value _ _ _ _ hx)
      split at h
      · obtain ⟨rfl, -⟩ := Prod.mk.inj (Except.ok.inj h)
        exact hset
      · exact ih.members _ _ _ _ _ hset h
      · simp at h
    · simp at h
  · simp at h

private theorem readsTidy (fuel : Nat) : ReadsTidy fuel := by
  induction fuel with
  | zero =>
    constructor <;> simp [valueWithin, itemsWithin, membersWithin]
  | succ fuel ih =>
    exact ⟨fun _ _ _ _ => ih.value_succ, fun _ _ _ _ => ih.items_succ,
      fun _ _ _ _ _ => ih.members_succ⟩

theorem tidy_of_ofText {t : Text} {x : Json} (h : ofText room t = .ok x) : Tidy room x := by
  simp only [ofText, Except.bind_eq_ok_iff] at h
  obtain ⟨⟨y, rest⟩, hy, h⟩ := h
  split at h
  · obtain rfl := Except.ok.inj h
    exact (readsTidy _).value _ _ _ _ hy
  · simp at h

end reading

end DeskCalc.Json
