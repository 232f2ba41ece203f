import Mathlib.Data.List.DropRight
import Mathlib.Data.Nat.Digits.Defs
import DeskCalc.Settings.Integer

/-!
# Numerals of settings

The texts that are read as integers, as a grammar: digits of any script with single underscores
between them, at most one sign in front of the digits, and white space around it all. Reading
accepts exactly the texts of the grammar that have no more digits than the limit, and gives the
integer that the digits write.
-/

namespace DeskCalc.Text

private theorem trim_split (isSpace : Char → Bool) (t : Text) :
    ∃ before after, t = before ++ t.trim isSpace ++ after ∧
      (∀ c ∈ before, isSpace c = true) ∧ ∀ c ∈ after, isSpace c = true := by
  refine ⟨t.takeWhile isSpace, (t.dropWhile isSpace).rtakeWhile isSpace, ?_,
    fun c hc => List.mem_takeWhile_imp hc, fun c hc => List.mem_rtakeWhile_imp hc⟩
  have hright : t.trim isSpace ++ (t.dropWhile isSpace).rtakeWhile isSpace =
      t.dropWhile isSpace := List.rdropWhile_append_rtakeWhile
  rw [List.append_assoc, hright, List.takeWhile_append_dropWhile]

/-- The text is a run of digits with these values, with single underscores between some of them. -/
inductive WritesDigits : Text → List Nat → Prop
  | single {c : Char} {d : Nat} (digit : digitValue? c = some d) : WritesDigits [c] [d]
  | next {c : Char} {d : Nat} {t : Text} {ds : List Nat} (digit : digitValue? c = some d)
      (rest : WritesDigits t ds) : WritesDigits (c :: t) (d :: ds)
  | underscore {c : Char} {d : Nat} {t : Text} {ds : List Nat} (digit : digitValue? c = some d)
      (rest : WritesDigits t ds) : WritesDigits (c :: '_' :: t) (d :: ds)

/-- The signs of a numeral, with what they stand for. -/
inductive WritesSign : Text → Int → Prop
  | none : WritesSign [] 1
  | plus : WritesSign ['+'] 1
  | minus : WritesSign ['-'] (-1)

/-- The text is a numeral of the integer, with so many digits. -/
inductive WritesInteger : Text → Int → Nat → Prop
  | intro {before sign body after : Text} {unit : Int} {ds : List Nat}
      (before_space : ∀ c ∈ before, isWhiteSpace c = true)
      (after_space : ∀ c ∈ after, isWhiteSpace c = true)
      (sign_unit : WritesSign sign unit) (digits : WritesDigits body ds) :
      WritesInteger (before ++ (sign ++ body) ++ after) (unit * (Nat.ofDigits 10 ds.reverse : Nat))
        ds.length

/-- The text is a numeral of the integer, with no more digits than can be read. -/
def Denotes (t : Text) (n : Int) : Prop := ∃ count ≤ digitLimit, WritesInteger t n count

private theorem isWhiteSpace_of_digit {c : Char} {d : Nat} (h : digitValue? c = some d) :
    isWhiteSpace c = false := by
  -- no block of ten digits meets a range of blanks
  have hapart : ∀ r ∈ blankRanges, ∀ z ∈ zeros, r.2 < z ∨ z + 10 ≤ r.1 := by decide
  rw [digitValue?, Option.map_eq_some_iff] at h
  obtain ⟨z, hfind, -⟩ := h
  have hmem : z ∈ zeros := List.mem_of_find?_eq_some hfind
  have hin : z ≤ c.toNat ∧ c.toNat < z + 10 := by simpa using List.find?_some hfind
  have hblank : isBlank c = false := by
    rw [isBlank, List.any_eq_false]
    intro r hr
    have hr := hapart r hr z hmem
    simp only [decide_eq_true_eq]
    omega
  rw [isWhiteSpace, hblank, Bool.false_and]

private theorem not_mark_of_digit {c : Char} {d : Nat} (h : digitValue? c = some d) :
    c ∉ ['+', '-', '_'] := by
  have hnone : ∀ m ∈ ['+', '-', '_'], digitValue? m = none := by decide
  exact fun hc => absurd (h.symm.trans (hnone c hc)) nofun

namespace WritesDigits

variable {t : Text} {ds : List Nat}

private theorem exists_cons (h : WritesDigits t ds) :
    ∃ c d rest, t = c :: rest ∧ digitValue? c = some d := by
  cases h with
  | single digit => exact ⟨_, _, _, rfl, digit⟩
  | next digit rest => exact ⟨_, _, _, rfl, digit⟩
  | underscore digit rest => exact ⟨_, _, _, rfl, digit⟩

private theorem getLast? (h : WritesDigits t ds) :
    ∃ c d, t.getLast? = some c ∧ digitValue? c = some d := by
  induction h with
  | single digit => exact ⟨_, _, rfl, digit⟩
  | next digit rest ih =>
    obtain ⟨c, d, hlast, hd⟩ := ih
    exact ⟨c, d, by rw [List.getLast?_cons, hlast]; rfl, hd⟩
  | underscore digit rest ih =>
    obtain ⟨c, d, hlast, hd⟩ := ih
    exact ⟨c, d, by rw [List.getLast?_cons, List.getLast?_cons, hlast]; rfl, hd⟩

end WritesDigits

private theorem writesDigits_of_digits? {t : Text} {ds : List Nat} (h : digits? t = some ds) :
    WritesDigits t ds := by
  induction t using digits?.induct generalizing ds with
  | case1 => simp [digits?] at h
  | case2 c =>
    rw [digits?, Option.map_eq_some_iff] at h
    obtain ⟨d, hd, rfl⟩ := h
    exact .single hd
  | case3 c rest ih =>
    simp only [digits?, Option.bind_eq_bind, Option.bind_eq_some_iff, Option.pure_def,
      Option.some.injEq] at h
    obtain ⟨d, hd, ds, hds, rfl⟩ := h
    exact .underscore hd (ih hds)
  | case4 c rest hnil hunderscore ih =>
    rw [digits?.eq_4 c rest hnil hunderscore] at h
    simp only [Option.bind_eq_bind, Option.bind_eq_some_iff, Option.pure_def,
      Option.some.injEq] at h
    obtain ⟨d, hd, ds, hds, rfl⟩ := h
    exact .next hd (ih hds)

private theorem WritesDigits.digits?_eq {t : Text} {ds : List Nat} (h : WritesDigits t ds) :
    digits? t = some ds := by
  induction h with
  | single digit => rw [digits?, digit]; rfl
  | @next c d t ds digit rest ih =>
    obtain ⟨c', d', t', rfl, hd'⟩ := rest.exists_cons
    have hunderscore : c' ≠ '_' := fun h => not_mark_of_digit hd' (by simp [h])
    rw [digits?.eq_4 c (c' :: t') (by simp) (by simp [hunderscore]), digit, ih]
    rfl
  | underscore digit rest ih => rw [digits?, digit, ih]; rfl

private theorem digits?_eq_some_iff {t : Text} {ds : List Nat} :
    digits? t = some ds ↔ WritesDigits t ds :=
  ⟨writesDigits_of_digits?, WritesDigits.digits?_eq⟩

private theorem foldl_digits (ds : List Nat) :
    ds.foldl (fun n d => n * 10 + d) 0 = Nat.ofDigits 10 ds.reverse := by
  rw [Nat.ofDigits_eq_foldr, List.foldr_reverse]
  congr 1
  funext n d
  rw [Nat.cast_id, Nat.mul_comm, Nat.add_comm]

/-- The text does not start with a sign. -/
def Unsigned (t : Text) : Prop := t.head? ≠ some '-' ∧ t.head? ≠ some '+'

private theorem WritesDigits.unsigned {t : Text} {ds : List Nat} (h : WritesDigits t ds) :
    t.Unsigned := by
  obtain ⟨c, d, rest, rfl, hd⟩ := h.exists_cons
  have hmark := not_mark_of_digit hd
  exact ⟨fun h => hmark (by simp [Option.some.inj h]), fun h => hmark (by simp [Option.some.inj h])⟩

private theorem exists_sign (t : Text) :
    ∃ sign unit body, t = sign ++ body ∧ WritesSign sign unit ∧ (sign = [] → body.Unsigned) := by
  by_cases hminus : t.head? = some '-'
  · obtain ⟨body, rfl⟩ := List.head?_eq_some_iff.mp hminus
    exact ⟨['-'], -1, body, rfl, .minus, nofun⟩
  · by_cases hplus : t.head? = some '+'
    · obtain ⟨body, rfl⟩ := List.head?_eq_some_iff.mp hplus
      exact ⟨['+'], 1, body, rfl, .plus, nofun⟩
    · exact ⟨[], 1, t, rfl, .none, fun _ => ⟨hminus, hplus⟩⟩

private theorem integer?_of_trim {t sign body : Text} {unit : Int} (hsign : WritesSign sign unit)
    (htrim : t.trim isWhiteSpace = sign ++ body) (hbody : sign = [] → body.Unsigned) :
    t.integer? = (digits? body).bind fun ds =>
      if digitLimit < ds.length then none
      else some (unit * (Nat.ofDigits 10 ds.reverse : Nat)) := by
  rw [integer?, htrim]
  cases hsign with
  | none =>
    obtain ⟨hminus, hplus⟩ := hbody rfl
    cases body with
    | nil => rfl
    | cons c body =>
      have hminus : c ≠ '-' := fun h => hminus (congrArg some h)
      have hplus : c ≠ '+' := fun h => hplus (congrArg some h)
      simp [hminus, hplus, foldl_digits]
  | plus => simp [foldl_digits]
  | minus => simp [foldl_digits]

/-- A numeral is read as its integer unless it has too many digits. -/
theorem WritesInteger.integer?_eq {t : Text} {n : Int} {count : Nat} (h : WritesInteger t n count) :
    t.integer? = if digitLimit < count then none else some n := by
  obtain @⟨before, sign, body, after, unit, ds, hbefore, hafter, hsign, hdigits⟩ := h
  have htrim : (before ++ (sign ++ body) ++ after).trim isWhiteSpace = sign ++ body := by
    refine trim_append hbefore hafter ?_ ?_
    · intro c hc
      obtain ⟨d, v, rest, rfl, hd⟩ := hdigits.exists_cons
      cases hsign <;> cases hc
      · exact isWhiteSpace_of_digit hd
      · decide
      · decide
    · intro c hc
      obtain ⟨d, v, hlast, hd⟩ := hdigits.getLast?
      rw [List.getLast?_append, hlast] at hc
      cases hc
      exact isWhiteSpace_of_digit hd
  rw [integer?_of_trim hsign htrim fun _ => hdigits.unsigned, hdigits.digits?_eq, Option.bind_some]

/-- The texts that are read as integers are the numerals within the limit. -/
theorem integer?_eq_some_iff {t : Text} {n : Int} : t.integer? = some n ↔ t.Denotes n := by
  constructor
  · intro h
    obtain ⟨before, after, ht, hbefore, hafter⟩ := trim_split isWhiteSpace t
    obtain ⟨sign, unit, body, htrim, hsign, hbody⟩ := exists_sign (t.trim isWhiteSpace)
    rw [integer?_of_trim hsign htrim hbody, Option.bind_eq_some_iff] at h
    obtain ⟨ds, hds, h⟩ := h
    rw [Option.ite_none_left_eq_some, Option.some.injEq] at h
    obtain ⟨hcount, rfl⟩ := h
    rw [ht, htrim]
    exact ⟨ds.length, by omega, .intro hbefore hafter hsign (digits?_eq_some_iff.mp hds)⟩
  · rintro ⟨count, hcount, h⟩
    rw [h.integer?_eq, if_neg (by omega)]

theorem integer?_eq_none_iff {t : Text} : t.integer? = none ↔ ∀ n, ¬ t.Denotes n := by
  simp only [Option.eq_none_iff_forall_ne_some, ne_eq, integer?_eq_some_iff]

/-- Arabic digits after a sign and a tab. -/
example : (text "\t-٤_٢ ").integer? = some (-42) := by decide +kernel

/-- Zeros in front of a digit do not change its value, but they count as digits. -/
theorem writesInteger_zeros_append {c : Char} {d : Nat} (hd : digitValue? c = some d) (k : Nat) :
    WritesInteger (List.replicate k '0' ++ [c]) d (k + 1) := by
  have hdigits : WritesDigits (List.replicate k '0' ++ [c]) (List.replicate k 0 ++ [d]) := by
    induction k with
    | zero => exact .single hd
    | succ k ih => exact .next (by decide) ih
  have hvalue : Nat.ofDigits 10 (List.replicate k 0 ++ [d]).reverse = d := by
    rw [List.reverse_append, List.reverse_replicate, Nat.ofDigits_append_replicate_zero,
      List.reverse_singleton, Nat.ofDigits_singleton]
  have h := WritesInteger.intro (List.forall_mem_nil _) (List.forall_mem_nil _) .none hdigits
  rwa [hvalue, List.nil_append, List.nil_append, List.append_nil, Int.one_mul, List.length_append,
    List.length_replicate, List.length_singleton] at h

end DeskCalc.Text
