import DeskCalc.Answer
import DeskCalc.Proofs.Notation.Angles
import DeskCalc.Proofs.Notation.AtOnce

/-!
# Degrees insert a factor

A formula in degrees is the one in radians with the factor of radians written before some of its
closing parentheses. Where an expression calls none of the six trigonometric functions nothing is
written, so the unit of angles makes no difference to its result.
-/

namespace DeskCalc.Notation

variable {name arg s t u v w p : Text} {names : List Text} {c : Char} {b : Bool}

section angleCall

/-- Whether the argument of a call, given from its start on, is closed and not empty. -/
def Closes (v : Text) : Prop := ')' ∈ v ∧ v.head? ≠ some ')'

private theorem closes_iff : Closes v ↔ ∃ arg r, v = arg ++ ')' :: r ∧ arg ≠ [] ∧ ')' ∉ arg := by
  constructor
  · rintro ⟨hmem, hhead⟩
    obtain ⟨arg, r, rfl, harg⟩ := List.eq_append_cons_of_mem hmem
    refine ⟨arg, r, rfl, ?_, harg⟩
    rintro rfl
    exact hhead rfl
  · rintro ⟨arg, r, rfl, hne, harg⟩
    refine ⟨by simp, ?_⟩
    obtain ⟨d, arg, rfl⟩ := List.exists_cons_of_ne_nil hne
    intro h
    obtain rfl : d = ')' := Option.some.inj h
    exact harg (by simp)

private theorem exists_of_argument? (h : argument? v = some arg) :
    arg ≠ [] ∧ ')' ∉ arg ∧ ∃ r, v = arg ++ ')' :: r := by
  by_cases hmem : ')' ∈ v
  · obtain ⟨a, r, rfl, ha⟩ := List.eq_append_cons_of_mem hmem
    by_cases hne : a = []
    · subst hne
      simp [argument?] at h
    · rw [argument?_closing ha hne] at h
      obtain rfl : a = arg := Option.some.inj h
      exact ⟨hne, ha, r, rfl⟩
  · have hdrop : v.dropWhile (fun x => decide (x ≠ ')')) = [] := by
      rw [List.dropWhile_eq_nil_iff]
      intro d hd
      rw [decide_eq_true_eq]
      rintro rfl
      exact hmem hd
    unfold argument? at h
    rw [hdrop] at h
    split at h <;> simp_all

theorem angleCall?_eq_some (h : angleCall? t = some (name, arg)) :
    name ∈ angleFunctions ∧ arg ≠ [] ∧ ')' ∉ arg ∧ ∃ r, t = name ++ '(' :: (arg ++ ')' :: r) := by
  obtain ⟨found, hfound, h⟩ := List.exists_of_findSome?_eq_some h
  split at h
  · next hstart =>
    obtain ⟨arg', harg, hpair⟩ := Option.map_eq_some_iff.mp h
    obtain ⟨rfl, rfl⟩ := Prod.mk.inj hpair
    obtain ⟨hne, hclosing, r, hr⟩ := exists_of_argument? harg
    obtain ⟨v, rfl⟩ := List.isPrefixOf_iff_prefix.mp hstart
    refine ⟨hfound, hne, hclosing, r, ?_⟩
    have hdrop : (found ++ ['('] ++ v).drop (found.length + 1) = v :=
      List.drop_left' (by simp)
    rw [hdrop] at hr
    rw [hr, List.append_assoc]
    rfl
  · exact absurd h (by simp)

theorem angleCall?_eq_none_iff :
    angleCall? t = none ↔ ∀ name ∈ angleFunctions, ∀ v, t = name ++ '(' :: v → ¬Closes v := by
  constructor
  · rintro h name hname v rfl hv
    obtain ⟨arg, r, rfl, hne, harg⟩ := closes_iff.mp hv
    rw [angleCall?_call hname harg hne] at h
    exact absurd h (by simp)
  · intro h
    cases hcall : angleCall? t with
    | none => rfl
    | some call =>
      obtain ⟨hname, hne, harg, r, ht⟩ := angleCall?_eq_some hcall
      exact absurd (closes_iff.mpr ⟨_, r, rfl, hne, harg⟩) (h _ hname _ ht)

/-- A name with its parenthesis does not reach over a character that can stand in neither. -/
theorem call_before_cut {a : Text} {x : Char} (hname : name ∈ angleFunctions)
    (hx : isPlainLetter x = false) (hopening : x ≠ '(') (h : a ++ x :: t = name ++ '(' :: v) :
    ∃ r, a = name ++ '(' :: r ∧ v = r ++ x :: t := by
  have hletters : ∀ name ∈ angleFunctions, ∀ c ∈ name, isPlainLetter c = true := by decide
  have hchars : ∀ c ∈ name ++ ['('], c ≠ x := by
    intro c hc
    rcases List.mem_append.mp hc with h | h
    · exact ne_of_class (hletters name hname c h) hx
    · rw [List.mem_singleton.mp h]
      exact hopening.symm
  rw [List.append_cons name] at h
  rcases List.append_eq_append_iff.mp h with ⟨r, hr, hcut⟩ | ⟨r, hr, hv⟩
  · cases r with
    | nil =>
      obtain rfl : x :: t = v := hcut
      exact ⟨[], by simpa using hr.symm, rfl⟩
    | cons d r =>
      obtain ⟨rfl, -⟩ := List.cons.inj hcut
      exact absurd rfl (hchars x (by simp [hr]))
  · exact ⟨r, by simpa using hr, hv⟩

private theorem angleCall?_of_first (hc : c ∉ ['s', 'c', 't']) (t : Text) :
    angleCall? (c :: t) = none := by
  rw [angleCall?_eq_none_iff]
  intro name hname v ht
  simp only [angleFunctions_eq, List.mem_cons, List.not_mem_nil, or_false] at hname
  rcases hname with rfl | rfl | rfl <;>
    · obtain ⟨rfl, -⟩ := List.cons.inj ht
      exact absurd hc (by decide)

private theorem angleCall?_of_not_letter (hc : isPlainLetter c = false) (t : Text) :
    angleCall? (c :: t) = none := by
  apply angleCall?_of_first
  have hletters : ∀ d ∈ ['s', 'c', 't'], isPlainLetter d = true := by decide
  exact not_mem_of_class hletters hc

end angleCall

section converted

/-- A text and what it becomes when its angles are converted, step by step. The first argument says
whether a letter stands before the text. -/
inductive Converted : Bool → Text → Text → Prop
  | nil (b : Bool) : Converted b [] []
  | call {name arg t u : Text} (hname : name ∈ angleFunctions) (hne : arg ≠ []) (harg : ')' ∉ arg)
      (ht : Converted false t u) :
      Converted false (name ++ '(' :: (arg ++ ')' :: t))
        (name ++ '(' :: (arg ++ (text " * pi/180)" ++ u)))
  | keep {b : Bool} {c : Char} {t u : Text} (hcall : b = false → angleCall? (c :: t) = none)
      (ht : Converted (isPlainLetter c) t u) : Converted b (c :: t) (c :: u)

private theorem convertFrom_kept (hcall : b = false → angleCall? (c :: t) = none) :
    convertFrom 0 b (c :: t) = c :: convertFrom 0 (isPlainLetter c) t := by
  cases b with
  | true => simp [convertFrom]
  | false => simp [convertFrom, hcall rfl]

theorem Converted.eq (h : Converted b t u) : convertFrom 0 b t = u := by
  induction h with
  | nil => rfl
  | call hname hne harg ht ih =>
    rw [← ih]
    exact convertDegrees_call hname harg hne _
  | keep hcall ht ih => rw [convertFrom_kept hcall, ih]

theorem converted (b : Bool) (t : Text) : Converted b t (convertFrom 0 b t) := by
  cases t with
  | nil => exact .nil b
  | cons c t =>
    by_cases hcall : b = false → angleCall? (c :: t) = none
    · have hrest := converted (isPlainLetter c) t
      rw [convertFrom_kept hcall]
      exact .keep hcall hrest
    · push Not at hcall
      obtain ⟨rfl, hsome⟩ := hcall
      obtain ⟨⟨name, arg⟩, hpair⟩ := Option.ne_none_iff_exists'.mp hsome
      obtain ⟨hname, hne, harg, r, hr⟩ := angleCall?_eq_some hpair
      have hlength : r.length < (c :: t).length := by
        rw [hr]
        simp only [List.length_append, List.length_cons]
        omega
      have hrest := converted false r
      have hvalue := convertDegrees_call hname harg hne r
      rw [convertDegrees] at hvalue
      rw [hr, hvalue]
      exact .call hname hne harg hrest
termination_by t.length
decreasing_by
  · exact Nat.lt_add_one _
  · exact hlength

end converted

section insertion

/-- Whether the second text is the first one with the factor of radians inserted before some of its
closing parentheses. -/
inductive InsertsFactor : Text → Text → Prop
  | nil : InsertsFactor [] []
  | keep (c : Char) {t u : Text} (ht : InsertsFactor t u) : InsertsFactor (c :: t) (c :: u)
  | insert {t u : Text} (ht : InsertsFactor t u) :
      InsertsFactor (')' :: t) (text " * pi/180" ++ ')' :: u)

private theorem InsertsFactor.append (h : InsertsFactor t u) (p : Text) :
    InsertsFactor (p ++ t) (p ++ u) := by
  induction p with
  | nil => exact h
  | cons c p ih => exact .keep c ih

/-- Whether a formula calls an angle function with an argument that is closed and not empty, with no
letter before its name. -/
def HasClosedCall (t : Text) : Prop :=
  ∃ name ∈ angleFunctions, ∃ a v, EndsOpen a ∧ t = a ++ (name ++ '(' :: v) ∧ Closes v

private theorem length_factor : (text " * pi/180)").length = 10 := by decide

private theorem Converted.length_le (h : Converted b t u) : t.length ≤ u.length := by
  induction h with
  | nil => exact Nat.le_refl _
  | call hname hne harg ht ih =>
    simp only [List.length_append, List.length_cons, length_factor]
    omega
  | keep hcall ht ih => exact Nat.succ_le_succ ih

private theorem Converted.length_lt (h : Converted b t u) {a : Text} (hname : name ∈ angleFunctions)
    (ha : EndsOpen a) (hb : a = [] → b = false) (hcut : t = a ++ (name ++ '(' :: v))
    (hv : Closes v) : t.length < u.length := by
  induction h generalizing a with
  | nil => simp at hcut
  | call hname hne harg ht ih =>
    have hrest := ht.length_le
    simp only [List.length_append, List.length_cons, length_factor]
    omega
  | @keep b c t u hcall ht ih =>
    cases a with
    | nil => exact absurd hv (angleCall?_eq_none_iff.mp (hcall (hb rfl)) name hname v hcut)
    | cons d a =>
      obtain ⟨rfl, rfl⟩ := List.cons.inj hcut
      have hlast : a = [] → isPlainLetter c = false := by
        rintro rfl
        exact ha c rfl
      exact Nat.succ_lt_succ (ih ha.tail hlast rfl)

private theorem Converted.eq_self (h : Converted b t u)
    (hclosed : ∀ name ∈ angleFunctions, ∀ a v, EndsOpen a → (a = [] → b = false) →
      t = a ++ (name ++ '(' :: v) → ¬Closes v) : u = t := by
  induction h with
  | nil => rfl
  | @call name arg t u hname hne harg ht ih =>
    have hv : Closes (arg ++ ')' :: t) := closes_iff.mpr ⟨arg, t, rfl, hne, harg⟩
    exact absurd hv (hclosed name hname [] _ endsOpen_nil (fun _ => rfl) rfl)
  | @keep b c t u hcall ht ih =>
    rw [ih]
    rintro name hname a v ha hlast rfl
    exact hclosed name hname (c :: a) v (endsOpen_cons ha hlast) (fun h => absurd h (by simp)) rfl

private theorem convertDegrees_eq_iff : convertDegrees t = t ↔ ¬HasClosedCall t := by
  constructor
  · rintro h ⟨name, hname, a, v, ha, hcut, hv⟩
    have hlt := (converted false t).length_lt hname ha (fun _ => rfl) hcut hv
    rw [convertDegrees] at h
    rw [h] at hlt
    exact Nat.lt_irrefl _ hlt
  · intro hnone
    apply (converted false t).eq_self
    intro name hname a v ha _ hcut hv
    exact hnone ⟨name, hname, a, v, ha, hcut, hv⟩

private theorem Converted.insertsFactor (h : Converted b t u) : InsertsFactor t u := by
  induction h with
  | nil => exact .nil
  | @call name arg t u hname hne harg ht ih =>
    have hfactor := (InsertsFactor.insert ih).append (name ++ '(' :: arg)
    simpa [text] using hfactor
  | keep hcall ht ih => exact .keep _ ih

end insertion

section unconverted

instance (t : Text) : Decidable (EndsOpen t) :=
  inferInstanceAs (Decidable (∀ c, t.getLast? = some c → isPlainLetter c = false))

/-- Whether a text calls one of some functions, with no letter before its name. -/
def HasCall (names : List Text) (t : Text) : Prop :=
  ∃ name ∈ names, ∃ a b, EndsOpen a ∧ t = a ++ (name ++ '(' :: b)

private theorem hasCall_iff : HasCall names t ↔ ∃ name ∈ names, ∃ i ∈ List.range (t.length + 1),
    EndsOpen (t.take i) ∧ (name ++ ['(']).isPrefixOf (t.drop i) = true := by
  constructor
  · rintro ⟨name, hname, a, b, ha, rfl⟩
    refine ⟨name, hname, a.length, ?_, ?_, ?_⟩
    · simp only [List.mem_range, List.length_append]
      omega
    · rwa [List.take_left]
    · rw [List.drop_left, List.isPrefixOf_iff_prefix]
      exact ⟨b, by simp⟩
  · rintro ⟨name, hname, i, -, hi, hstart⟩
    obtain ⟨b, hb⟩ := List.isPrefixOf_iff_prefix.mp hstart
    refine ⟨name, hname, t.take i, b, hi, ?_⟩
    have hsplit := List.take_append_drop i t
    rw [← hb] at hsplit
    simpa using hsplit.symm

instance (names : List Text) (t : Text) : Decidable (HasCall names t) :=
  decidable_of_iff _ hasCall_iff.symm

private theorem HasCall.append (h : HasCall names t) (hp : EndsOpen p) :
    HasCall names (p ++ t) := by
  obtain ⟨name, hname, a, b, ha, rfl⟩ := h
  exact ⟨name, hname, p ++ a, b, endsOpen_append hp ha, by simp⟩

/-- The functions whose calls depend on the unit of angles. -/
def trigonometricNames : List Text := Keypad.trigonometricPairs.map (·.primary)

private theorem trigonometricNames_spec : ∀ name ∈ trigonometricNames, name ≠ [] ∧ IsWord name := by
  unfold IsWord
  decide

private theorem HasCall.append_word (h : HasCall trigonometricNames t) (hs : StartsOpen t)
    (w : Text) : HasCall trigonometricNames (w ++ t) := by
  obtain ⟨name, hname, a, b, ha, rfl⟩ := h
  obtain ⟨hne, hletters⟩ := trigonometricNames_spec name hname
  refine ⟨name, hname, w ++ a, b, ?_, by simp⟩
  obtain ⟨c, name, rfl⟩ := List.exists_cons_of_ne_nil hne
  cases a with
  | nil =>
    have hc := hs c rfl
    rw [hletters c (by simp)] at hc
    exact absurd hc (by simp)
  | cons d a =>
    intro e he
    rw [List.getLast?_append_of_ne_nil _ (by simp)] at he
    exact ha e he

theorem converted_cons (hc : isPlainLetter c = false) (ht : Converted false t u) (b : Bool) :
    Converted b (c :: t) (c :: u) := by
  apply Converted.keep fun _ => angleCall?_of_not_letter hc t
  rwa [hc]

theorem converted_append (hp : ∀ c ∈ p, isPlainLetter c = false) (ht : ∀ b, Converted b t u)
    (b : Bool) : Converted b (p ++ t) (p ++ u) := by
  induction p generalizing b with
  | nil => exact ht b
  | cons c p ih =>
    exact converted_cons (hp c (by simp)) (ih (fun d hd => hp d (by simp [hd])) false) b

private theorem converted_word (hw : IsWord (c :: w)) (hcall : angleCall? (c :: (w ++ u)) = none)
    (hu : ∀ b, Converted b u u) (b : Bool) : Converted b (c :: w ++ u) (c :: w ++ u) := by
  -- behind its first letter no name begins
  have hinside : ∀ w, IsWord w → Converted true (w ++ u) (w ++ u) := by
    intro w hw
    induction w with
    | nil => exact hu true
    | cons d w ih =>
      apply Converted.keep (fun h => absurd h (by simp))
      rw [hw d (by simp)]
      exact ih fun e he => hw e (by simp [he])
  apply Converted.keep fun _ => hcall
  rw [hw c (by simp)]
  exact hinside w fun d hd => hw d (by simp [hd])

private theorem Rewritten.head?_of_startsOpen (h : Rewritten t u) (hs : StartsOpen t)
    (hc : u.head? = some c) : t.head? = some c ∧ isPlainLetter c = false ∨ c = 'f' ∨ c = 'p' := by
  cases h with
  | nil => exact absurd hc (by simp)
  | @named name new t u h ht =>
    obtain ⟨hne, hletters, -⟩ := renames_text _ h
    obtain ⟨d, name, rfl⟩ := List.exists_cons_of_ne_nil hne
    have hd := hs d rfl
    rw [hletters d (by simp)] at hd
    exact absurd hd (by simp)
  | @word w t u hne hw _ _ ht =>
    obtain ⟨d, w, rfl⟩ := List.exists_cons_of_ne_nil hne
    have hd := hs d rfl
    rw [hw d (by simp)] at hd
    exact absurd hd (by simp)
  | factorial => exact .inr (.inl (Option.some.inj hc).symm)
  | @digits ds t u hne hds _ ht =>
    obtain ⟨d, ds, rfl⟩ := List.exists_cons_of_ne_nil hne
    obtain rfl : d = c := Option.some.inj hc
    exact .inl ⟨rfl, hs d rfl⟩
  | pi => exact .inr (.inr (Option.some.inj hc).symm)
  | @other d t u hletter _ _ ht =>
    obtain rfl : d = c := Option.some.inj hc
    exact .inl ⟨rfl, hletter⟩

private theorem angleCall?_word (hw : IsWord w) (hne : w ≠ []) (hhead : ∀ c, u.head? = some c →
    isPlainLetter c = false ∨ c = 'f' ∨ c = 'p') (hname : u.head? = some '(' → w ∉ angleFunctions) :
    angleCall? (w ++ u) = none := by
  rw [angleCall?_eq_none_iff]
  intro name hmem v hcut _
  have htail : ∀ name ∈ angleFunctions, IsWord name ∧
      ∀ c ∈ name.tail, isPlainLetter c = true ∧ c ≠ 'f' ∧ c ≠ 'p' := by
    unfold IsWord
    decide
  obtain ⟨-, hrest⟩ := htail name hmem
  rcases List.append_eq_append_iff.mp hcut with ⟨r, rfl, hu⟩ | ⟨r, rfl, hv⟩
  · cases r with
    | nil =>
      rw [List.append_nil] at hmem
      exact hname (by rw [hu]; rfl) hmem
    | cons d r =>
      -- the name would go on with what stands behind the word
      obtain ⟨c, w, rfl⟩ := List.exists_cons_of_ne_nil hne
      obtain ⟨hd, hf, hp⟩ := hrest d (by simp)
      rcases hhead d (by rw [hu]; rfl) with h | h | h
      · exact absurd hd (by simp [h])
      · exact hf h
      · exact hp h
  · cases r with
    | nil =>
      rw [List.append_nil] at hname
      exact hname (by rw [← List.nil_append u, ← hv]; rfl) hmem
    | cons d r =>
      obtain ⟨rfl, -⟩ := List.cons.inj hv
      exact absurd (hw '(' (by simp)) (by decide)

private theorem angleFunctions_subset : ∀ name ∈ angleFunctions, name ∈ trigonometricNames := by
  decide

private theorem converted_named (h : (name, w) ∈ renames) (hname : name ∉ trigonometricNames)
    (hu : ∀ b, Converted b u u) (b : Bool) : Converted b (w ++ u) (w ++ u) := by
  have hopening : ∀ b, Converted b ('(' :: u) ('(' :: u) := converted_cons (by decide) (hu false)
  have hword : ∀ {v}, (∀ b, Converted b v v) →
    ∀ b, Converted b (text "log" ++ v) (text "log" ++ v) :=
    fun hv => converted_word (by unfold IsWord; decide) (angleCall?_of_first (by decide) _) hv
  simp only [renames, List.map_cons, List.map_nil, List.mem_cons, Prod.mk.injEq,
    List.not_mem_nil, or_false] at h
  rcases h with ⟨rfl, rfl⟩ | ⟨rfl, rfl⟩ | ⟨rfl, rfl⟩ | ⟨rfl, rfl⟩ | ⟨rfl, rfl⟩
  · exact absurd (by decide) hname
  · exact absurd (by decide) hname
  · exact absurd (by decide) hname
  · exact hword (converted_append (p := text "10") (by decide) hopening) b
  · exact hword hopening b

private theorem Rewritten.converted (h : Rewritten t u) (ht : ¬HasCall trigonometricNames t)
    (b : Bool) : Converted b u u := by
  induction h generalizing b with
  | nil => exact .nil b
  | @named name new t u h _ ih =>
    have hname : name ∉ trigonometricNames := by
      intro hname
      exact ht ⟨name, hname, [], t, endsOpen_nil, rfl⟩
    refine converted_named h hname (ih ?_) b
    intro hcall
    have hjoined := hcall.append (endsOpen_append_singleton (x := '(') (by decide) name)
    simp only [List.append_assoc, List.singleton_append] at hjoined
    exact ht hjoined
  | @word w t u hne hw hs _ hrest ih =>
    have hu : ∀ b, Converted b u u := ih fun hcall => ht (hcall.append_word hs w)
    have hnone : angleCall? (w ++ u) = none := by
      apply angleCall?_word hw hne
      · intro c hc
        exact (hrest.head?_of_startsOpen hs hc).imp_left And.right
      · intro hopening hname
        rcases hrest.head?_of_startsOpen hs hopening with ⟨hopening, -⟩ | h | h
        · obtain ⟨r, rfl⟩ := List.head?_eq_some_iff.mp hopening
          exact ht ⟨w, angleFunctions_subset w hname, [], r, endsOpen_nil, rfl⟩
        · exact absurd h (by decide)
        · exact absurd h (by decide)
    obtain ⟨c, w, rfl⟩ := List.exists_cons_of_ne_nil hne
    exact converted_word hw hnone hu b
  | @factorial ds t u hne hds _ ih =>
    have hu : Converted false u u := by
      apply ih
      intro hcall
      have hjoined := hcall.append (endsOpen_append_singleton (x := '!') (by decide) ds)
      simp only [List.append_assoc, List.singleton_append] at hjoined
      exact ht hjoined
    have hdigits : ∀ b, Converted b (ds ++ ')' :: u) (ds ++ ')' :: u) :=
      converted_append (fun c hc => isPlainLetter_of_isDigit (hds c hc))
        (converted_cons (by decide) hu)
    have hcall : ∀ b, Converted b (text "factorial" ++ '(' :: (ds ++ ')' :: u))
        (text "factorial" ++ '(' :: (ds ++ ')' :: u)) :=
      converted_word (by unfold IsWord; decide) (angleCall?_of_first (by decide) _)
        (converted_cons (by decide) (hdigits false))
    simpa [text] using hcall b
  | @digits ds t u hne hds hs _ ih =>
    have hletters : ∀ c ∈ ds, isPlainLetter c = false :=
      fun c hc => isPlainLetter_of_isDigit (hds c hc)
    refine converted_append hletters (ih ?_) b
    intro hcall
    exact ht (hcall.append fun c hc => hletters c (List.mem_of_getLast? hc))
  | @pi t u _ ih =>
    have hu : ∀ b, Converted b u u := by
      apply ih
      intro hcall
      exact ht (hcall.append (endsOpen_append_singleton (x := piLetter) (by decide) []))
    exact converted_word (by unfold IsWord; decide) (angleCall?_of_first (by decide) _) hu b
  | @other c t u hletter _ _ _ ih =>
    refine converted_cons hletter (ih ?_ false) b
    intro hcall
    exact ht (hcall.append (endsOpen_append_singleton hletter []))

end unconverted

section units

theorem degrees_eq (t : Text) :
    normalize .degrees t = convertFrom 0 false (normalize .radians t) := rfl

private theorem degrees_of_no_call (ht : ¬HasCall trigonometricNames t) :
    normalize .degrees t = normalize .radians t := by
  rw [degrees_eq]
  exact ((rewritten t).converted ht false).eq

/-- In degrees nothing but factors is inserted, one at least if an angle function is called with a
closed argument. Nothing is inserted where the text that was typed calls no trigonometric function:
there the unit of angles does not matter to the answer. -/
theorem degrees_only_insert [Stack] (t : Text) :
    InsertsFactor (normalize .radians t) (normalize .degrees t) ∧
      (normalize .degrees t = normalize .radians t ↔ ¬HasClosedCall (normalize .radians t)) ∧
      (¬HasCall trigonometricNames t → normalize .degrees t = normalize .radians t ∧
        ∀ limit history,
          Answer.run .degrees limit history t = Answer.run .radians limit history t) := by
  refine ⟨(converted false (normalize .radians t)).insertsFactor, convertDegrees_eq_iff, ?_⟩
  intro ht
  refine ⟨degrees_of_no_call ht, ?_⟩
  intro limit history
  have hexpression : normalize .degrees (Answer.expression t) =
      normalize .radians (Answer.expression t) := by
    unfold Answer.expression
    split
    · rfl
    · exact degrees_of_no_call ht
  simp only [Answer.run, Answer.runWith, hexpression]

attribute [local instance] Stack.shallow

theorem degrees_only_insert_of_inverse :
    ¬HasCall trigonometricNames (text "asin(1/2)+πsinh(2)") ∧
      normalize .degrees (text "asin(1/2)+πsinh(2)") =
        normalize .radians (text "asin(1/2)+πsinh(2)") := by
  have hcall : ¬HasCall trigonometricNames (text "asin(1/2)+πsinh(2)") := by decide
  exact ⟨hcall, ((degrees_only_insert _).2.2 hcall).1⟩

end units

end DeskCalc.Notation
