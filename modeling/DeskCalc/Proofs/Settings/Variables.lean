import DeskCalc.Settings.EnvironmentFile

/-!
# Variables of two sources

A variable has the text that the environment holds, even an empty one. If the environment holds
none, it has the text that the last line of the file about it assigns; if that line assigns nothing,
or there is no such line, it has its default. A file is loaded if it assigns nothing that a variable
of the system cannot hold to a variable that the environment lacks.
-/

namespace DeskCalc.EnvironmentFile

section

variable (environment : Text → Option Text) (file : Text)

/-- The last line of the file about the variable assigns it the value. -/
def Assigns (name value : Text) : Prop :=
  ∃ later earlier, assignments environment file = later ++ (name, some value) :: earlier ∧
    ∀ line ∈ later, line.1 ≠ name

/-- The variable has the text, from the first source that has one. -/
inductive HasText (name default : Text) : Text → Prop
  | environment {t : Text} (h : environment name = some t) : HasText name default t
  | file {t : Text} (lacks : environment name = none)
      (h : Assigns environment file name t) : HasText name default t
  | default (lacks : environment name = none)
      (h : ∀ t, ¬ Assigns environment file name t) : HasText name default default

/-- A variable of the system can have the name and hold the value. -/
structure CanHold (name value : Text) : Prop where
  name_null : '\x00' ∉ name
  value_null : '\x00' ∉ value
  name_equals : '=' ∉ name

/-- All that the file assigns to variables that the environment lacks can be held by them. -/
def Loads : Prop :=
  ∀ name value, environment name = none → Assigns environment file name value → CanHold name value

end

section

variable {environment : Text → Option Text} {file name value default t : Text}

private theorem lastValue_eq_some_iff :
    (assigned? name (assignments environment file)).bind id = some value ↔
      Assigns environment file name value := by
  have hjoin (o : Option (Option Text)) : o.bind id = some value ↔ o = some (some value) := by
    cases o <;> simp
  rw [hjoin, assigned?, List.lookup_eq_some_iff]
  simp only [bne_iff_ne, ne_comm (a := name), Assigns]

theorem get?_of_held (h : environment name = some t) :
    get? environment file name = some t := by rw [get?, h, Option.some_or]

private theorem get?_of_lacks (h : environment name = none) :
    get? environment file name = some t ↔ Assigns environment file name t := by
  rw [get?, h, Option.none_or, lastValue_eq_some_iff]

/-- A variable has the text that looking it up gives, and its default if that gives none. -/
theorem hasText_getD :
    HasText environment file name default ((get? environment file name).getD default) := by
  cases henvironment : environment name with
  | some t =>
    rw [get?_of_held henvironment]
    exact .environment henvironment
  | none =>
    cases hget : get? environment file name with
    | some t => exact .file henvironment ((get?_of_lacks henvironment).mp hget)
    | none =>
      refine .default henvironment fun t ht => ?_
      exact absurd (hget.symm.trans ((get?_of_lacks henvironment).mpr ht)) nofun

theorem HasText.eq_getD (h : HasText environment file name default t) :
    t = (get? environment file name).getD default := by
  cases h with
  | environment h => rw [get?_of_held h, Option.getD_some]
  | file lacks h => rw [(get?_of_lacks lacks).mpr h, Option.getD_some]
  | default lacks h =>
    have hnone : get? environment file name = none :=
      Option.eq_none_iff_forall_ne_some.mpr fun t ht => h t ((get?_of_lacks lacks).mp ht)
    rw [hnone, Option.getD_none]

private theorem SetError.of?_eq_none_iff : SetError.of? name value = none ↔ CanHold name value := by
  unfold SetError.of?
  by_cases hnull : '\x00' ∈ name ∨ '\x00' ∈ value
  · rw [if_pos hnull]
    exact iff_of_false nofun fun h => hnull.elim h.name_null h.value_null
  · rw [if_neg hnull]
    by_cases hequals : '=' ∈ name
    · rw [if_pos hequals]
      exact iff_of_false nofun fun h => h.name_equals hequals
    · rw [if_neg hequals]
      exact iff_of_true rfl ⟨fun h => hnull (.inl h), fun h => hnull (.inr h), hequals⟩

/-- Nothing goes wrong when a file is loaded exactly if all that it sets can be held. -/
theorem setError?_eq_none_iff : setError? environment file = none ↔ Loads environment file := by
  have hline (name : Text) :
      (if (environment name).isSome then none
        else ((assigned? name (assignments environment file)).bind id).bind (SetError.of? name)) =
          none ↔
        (environment name = none → ∀ value, Assigns environment file name value →
          CanHold name value) := by
    cases environment name with
    | some t => simp
    | none =>
      simp only [Option.isSome_none, Bool.false_eq_true, if_false, Option.bind_eq_none_iff,
        lastValue_eq_some_iff, SetError.of?_eq_none_iff, true_implies]
  simp only [setError?, List.findSome?_eq_none_iff, List.mem_reverse, hline]
  constructor
  · rintro h name value hlacks ⟨later, earlier, hlines, hlater⟩
    exact h (name, some value) (by simp [hlines]) hlacks value ⟨later, earlier, hlines, hlater⟩
  · exact fun h line _ hlacks value hvalue => h line.1 value hlacks hvalue

end

end DeskCalc.EnvironmentFile
