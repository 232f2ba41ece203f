import DeskCalc.Proofs.Outcomes
import DeskCalc.Proofs.Settings.Numeral
import DeskCalc.Proofs.Settings.Variables
import DeskCalc.Settings.Basic

/-!
# Valid settings

Four variables give the settings. If the file can be loaded, either all four are valid and the
settings are what they say, or the settings are refused for the first one that is not valid, in the
order limit, unit, level and path. A file that cannot be loaded gives no settings.
-/

namespace DeskCalc

namespace FilePath

/-- The path that a text leads to, with a home directory in place of a tilde and a user. -/
inductive LeadsTo (homeOf : Text → Option FilePath) (t : Text) : FilePath → Prop
  | asWritten (h : ∀ user rest, ofText t ≠ ⟨[], ('~' :: user) :: rest⟩) :
      LeadsTo homeOf t (ofText t)
  | belowHome {user : Text} {rest : List Text} {home : FilePath}
      (h : ofText t = ⟨[], ('~' :: user) :: rest⟩) (known : homeOf user = some home) :
      LeadsTo homeOf t ⟨home.root, home.parts ++ rest⟩

/-- The text names the home directory of a user for whom none is known. -/
def Homeless (homeOf : Text → Option FilePath) (t : Text) : Prop :=
  ∃ user rest, ofText t = ⟨[], ('~' :: user) :: rest⟩ ∧ homeOf user = none

variable {homeOf : Text → Option FilePath} {t : Text} {p : FilePath}

private theorem expandHome?_tilde (user : Text) (rest : List Text) :
    expandHome? homeOf ⟨[], ('~' :: user) :: rest⟩ =
      (homeOf user).map fun home => ⟨home.root, home.parts ++ rest⟩ := rfl

private theorem expandHome?_of_ne (h : ∀ user rest, p ≠ ⟨[], ('~' :: user) :: rest⟩) :
    p.expandHome? homeOf = some p := by
  obtain ⟨root, parts⟩ := p
  unfold expandHome?
  split
  · next user rest hroot hparts =>
    obtain rfl : root = [] := hroot
    obtain rfl : parts = _ := hparts
    exact absurd rfl (h user rest)
  · rfl

private theorem LeadsTo.expandHome?_eq (h : LeadsTo homeOf t p) :
    (ofText t).expandHome? homeOf = some p := by
  cases h with
  | asWritten h => exact expandHome?_of_ne h
  | belowHome h known => rw [h, expandHome?_tilde, known, Option.map_some]

private theorem Homeless.expandHome?_eq (h : Homeless homeOf t) :
    (ofText t).expandHome? homeOf = none := by
  obtain ⟨user, rest, ht, hunknown⟩ := h
  rw [ht, expandHome?_tilde, hunknown, Option.map_none]

private theorem leadsTo_or_homeless (homeOf : Text → Option FilePath) (t : Text) :
    (∃ p, LeadsTo homeOf t p) ∨ Homeless homeOf t := by
  by_cases htilde : ∃ user rest, ofText t = ⟨[], ('~' :: user) :: rest⟩
  · obtain ⟨user, rest, ht⟩ := htilde
    cases hhome : homeOf user with
    | some home => exact .inl ⟨_, .belowHome ht hhome⟩
    | none => exact .inr ⟨user, rest, ht, hhome⟩
  · exact .inl ⟨_, .asWritten fun user rest ht => htilde ⟨user, rest, ht⟩⟩

private theorem expandHome?_eq_some_iff :
    (ofText t).expandHome? homeOf = some p ↔ LeadsTo homeOf t p := by
  refine ⟨fun h => ?_, LeadsTo.expandHome?_eq⟩
  rcases leadsTo_or_homeless homeOf t with ⟨q, hq⟩ | hhomeless
  · obtain rfl : q = p := Option.some.inj (hq.expandHome?_eq.symm.trans h)
    exact hq
  · exact absurd (hhomeless.expandHome?_eq.symm.trans h) nofun

private theorem expandHome?_eq_none_iff :
    (ofText t).expandHome? homeOf = none ↔ Homeless homeOf t := by
  refine ⟨fun h => ?_, Homeless.expandHome?_eq⟩
  rcases leadsTo_or_homeless homeOf t with ⟨q, hq⟩ | hhomeless
  · exact absurd (hq.expandHome?_eq.symm.trans h) nofun
  · exact hhomeless

end FilePath

/-- The texts of the variables that settings come from. -/
structure Variables where
  limit : Text
  unit : Text
  level : Text
  path : Text

namespace Variables

/-- The variables have these texts in an environment and a file, or by default. -/
structure HeldBy (environment : Text → Option Text) (file : Text) (v : Variables) : Prop where
  limit :
      EnvironmentFile.HasText environment file (text "SCICALC_HISTORY_LIMIT") (text "15") v.limit
  unit : EnvironmentFile.HasText environment file (text "SCICALC_ANGLE_UNIT") (text "deg") v.unit
  level : EnvironmentFile.HasText environment file (text "SCICALC_LOG_LEVEL") (text "INFO") v.level
  path : EnvironmentFile.HasText environment file (text "SCICALC_STORAGE_PATH")
    (text "~/.scicalc/state.json") v.path

/-- The variables are valid and say what the settings are. -/
structure Gives (homeOf : Text → Option FilePath) (v : Variables) (s : Settings) : Prop where
  limit : v.limit.Denotes s.historyLimit
  limit_pos : 1 ≤ s.historyLimit
  unit : v.unit.strip.toLower = s.angleUnit.name
  level : v.level.strip.toUpper = s.logLevel
  level_known : s.logLevel ∈ Settings.logLevels
  path : FilePath.LeadsTo homeOf v.path s.storagePath

/-- The first variable that is not valid is refused with the error. -/
inductive Refused (homeOf : Text → Option FilePath) (v : Variables) : SettingsError → Prop
  | limitNotInteger (limit : ∀ n, ¬ v.limit.Denotes n) : Refused homeOf v (.limitNotInteger v.limit)
  | limitTooSmall {n : Int} (limit : v.limit.Denotes n) (small : n < 1) :
      Refused homeOf v .limitTooSmall
  | unknownUnit {n : Int} (limit : v.limit.Denotes n) (limit_pos : 1 ≤ n)
      (unit : ∀ u : AngleUnit, v.unit.strip.toLower ≠ u.name) :
      Refused homeOf v (.unknownUnit v.unit.strip.toLower)
  | unknownLevel {n : Int} {u : AngleUnit} (limit : v.limit.Denotes n) (limit_pos : 1 ≤ n)
      (unit : v.unit.strip.toLower = u.name) (level : v.level.strip.toUpper ∉ Settings.logLevels) :
      Refused homeOf v (.unknownLevel v.level.strip.toUpper)
  | noHomeDirectory {n : Int} {u : AngleUnit} (limit : v.limit.Denotes n) (limit_pos : 1 ≤ n)
      (unit : v.unit.strip.toLower = u.name) (level : v.level.strip.toUpper ∈ Settings.logLevels)
      (path : FilePath.Homeless homeOf v.path) : Refused homeOf v .noHomeDirectory

end Variables

namespace SettingsError

/-- The variable that an error blames. A file that cannot be loaded and a home directory that is
not known are the fault of none. -/
def blamed? : SettingsError → Option Text
  | limitNotInteger _ | limitTooSmall => some (text "SCICALC_HISTORY_LIMIT")
  | unknownUnit _ => some (text "SCICALC_ANGLE_UNIT")
  | unknownLevel _ => some (text "SCICALC_LOG_LEVEL")
  | unsettable _ | noHomeDirectory => none

private theorem infix_message {e : SettingsError} {name : Text} (h : e.blamed? = some name) :
    name <:+: e.message := by
  cases e with
  | limitNotInteger v =>
    obtain rfl := Option.some.inj h
    exact ⟨[], text " must be an integer, got " ++ v.quoted, rfl⟩
  | limitTooSmall =>
    obtain rfl := Option.some.inj h
    exact ⟨[], text " must be at least 1", rfl⟩
  | unknownUnit v =>
    obtain rfl := Option.some.inj h
    exact ⟨[], text " must be 'deg' or 'rad', got " ++ v.quoted, rfl⟩
  | unknownLevel v =>
    obtain rfl := Option.some.inj h
    exact ⟨text "Unknown ", text " " ++ v.quoted, rfl⟩
  | unsettable e => exact absurd h nofun
  | noHomeDirectory => exact absurd h nofun

end SettingsError

namespace AngleUnit

private theorem ofName?_eq_some_iff {t : Text} {u : AngleUnit} :
    ofName? t = some u ↔ t = u.name := by
  constructor
  · intro h
    unfold ofName? at h
    split at h
    · next hname => exact Option.some.inj h ▸ hname
    · split at h
      · next hname => exact Option.some.inj h ▸ hname
      · exact absurd h nofun
  · rintro rfl
    exact ofName?_name u

end AngleUnit

namespace Settings

section checks

variable {homeOf : Text → Option FilePath} {t : Text} {e : SettingsError}

private theorem readLimit_eq_ok_iff {n : Int} : readLimit t = .ok n ↔ t.Denotes n ∧ 1 ≤ n := by
  rw [readLimit, ← Text.integer?_eq_some_iff]
  cases t.integer? with
  | none => simp
  | some m =>
    by_cases hsmall : m < 1
    · simp only [if_pos hsmall, reduceCtorEq, Option.some.injEq, false_iff]
      omega
    · simp only [if_neg hsmall, Except.ok.injEq, Option.some.injEq]
      omega

private theorem readLimit_eq_error_iff : readLimit t = .error e ↔
    ((∀ n, ¬ t.Denotes n) ∧ e = .limitNotInteger t) ∨
      (∃ n, t.Denotes n ∧ n < 1) ∧ e = .limitTooSmall := by
  rw [readLimit, ← Text.integer?_eq_none_iff]
  simp only [← Text.integer?_eq_some_iff]
  cases t.integer? with
  | none => simp [eq_comm]
  | some m => by_cases hsmall : m < 1 <;> simp [hsmall, eq_comm]

private theorem readUnit_eq_ok_iff {u : AngleUnit} :
    readUnit t = .ok u ↔ t.strip.toLower = u.name := by
  rw [readUnit, ← AngleUnit.ofName?_eq_some_iff]
  cases AngleUnit.ofName? t.strip.toLower <;> simp

private theorem readUnit_eq_error_iff : readUnit t = .error e ↔
    (∀ u : AngleUnit, t.strip.toLower ≠ u.name) ∧ e = .unknownUnit t.strip.toLower := by
  simp only [readUnit, ne_eq, ← AngleUnit.ofName?_eq_some_iff]
  cases AngleUnit.ofName? t.strip.toLower <;> simp [eq_comm]

private theorem readLevel_eq_ok_iff {level : Text} :
    readLevel t = .ok level ↔ t.strip.toUpper = level ∧ level ∈ logLevels := by
  unfold readLevel
  by_cases hknown : t.strip.toUpper ∈ logLevels
  · rw [if_pos hknown, Except.ok.injEq]
    exact ⟨fun h => ⟨h, h ▸ hknown⟩, And.left⟩
  · rw [if_neg hknown]
    exact iff_of_false nofun fun ⟨h, hlevel⟩ => hknown (h ▸ hlevel)

private theorem readLevel_eq_error_iff : readLevel t = .error e ↔
    t.strip.toUpper ∉ logLevels ∧ e = .unknownLevel t.strip.toUpper := by
  unfold readLevel
  by_cases hknown : t.strip.toUpper ∈ logLevels <;> simp [hknown, eq_comm]

variable {home : Text} {users : Text → Option Text}

private theorem readPath_eq_ok_iff {p : FilePath} :
    readPath home users t = .ok p ↔ FilePath.LeadsTo (homeOf? home users) t p := by
  rw [readPath, ← FilePath.expandHome?_eq_some_iff]
  cases (FilePath.ofText t).expandHome? (homeOf? home users) <;> simp

private theorem readPath_eq_error_iff : readPath home users t = .error e ↔
    FilePath.Homeless (homeOf? home users) t ∧ e = .noHomeDirectory := by
  rw [readPath, ← FilePath.expandHome?_eq_none_iff]
  cases (FilePath.ofText t).expandHome? (homeOf? home users) <;> simp [eq_comm]

end checks

end Settings

namespace Variables

/-- The texts that looking the variables up gives. -/
def of (lookup : Text → Option Text) : Variables where
  limit := (lookup (text "SCICALC_HISTORY_LIMIT")).getD (text "15")
  unit := (lookup (text "SCICALC_ANGLE_UNIT")).getD (text "deg")
  level := (lookup (text "SCICALC_LOG_LEVEL")).getD (text "INFO")
  path := (lookup (text "SCICALC_STORAGE_PATH")).getD (text "~/.scicalc/state.json")

private theorem heldBy_iff {environment : Text → Option Text} {file : Text} {v : Variables} :
    v.HeldBy environment file ↔ v = of (EnvironmentFile.get? environment file) := by
  constructor
  · intro h
    obtain ⟨limit, unit, level, path⟩ := v
    rw [of, ← h.limit.eq_getD, ← h.unit.eq_getD, ← h.level.eq_getD, ← h.path.eq_getD]
  · rintro rfl
    exact ⟨EnvironmentFile.hasText_getD, EnvironmentFile.hasText_getD,
      EnvironmentFile.hasText_getD, EnvironmentFile.hasText_getD⟩

end Variables

namespace Settings

variable {home file : Text} {users lookup environment : Text → Option Text} {s : Settings}
  {e : SettingsError}

/-- The variables are checked one after another. -/
theorem ofVariables_eq : ofVariables home lookup users = (do
    let historyLimit ← readLimit (Variables.of lookup).limit
    let angleUnit ← readUnit (Variables.of lookup).unit
    let logLevel ← readLevel (Variables.of lookup).level
    let storagePath ← readPath home users (Variables.of lookup).path
    return { storagePath, historyLimit, angleUnit, logLevel }) := by
  have hlimit : Text.ofInt History.defaultLimit = text "15" := by decide
  rw [ofVariables, hlimit]
  rfl

private theorem ofVariables_eq_ok_iff :
    ofVariables home lookup users = .ok s ↔ (Variables.of lookup).Gives (homeOf? home users) s := by
  simp only [ofVariables_eq, Except.bind_eq_ok_iff, readLimit_eq_ok_iff, readUnit_eq_ok_iff,
    readLevel_eq_ok_iff, readPath_eq_ok_iff]
  constructor
  · rintro ⟨limit, ⟨hlimit, hpos⟩, unit, hunit, level, ⟨hlevel, hknown⟩, path, hpath, hs⟩
    obtain rfl := Except.ok.inj hs
    exact ⟨hlimit, hpos, hunit, hlevel, hknown, hpath⟩
  · rintro ⟨hlimit, hpos, hunit, hlevel, hknown, hpath⟩
    exact ⟨_, ⟨hlimit, hpos⟩, _, hunit, _, ⟨hlevel, hknown⟩, _, hpath, rfl⟩

private theorem ofVariables_eq_error_iff :
    ofVariables home lookup users = .error e ↔
      (Variables.of lookup).Refused (homeOf? home users) e := by
  simp only [ofVariables_eq, Except.bind_eq_error_iff, readLimit_eq_ok_iff, readUnit_eq_ok_iff,
    readLevel_eq_ok_iff, readLimit_eq_error_iff, readUnit_eq_error_iff, readLevel_eq_error_iff,
    readPath_eq_error_iff]
  constructor
  -- the checks one by one: each either fails or leaves what the next one needs
  · rintro ((⟨hlimit, rfl⟩ | ⟨⟨n, hlimit, hsmall⟩, rfl⟩) | ⟨n, ⟨hlimit, hpos⟩, h⟩)
    · exact .limitNotInteger hlimit
    · exact .limitTooSmall hlimit hsmall
    rcases h with ⟨hunit, rfl⟩ | ⟨u, hunit, h⟩
    · exact .unknownUnit hlimit hpos hunit
    rcases h with ⟨hlevel, rfl⟩ | ⟨level, ⟨rfl, hlevel⟩, h⟩
    · exact .unknownLevel hlimit hpos hunit hlevel
    rcases h with ⟨hpath, rfl⟩ | ⟨path, hpath, hs⟩
    · exact .noHomeDirectory hlimit hpos hunit hlevel hpath
    · exact absurd hs nofun
  · rintro (hlimit | ⟨hlimit, hsmall⟩ | ⟨hlimit, hpos, hunit⟩ | ⟨hlimit, hpos, hunit, hlevel⟩ |
      ⟨hlimit, hpos, hunit, hlevel, hpath⟩)
    · exact .inl (.inl ⟨hlimit, rfl⟩)
    · exact .inl (.inr ⟨⟨_, hlimit, hsmall⟩, rfl⟩)
    · exact .inr ⟨_, ⟨hlimit, hpos⟩, .inl ⟨hunit, rfl⟩⟩
    · exact .inr ⟨_, ⟨hlimit, hpos⟩, .inr ⟨_, hunit, .inl ⟨hlevel, rfl⟩⟩⟩
    · exact .inr ⟨_, ⟨hlimit, hpos⟩, .inr ⟨_, hunit, .inr ⟨_, ⟨rfl, hlevel⟩, .inl ⟨hpath, rfl⟩⟩⟩⟩

private theorem ofEnvironment_of_loads (h : EnvironmentFile.Loads environment file) :
    ofEnvironment home environment file users =
      ofVariables home (EnvironmentFile.get? environment file) users := by
  rw [ofEnvironment, EnvironmentFile.setError?_eq_none_iff.mpr h]

private theorem ofEnvironment_of_not_loads (home : Text) (users : Text → Option Text)
    (h : ¬ EnvironmentFile.Loads environment file) :
    ∃ e, ofEnvironment home environment file users = .error (.unsettable e) := by
  obtain ⟨e, he⟩ := Option.ne_none_iff_exists'.mp (mt EnvironmentFile.setError?_eq_none_iff.mp h)
  exact ⟨e, by rw [ofEnvironment, he]⟩

/-- Of the texts that the four variables have, either all are valid and give the settings, or the
first one that is not valid is refused, in a message that has the name of the variable. A file that
cannot be loaded is refused before them. -/
theorem valid_or_refused (home file : Text) (users environment : Text → Option Text) :
    ∃ v : Variables, (∀ w : Variables, w.HeldBy environment file ↔ w = v) ∧
      (∀ s, ofEnvironment home environment file users = .ok s ↔
        EnvironmentFile.Loads environment file ∧ v.Gives (homeOf? home users) s) ∧
      (EnvironmentFile.Loads environment file → ∀ e,
        ofEnvironment home environment file users = .error e ↔
          v.Refused (homeOf? home users) e) ∧
      (¬ EnvironmentFile.Loads environment file →
        ∃ e, ofEnvironment home environment file users = .error (.unsettable e)) ∧
      ∀ e name, ofEnvironment home environment file users = .error e →
        e.blamed? = some name → name <:+: e.message := by
  refine ⟨.of (EnvironmentFile.get? environment file), fun w => Variables.heldBy_iff, fun s => ?_,
    fun hloads e => ?_, ofEnvironment_of_not_loads home users,
    fun e name _ => SettingsError.infix_message⟩
  · by_cases hloads : EnvironmentFile.Loads environment file
    · rw [ofEnvironment_of_loads hloads, ofVariables_eq_ok_iff]
      exact (and_iff_right hloads).symm
    · obtain ⟨e, he⟩ := ofEnvironment_of_not_loads home users hloads
      rw [he]
      exact iff_of_false nofun fun h => hloads h.1
  · rw [ofEnvironment_of_loads hloads, ofVariables_eq_error_iff]

/-- The unit of the environment hides that of the file, which has the limit. An empty limit in the
environment hides it too, and is refused although the level is not valid either. -/
theorem valid_or_refused_two_sources :
    let file := text "export SCICALC_HISTORY_LIMIT = ' +1_0' # ten\nSCICALC_ANGLE_UNIT=turn\n"
    let unit (name : Text) : Option Text :=
      if name = text "SCICALC_ANGLE_UNIT" then some (text " Rad\n") else none
    let empty (name : Text) : Option Text :=
      if name = text "SCICALC_HISTORY_LIMIT" then some []
      else if name = text "SCICALC_LOG_LEVEL" then some (text "loud") else none
    let home := homeOf? (text "/home/tester") fun _ => none
    (∃ v s, Variables.HeldBy unit file v ∧ EnvironmentFile.Loads unit file ∧
      Variables.Gives home v s ∧ s.historyLimit = 10 ∧ s.angleUnit = .radians ∧
      s.storagePath = ⟨['/'], ["home", "tester", ".scicalc", "state.json"].map text⟩) ∧
    ∃ v, Variables.HeldBy empty file v ∧ Variables.Refused home v (.limitNotInteger []) ∧
      text "SCICALC_HISTORY_LIMIT" <:+: (SettingsError.limitNotInteger []).message := by
  intro file unit empty home
  constructor
  · obtain ⟨v, hv, hok, -⟩ := valid_or_refused (text "/home/tester") file (fun _ => none) unit
    obtain ⟨hloads, hgives⟩ := (hok ⟨⟨['/'], ["home", "tester", ".scicalc", "state.json"].map text⟩,
      10, .radians, text "INFO"⟩).mp (by decide +kernel)
    exact ⟨v, _, (hv v).mpr rfl, hloads, hgives, rfl, rfl, rfl⟩
  · obtain ⟨v, hv, -, herror, -, hnamed⟩ :=
      valid_or_refused (text "/home/tester") file (fun _ => none) empty
    have hloads : EnvironmentFile.Loads empty file :=
      EnvironmentFile.setError?_eq_none_iff.mp (by decide +kernel)
    have hrefused : ofEnvironment (text "/home/tester") empty file (fun _ => none) =
        .error (.limitNotInteger []) := by decide +kernel
    exact ⟨v, (hv v).mpr rfl, (herror hloads _).mp hrefused, hnamed _ _ hrefused rfl⟩

/-- The grammar of integers and the other three checks do not decide alone. A numeral of seven with
too many digits is refused; a line without an equals sign takes an assignment back; a variable that
no setting comes from can keep the file from being loaded; and the home directory of another user
is found if it is known. -/
theorem not_valid_by_grammar_alone :
    let home := text "/home/tester"
    let limit := List.replicate 4300 '0' ++ ['7']
    let long (name : Text) : Option Text :=
      if name = text "SCICALC_HISTORY_LIMIT" then some limit else none
    let v : Variables := ⟨limit, text "deg", text "INFO", text "~/.scicalc/state.json"⟩
    let taken := text "SCICALC_HISTORY_LIMIT=7\nSCICALC_HISTORY_LIMIT\n"
    let path (name : Text) : Option Text :=
      if name = text "SCICALC_STORAGE_PATH" then some (text "~root/state.json") else none
    let users (name : Text) : Option Text :=
      if name = text "root" then some (text "/root") else none
    (v.HeldBy long [] ∧ Text.WritesInteger v.limit 7 4301 ∧
      v.unit.strip.toLower = AngleUnit.degrees.name ∧ v.level.strip.toUpper ∈ logLevels ∧
      (∃ p, FilePath.LeadsTo (homeOf? home fun _ => none) v.path p) ∧
      ofEnvironment home long [] = .error (.limitNotInteger limit)) ∧
    (EnvironmentFile.assignments (fun _ => none) taken =
        [(text "SCICALC_HISTORY_LIMIT", none), (text "SCICALC_HISTORY_LIMIT", some ['7'])] ∧
      (ofEnvironment home (fun _ => none) taken).toOption.map (·.historyLimit) = some 15) ∧
    ofEnvironment home (fun _ => none) (text "A='\x00'") = .error (.unsettable .nullCharacter) ∧
    (ofEnvironment home path [] users).toOption.map (·.storagePath) =
      some ⟨['/'], [text "root", text "state.json"]⟩ := by
  intro home limit long v taken path users
  have hlimit : Text.WritesInteger limit 7 4301 :=
    Text.writesInteger_zeros_append (by decide) 4300
  have hlong : ∀ n, ¬ Text.Denotes limit n :=
    Text.integer?_eq_none_iff.mp (hlimit.integer?_eq.trans (if_pos (by decide)))
  have hv : v = .of (EnvironmentFile.get? long []) := by
    rw [Variables.of, EnvironmentFile.get?_of_held (if_pos rfl)]
    rfl
  have hloads : EnvironmentFile.Loads long [] := EnvironmentFile.setError?_eq_none_iff.mp rfl
  refine ⟨⟨Variables.heldBy_iff.mpr hv, hlimit, by decide +kernel, by decide +kernel,
    ⟨_, FilePath.expandHome?_eq_some_iff.mp rfl⟩, ?_⟩, ⟨by decide +kernel, by decide +kernel⟩,
    by decide +kernel, by decide +kernel⟩
  rw [ofEnvironment_of_loads hloads, ofVariables_eq_error_iff, ← hv]
  exact .limitNotInteger hlong

end Settings

end DeskCalc
