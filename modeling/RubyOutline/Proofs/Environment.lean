import RubyOutline.Proofs.Numerals
import RubyOutline.Proofs.Origins

/-!
The settings of an environment. Each of them comes from one variable alone: it is the default where
the variable is unset or empty, and otherwise what is read from the variable. Only ports and log
levels can be refused, a port before a log level, and whatever is not refused is fit for use: what
is read is, and so are the defaults.
-/

namespace RubyOutline.Settings

/-! ### One variable -/

section

variable {α : Type} {held : Option String} {read : String → Except SettingsError α}
  {fallback value : α} {e : SettingsError}

/-- What a variable comes to, by what it holds. -/
inductive Gives (held : Option String) (read : String → Except SettingsError α) (fallback : α) :
    α → Prop
  | unset (h : held = none) : Gives held read fallback fallback
  | empty (h : held = some "") : Gives held read fallback fallback
  | read {raw : String} {value : α} (h : held = some raw) (ne_empty : raw ≠ "")
      (ok : read raw = .ok value) : Gives held read fallback value

/-- Nothing is wrong with what the variable holds. -/
def Accepted (held : Option String) (read : String → Except SettingsError α) : Prop :=
  held = none ∨ held = some "" ∨ ∃ raw value, held = some raw ∧ read raw = .ok value

/-- The variable holds something that cannot be read. -/
def Refused (held : Option String) (read : String → Except SettingsError α) (e : SettingsError) :
    Prop :=
  ∃ raw, held = some raw ∧ raw ≠ "" ∧ read raw = .error e

/-- What holds of a default and of everything that is read holds of the setting. -/
theorem Gives.satisfies (h : Gives held read fallback value) (holds : α → Prop)
    (hfallback : holds fallback)
    (hread : ∀ raw value, raw ≠ "" → read raw = .ok value → holds value) : holds value := by
  cases h with
  | unset | empty => exact hfallback
  | read _ hne hok => exact hread _ _ hne hok

theorem readOr_cases (held : Option String) (read : String → Except SettingsError α)
    (fallback : α) :
    ((held = none ∨ held = some "") ∧
        readOr (held.filter (!·.isEmpty)) read fallback = .ok fallback) ∨
      ∃ raw, held = some raw ∧ raw ≠ "" ∧
        readOr (held.filter (!·.isEmpty)) read fallback = read raw := by
  cases held with
  | none => exact .inl ⟨.inl rfl, rfl⟩
  | some raw =>
    by_cases hraw : raw = ""
    · subst hraw
      exact .inl ⟨.inr rfl, rfl⟩
    · have hheld : (some raw).filter (!·.isEmpty) = some raw := by
        simpa [Option.filter_eq_some_iff] using hraw
      exact .inr ⟨raw, rfl, hraw, by rw [hheld, readOr]⟩

theorem readOr_eq_ok_iff :
    readOr (held.filter (!·.isEmpty)) read fallback = .ok value ↔
      Gives held read fallback value := by
  obtain ⟨hnone, heq⟩ | ⟨raw, rfl, hraw, heq⟩ := readOr_cases held read fallback
  · rw [heq, Except.ok.injEq]
    constructor
    · rintro rfl
      exact hnone.elim .unset .empty
    · intro h
      cases h with
      | unset | empty => rfl
      | read hheld hne _ =>
        rw [hheld] at hnone
        simp [hne] at hnone
  · rw [heq]
    refine ⟨.read rfl hraw, fun h => ?_⟩
    cases h with
    | unset hheld => cases hheld
    | empty hheld => exact absurd (Option.some.inj hheld) hraw
    | read hheld _ hok =>
      cases hheld
      exact hok

theorem readOr_eq_error_iff :
    readOr (held.filter (!·.isEmpty)) read fallback = .error e ↔ Refused held read e := by
  obtain ⟨hnone, heq⟩ | ⟨raw, rfl, hraw, heq⟩ := readOr_cases held read fallback
  · rw [heq]
    refine ⟨nofun, ?_⟩
    rintro ⟨raw, rfl, hraw, -⟩
    simp [hraw] at hnone
  · rw [heq]
    simp [Refused, hraw]

theorem Gives.accepted (h : Gives held read fallback value) : Accepted held read := by
  cases h with
  | unset h => exact .inl h
  | empty h => exact .inr (.inl h)
  | read h _ hok => exact .inr (.inr ⟨_, _, h, hok⟩)

theorem Refused.not_accepted (h : Refused held read e) : ¬ Accepted held read := by
  obtain ⟨raw, rfl, hraw, he⟩ := h
  rintro (h | h | ⟨raw', value, h, hok⟩)
  · cases h
  · exact hraw (Option.some.inj h)
  · cases h
    cases he.symm.trans hok

theorem Gives.unique {value' : α} (h : Gives held read fallback value)
    (h' : Gives held read fallback value') : value = value' :=
  Except.ok.inj ((readOr_eq_ok_iff.2 h).symm.trans (readOr_eq_ok_iff.2 h'))

theorem Refused.unique {e' : SettingsError} (h : Refused held read e) (h' : Refused held read e') :
    e = e' := by
  obtain ⟨raw, rfl, -, he⟩ := h
  obtain ⟨raw', hraw, -, he'⟩ := h'
  cases hraw
  exact Except.error.inj (he.symm.trans he')

/-- A variable from which everything can be read gives what is read, or the default. -/
theorem gives_getD (held : Option String) (f : String → α) (fallback : α) :
    Gives held (fun raw => .ok (f raw)) fallback
      (((held.filter (!·.isEmpty)).map f).getD fallback) := by
  rw [← readOr_eq_ok_iff]
  cases held.filter (!·.isEmpty) <;> rfl

end

/-! ### All variables -/

/-- The settings are what the variables of the environment come to. -/
structure IsReadFrom (env : Environment) (settings : Settings) : Prop where
  host : Gives (env "RUBY_ANALYZER_HOST") .ok "127.0.0.1" settings.host
  port : Gives (env "RUBY_ANALYZER_PORT") readPort 4567 settings.port
  corsOrigins : Gives (env "RUBY_ANALYZER_CORS_ORIGINS") (fun raw => .ok (readOrigins raw)) ["*"]
    settings.corsOrigins
  logLevel : Gives (env "RUBY_ANALYZER_LOG_LEVEL") readLogLevel .info settings.logLevel

variable {env : Environment} {settings settings' : Settings} {e : SettingsError}

theorem IsReadFrom.unique (h : settings.IsReadFrom env) (h' : settings'.IsReadFrom env) :
    settings = settings' := by
  cases settings
  cases settings'
  rw [mk.injEq]
  exact ⟨h.host.unique h'.host, h.port.unique h'.port, h.corsOrigins.unique h'.corsOrigins,
    h.logLevel.unique h'.logLevel⟩

theorem gives_host (env : Environment) :
    Gives (env "RUBY_ANALYZER_HOST") .ok "127.0.0.1" ((setting? env "HOST").getD default.host) := by
  have h := gives_getD (env "RUBY_ANALYZER_HOST") id "127.0.0.1"
  rw [Option.map_id] at h
  exact h

/-- What an environment can come to: a port is looked at first, and then a log level. -/
theorem load_cases (env : Environment) :
    (∃ settings, load env = .ok settings ∧ settings.IsReadFrom env) ∨
      (∃ e, load env = .error e ∧ Refused (env "RUBY_ANALYZER_PORT") readPort e) ∨
      ∃ e, load env = .error e ∧ Accepted (env "RUBY_ANALYZER_PORT") readPort ∧
        Refused (env "RUBY_ANALYZER_LOG_LEVEL") readLogLevel e := by
  cases hport : readOr (setting? env "PORT") readPort default.port with
  | error e =>
    refine .inr (.inl ⟨e, ?_, readOr_eq_error_iff.1 hport⟩)
    rw [load, hport]
    rfl
  | ok port =>
    have hgives : Gives (env "RUBY_ANALYZER_PORT") readPort 4567 port := readOr_eq_ok_iff.1 hport
    cases hlevel : readOr (setting? env "LOG_LEVEL") readLogLevel default.logLevel with
    | error e =>
      refine .inr (.inr ⟨e, ?_, hgives.accepted, readOr_eq_error_iff.1 hlevel⟩)
      rw [load, hport, hlevel]
      rfl
    | ok level =>
      have hlevel' : Gives (env "RUBY_ANALYZER_LOG_LEVEL") readLogLevel .info level :=
        readOr_eq_ok_iff.1 hlevel
      have horigins := gives_getD (env "RUBY_ANALYZER_CORS_ORIGINS") readOrigins ["*"]
      refine .inl ⟨⟨_, port, _, level⟩, ?_, gives_host env, hgives, horigins, hlevel'⟩
      rw [load, hport, hlevel]
      rfl

theorem load_eq_ok_iff : load env = .ok settings ↔ settings.IsReadFrom env := by
  obtain ⟨loaded, heq, hread⟩ | ⟨e, heq, hport⟩ | ⟨e, heq, -, hlevel⟩ := load_cases env
  · rw [heq, Except.ok.injEq]
    constructor
    · rintro rfl
      exact hread
    · exact hread.unique
  · rw [heq]
    exact ⟨nofun, fun h => (hport.not_accepted h.port.accepted).elim⟩
  · rw [heq]
    exact ⟨nofun, fun h => (hlevel.not_accepted h.logLevel.accepted).elim⟩

theorem load_eq_error_iff :
    load env = .error e ↔ Refused (env "RUBY_ANALYZER_PORT") readPort e ∨
      Accepted (env "RUBY_ANALYZER_PORT") readPort ∧
        Refused (env "RUBY_ANALYZER_LOG_LEVEL") readLogLevel e := by
  obtain ⟨loaded, heq, hread⟩ | ⟨e', heq, hport⟩ | ⟨e', heq, hport, hlevel⟩ := load_cases env
  · rw [heq]
    refine ⟨nofun, ?_⟩
    rintro (hport | ⟨-, hlevel⟩)
    · exact (hport.not_accepted hread.port.accepted).elim
    · exact (hlevel.not_accepted hread.logLevel.accepted).elim
  · rw [heq, Except.error.injEq]
    constructor
    · rintro rfl
      exact .inl hport
    · rintro (hport' | ⟨haccepted, -⟩)
      · exact hport.unique hport'
      · exact (hport.not_accepted haccepted).elim
  · rw [heq, Except.error.injEq]
    constructor
    · rintro rfl
      exact .inr ⟨hport, hlevel⟩
    · rintro (hport' | ⟨-, hlevel'⟩)
      · exact (hport'.not_accepted hport).elim
      · exact hlevel.unique hlevel'

/-! ### Fitness -/

theorem readLogLevel_name (level : LogLevel) : readLogLevel level.name = .ok level := by
  cases level <;> decide

/-- A service can be started with the settings. -/
structure IsFit (settings : Settings) : Prop where
  port_range : 1 ≤ settings.port ∧ settings.port ≤ 65535
  host_ne_empty : settings.host ≠ ""
  corsOrigins_ne_nil : settings.corsOrigins ≠ []
  isOrigin : ∀ x ∈ settings.corsOrigins, IsOrigin x
  mem_levelNames : settings.logLevel.name ∈
    ["CRITICAL", "FATAL", "ERROR", "WARN", "WARNING", "INFO", "DEBUG", "NOTSET"]
  readLogLevel_name : readLogLevel settings.logLevel.name = .ok settings.logLevel

theorem IsReadFrom.isFit (h : settings.IsReadFrom env) : settings.IsFit := by
  have hport : 1 ≤ settings.port ∧ settings.port ≤ 65535 := by
    refine h.port.satisfies (fun port => 1 ≤ port ∧ port ≤ 65535) (by decide) ?_
    exact fun raw port _ hok => (readPort_eq_ok_iff.1 hok).2
  have hhost : settings.host ≠ "" := by
    refine h.host.satisfies (· ≠ "") (by decide) ?_
    rintro raw _ hne ⟨⟩
    exact hne
  have horigins : settings.corsOrigins ≠ [] ∧ ∀ x ∈ settings.corsOrigins, IsOrigin x := by
    refine h.corsOrigins.satisfies (fun xs => xs ≠ [] ∧ ∀ x ∈ xs, IsOrigin x) (by decide +kernel) ?_
    rintro raw _ - ⟨⟩
    exact ⟨readOrigins_ne_nil raw, fun _ => isOrigin_of_mem_readOrigins⟩
  exact ⟨hport, hhost, horigins.1, horigins.2, by cases settings.logLevel <;> decide,
    readLogLevel_name settings.logLevel⟩

theorem port_of_load (h : load env = .ok settings) : 1 ≤ settings.port ∧ settings.port ≤ 65535 :=
  (load_eq_ok_iff.1 h).isFit.port_range

/-- An environment has settings just where nothing is wrong with its port and with its log level,
and of two that are wrong the port is complained of. The settings are what the four variables come
to, each by itself, and a service can be started with them. -/
theorem load_decided (env : Environment) :
    ((∃ settings, load env = .ok settings) ↔
        Accepted (env "RUBY_ANALYZER_PORT") readPort ∧
          Accepted (env "RUBY_ANALYZER_LOG_LEVEL") readLogLevel) ∧
      (∀ e, load env = .error e ↔ Refused (env "RUBY_ANALYZER_PORT") readPort e ∨
        Accepted (env "RUBY_ANALYZER_PORT") readPort ∧
          Refused (env "RUBY_ANALYZER_LOG_LEVEL") readLogLevel e) ∧
      (∀ settings, load env = .ok settings ↔ settings.IsReadFrom env) ∧
      (∀ settings, load env = .ok settings → settings.IsFit) ∧
      ∀ env' settings settings', load env = .ok settings → load env' = .ok settings' →
        (env "RUBY_ANALYZER_HOST" = env' "RUBY_ANALYZER_HOST" → settings.host = settings'.host) ∧
        (env "RUBY_ANALYZER_PORT" = env' "RUBY_ANALYZER_PORT" → settings.port = settings'.port) ∧
        (env "RUBY_ANALYZER_CORS_ORIGINS" = env' "RUBY_ANALYZER_CORS_ORIGINS" →
          settings.corsOrigins = settings'.corsOrigins) ∧
        (env "RUBY_ANALYZER_LOG_LEVEL" = env' "RUBY_ANALYZER_LOG_LEVEL" →
          settings.logLevel = settings'.logLevel) := by
  refine ⟨?_, fun e => load_eq_error_iff, fun settings => load_eq_ok_iff,
    fun settings h => (load_eq_ok_iff.1 h).isFit, ?_⟩
  · constructor
    · rintro ⟨settings, h⟩
      have hread := load_eq_ok_iff.1 h
      exact ⟨hread.port.accepted, hread.logLevel.accepted⟩
    · rintro ⟨hport, hlevel⟩
      obtain ⟨settings, h, -⟩ | ⟨e, -, hrefused⟩ | ⟨e, -, -, hrefused⟩ := load_cases env
      · exact ⟨settings, h⟩
      · exact (hrefused.not_accepted hport).elim
      · exact (hrefused.not_accepted hlevel).elim
  · intro env' settings settings' h h'
    rw [load_eq_ok_iff] at h h'
    exact ⟨fun heq => h.host.unique (heq ▸ h'.host), fun heq => h.port.unique (heq ▸ h'.port),
      fun heq => h.corsOrigins.unique (heq ▸ h'.corsOrigins),
      fun heq => h.logLevel.unique (heq ▸ h'.logLevel)⟩

/-- A port with blanks and an underscore, a level whose capital letters are those of a name, and
origins none of which is written. -/
def spelledOut : Environment
  | "RUBY_ANALYZER_PORT" => some " 0_80"
  | "RUBY_ANALYZER_LOG_LEVEL" => some "\t\u0131nfo"
  | "RUBY_ANALYZER_CORS_ORIGINS" => some " ,"
  | _ => none

/-- The same port, and a level and origins that are set to nothing. -/
def portOnly : Environment
  | "RUBY_ANALYZER_PORT" => some " 0_80"
  | "RUBY_ANALYZER_HOST" => some "0.0.0.0"
  | "RUBY_ANALYZER_LOG_LEVEL" | "RUBY_ANALYZER_CORS_ORIGINS" => some ""
  | _ => none

theorem load_decided_spelled_out :
    ∃ settings settings', load spelledOut = .ok settings ∧ load portOnly = .ok settings' ∧
      spelledOut "RUBY_ANALYZER_PORT" = portOnly "RUBY_ANALYZER_PORT" ∧ settings.port = 80 ∧
      settings.port = settings'.port ∧ settings.IsFit := by
  have hloaded : load spelledOut = .ok ⟨"127.0.0.1", 80, ["*"], .info⟩ := by decide +kernel
  have hloaded' : load portOnly = .ok ⟨"0.0.0.0", 80, ["*"], .info⟩ := by decide +kernel
  obtain ⟨-, -, -, hfit, hagree⟩ := load_decided spelledOut
  obtain ⟨-, hport, -, -⟩ := hagree portOnly _ _ hloaded hloaded'
  exact ⟨_, _, hloaded, hloaded', rfl, rfl, hport rfl, hfit _ hloaded⟩

end RubyOutline.Settings
