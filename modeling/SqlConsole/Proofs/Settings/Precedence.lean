import SqlConsole.Proofs.Settings.RoundTrip

/-! Which layer decides a setting: a variable of the environment with a value other than the
default, else the file in use, else the default. A variable that holds the default does not count
as set, so it cannot take back what the file says. -/
namespace SqlConsole

namespace Settings

open Toml

/-! ## What a file says -/

/-- The value in a document under a key of a group. If the group is a list, keys give way to
places in it. -/
def stated? (entries : Entries) (group key : String) (place : Nat) : Option Value :=
  match entries.get? group with
  | some (.table _ settings) => Entries.get? settings key
  | some (.array items) => items[place]?
  | some (.tables rows) => (rows.map (Value.table .header))[place]?
  | _ => none

/-- The setting is the stated one, or the default if nothing is stated. -/
def Says (stated : Option Value) (form : α → Value) (unset setting : α) : Prop :=
  stated = some (form setting) ∨ stated = none ∧ setting = unset

/-- Every setting is what the document says. -/
structure ReadFrom (entries : Entries) (s : Settings) : Prop where
  prompt :
    Says (stated? entries "shell" "prompt" 0) .string default.shell.prompt s.shell.prompt
  continuation :
    Says (stated? entries "shell" "continuation_prompt" 1) .string default.shell.continuation
      s.shell.continuation
  showBanner :
    Says (stated? entries "shell" "show_banner" 2) .boolean default.shell.showBanner
      s.shell.showBanner
  showTokens :
    Says (stated? entries "shell" "show_tokens" 3) .boolean default.shell.showTokens
      s.shell.showTokens
  level : Says (stated? entries "logging" "level" 0) .string default.level s.level

theorem group?_eq {read? : (String → Nat → Option Value) → Option α} {entries : Entries}
    {group : String} {result : α} (found : group? read? (entries.get? group) = some result) :
    read? (stated? entries group) = some result := by
  have place (get? : String → Nat → Option Value) (same : stated? entries group = get?)
      (read : read? get? = some result) : read? (stated? entries group) = some result := by
    rw [same, read]
  cases stated : entries.get? group with
  | none =>
    rw [stated] at found
    exact place _ (by funext key place; rw [stated?, stated]) found
  | some value =>
    rw [stated] at found
    cases value with
    | table origin settings => exact place _ (by funext key place; rw [stated?, stated]) found
    | array items => exact place _ (by funext key place; rw [stated?, stated]) found
    | tables rows => exact place _ (by funext key place; rw [stated?, stated]) found
    | string | boolean | integer | real | moment => cases found

theorem string?_inv (value : Value) (text : String) (read : string? value = some text) :
    value = .string text := by
  cases value with
  | string => exact congrArg Value.string (Option.some.inj read)
  | boolean | integer | real | moment | array | table | tables => cases read

theorem boolean?_inv (value : Value) (flag : Bool) (read : boolean? value = some flag) :
    value = .boolean flag := by
  cases value with
  | boolean => exact congrArg Value.boolean (Option.some.inj read)
  | string | integer | real | moment | array | table | tables => cases read

theorem says_of_optional? {read? : Value → Option α} {form : α → Value} {stated : Option Value}
    {unset setting : α} (inverse : ∀ value x, read? value = some x → value = form x)
    (found : optional? read? unset stated = some setting) : Says stated form unset setting := by
  cases stated with
  | none => exact .inr ⟨rfl, (Option.some.inj found).symm⟩
  | some value => exact .inl (congrArg some (inverse value setting found))

theorem readFrom_of_ofEntries? {entries : Entries} {s : Settings}
    (found : ofEntries? entries = some s) : ReadFrom entries s := by
  obtain ⟨shell, foundShell, found⟩ := Option.bind_eq_some_iff.mp found
  obtain ⟨level, foundLevel, found⟩ := Option.bind_eq_some_iff.mp found
  cases found
  obtain ⟨prompt, foundPrompt, found⟩ := Option.bind_eq_some_iff.mp (group?_eq foundShell)
  obtain ⟨continuation, foundContinuation, found⟩ := Option.bind_eq_some_iff.mp found
  obtain ⟨showBanner, foundBanner, found⟩ := Option.bind_eq_some_iff.mp found
  obtain ⟨showTokens, foundTokens, found⟩ := Option.bind_eq_some_iff.mp found
  cases found
  exact ⟨says_of_optional? string?_inv foundPrompt,
    says_of_optional? string?_inv foundContinuation,
    says_of_optional? boolean?_inv foundBanner, says_of_optional? boolean?_inv foundTokens,
    says_of_optional? string?_inv (group?_eq foundLevel)⟩

theorem overlay_unset [DecidableEq α] (unset lower : α) : overlay unset lower unset = lower :=
  if_pos rfl

end Settings

namespace Program

open Settings (ReadFrom)

/-- The file of settings in use. -/
def chosenFile? (config : Option String) (w : World) : Option String :=
  config <|> (if w.exists? defaultConfig then some defaultConfig else none)

/-- The settings of the file in use, or the defaults without one. -/
def Beneath (config : Option String) (w : World) (base : Settings) : Prop :=
  match chosenFile? config w with
  | none => base = .default
  | some path => ∃ bytes text entries, w.files path = .ok bytes ∧ bytes.toText? = some text ∧
      Toml.read? text = some entries ∧ ReadFrom entries base

theorem readFrom_of_readSettings {w : World} {path : String} {s : Settings}
    (found : readSettings w path = .ok s) :
    ∃ bytes text entries, w.files path = .ok bytes ∧ bytes.toText? = some text ∧
      Toml.read? text = some entries ∧ ReadFrom entries s := by
  unfold readSettings at found
  split at found
  next => cases found
  next bytes contents =>
    unfold Settings.ofFile at found
    split at found
    next => cases found
    next text isText =>
      split at found
      next => cases found
      next read =>
        cases found
        obtain ⟨entries, parsed, said⟩ := Option.bind_eq_some_iff.mp read
        exact ⟨bytes, text, entries, contents, isText, parsed,
          Settings.readFrom_of_ofEntries? said⟩

theorem beneath_of_baseSettings {config : Option String} {w : World} {base : Settings}
    (found : baseSettings config w = .ok base) : Beneath config w base := by
  unfold Beneath chosenFile?
  unfold baseSettings at found
  cases config with
  | some path => exact readFrom_of_readSettings found
  | none =>
    dsimp only at found
    split at found
    next present =>
      rw [if_pos present]
      exact readFrom_of_readSettings found
    next absent =>
      rw [if_neg absent]
      exact (Except.ok.inj found).symm

/-- A variable lies over a setting: it decides the setting unless it is missing or holds the
default. -/
structure Overlaid (named : Option String) (unset lower setting : String) : Prop where
  wins : ∀ value, named = some value → value ≠ unset → setting = value
  yields : named = none ∨ named = some unset → setting = lower

theorem overlaid_overlay (named : Option String) (unset lower : String) :
    Overlaid named unset lower (Settings.overlay unset lower (named.getD unset)) where
  wins := by
    rintro value rfl other
    exact if_neg other
  yields := by
    rintro (rfl | rfl)
    · exact if_pos rfl
    · exact if_pos rfl

theorem loadSettings_cases {config : Option String} {w : World} {s : Settings}
    (loaded : loadSettings config w = .ok s) :
    ∃ base, baseSettings config w = .ok base ∧
      s = base.merge (Settings.ofVariables w.environment) ∧ s.validate = .ok () := by
  unfold loadSettings at loaded
  cases found : baseSettings config w with
  | error fault =>
    rw [found] at loaded
    cases loaded
  | ok base =>
    rw [found] at loaded
    refine ⟨base, rfl, ?_⟩
    dsimp only [bind, Except.bind] at loaded
    split at loaded
    next valid =>
      cases loaded
      exact ⟨rfl, valid⟩
    next => cases loaded

/-- Loaded settings, layer by layer. Only what the file says decides whether the banner and the
tokens are shown. -/
theorem loadSettings_layers {config : Option String} {w : World} {s : Settings}
    (loaded : loadSettings config w = .ok s) :
    ∃ base, Beneath config w base ∧
      Overlaid (w.environment "MINIQL_PROMPT") Settings.default.shell.prompt
        base.shell.prompt s.shell.prompt ∧
      Overlaid (w.environment "MINIQL_CONTINUATION_PROMPT") Settings.default.shell.continuation
        base.shell.continuation s.shell.continuation ∧
      Overlaid (w.environment "MINIQL_LOG_LEVEL") Settings.default.level base.level s.level ∧
      s.shell.showBanner = base.shell.showBanner ∧
      s.shell.showTokens = base.shell.showTokens := by
  obtain ⟨base, found, rfl, -⟩ := loadSettings_cases loaded
  -- no variable speaks about the last two settings
  have banner := Settings.overlay_unset Settings.default.shell.showBanner base.shell.showBanner
  have tokens := Settings.overlay_unset Settings.default.shell.showTokens base.shell.showTokens
  exact ⟨base, beneath_of_baseSettings found, overlaid_overlay _ _ _, overlaid_overlay _ _ _,
    overlaid_overlay _ _ _, banner, tokens⟩

/-- A world with a file of settings where it is looked for, and some variables. -/
def worldOf (document : String) (named : List (String × String)) : World where
  environment name := named.lookup name
  files path := if path = defaultConfig then .ok (Bytes.ofText document) else .error .notFound
  input := []
  system := "Linux"
  architecture := "x86_64"

theorem loadSettings_eq_ok {config : Option String} {w : World} {s : Settings}
    (loaded : (loadSettings config w).toOption = some s) : loadSettings config w = .ok s := by
  cases found : loadSettings config w with
  | error fault =>
    rw [found] at loaded
    cases loaded
  | ok t =>
    rw [found] at loaded
    cases loaded
    rfl

theorem loadSettings_layers_mixed :
    let w := worldOf
      "[shell]\nprompt = \"> \"\ncontinuation_prompt = \"| \"\n[logging]\nlevel = \"debug\"\n"
      [("MINIQL_PROMPT", "sql> "), ("MINIQL_LOG_LEVEL", "warn")]
    loadSettings none w = .ok ⟨⟨"sql> ", "| ", true, true⟩, "debug"⟩ ∧
      ∃ base, Beneath none w base ∧
        Overlaid (some "sql> ") "miniql> " base.shell.prompt "sql> " ∧
        Overlaid none "     -> " base.shell.continuation "| " ∧
        Overlaid (some "warn") "warn" base.level "debug" ∧
        true = base.shell.showBanner ∧ true = base.shell.showTokens := by
  intro w
  have loaded : loadSettings none w = .ok ⟨⟨"sql> ", "| ", true, true⟩, "debug"⟩ :=
    loadSettings_eq_ok (by decide +kernel)
  exact ⟨loaded, loadSettings_layers loaded⟩

/-- Variables that hold the defaults do not win over a file that says otherwise. -/
theorem default_variables_yield :
    let w := worldOf
      "[shell]\nprompt = \"> \"\ncontinuation_prompt = \"| \"\n[logging]\nlevel = \"debug\"\n"
      [("MINIQL_PROMPT", "miniql> "), ("MINIQL_CONTINUATION_PROMPT", "     -> "),
       ("MINIQL_LOG_LEVEL", "warn")]
    ∃ s, loadSettings none w = .ok s ∧
      (∃ value, w.environment "MINIQL_PROMPT" = some value ∧ s.shell.prompt ≠ value) ∧
      (∃ value, w.environment "MINIQL_CONTINUATION_PROMPT" = some value ∧
        s.shell.continuation ≠ value) ∧
      ∃ value, w.environment "MINIQL_LOG_LEVEL" = some value ∧ s.level ≠ value := by
  intro w
  have loaded : loadSettings none w = .ok ⟨⟨"> ", "| ", true, true⟩, "debug"⟩ :=
    loadSettings_eq_ok (by decide +kernel)
  exact ⟨_, loaded, ⟨"miniql> ", rfl, by decide⟩, ⟨"     -> ", rfl, by decide⟩,
    ⟨"warn", rfl, by decide⟩⟩

end Program

end SqlConsole
