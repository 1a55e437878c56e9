import SqlConsole.Fault
import SqlConsole.Text.Letter

/-! Settings of the program: their defaults, layering and validity. A field of a layer counts
as set when it differs from its default. -/
namespace SqlConsole

structure ShellSettings where
  prompt : String
  /-- The prompt inside a statement of several lines. -/
  continuation : String
  showBanner : Bool
  showTokens : Bool
  deriving DecidableEq, Repr

structure Settings where
  shell : ShellSettings
  /-- Name of the least urgent log level that is shown. -/
  level : String
  deriving DecidableEq, Repr

def ShellSettings.default : ShellSettings := ⟨"miniql> ", "     -> ", true, true⟩

namespace Settings

def default : Settings := ⟨.default, "warn"⟩

/-- A field of the upper layer if it is set, else the lower one's. -/
def overlay [DecidableEq α] (unset lower upper : α) : α := if upper = unset then lower else upper

/-- Every set field of `upper` over `lower`. -/
def merge (lower upper : Settings) : Settings where
  shell :=
    { prompt := overlay default.shell.prompt lower.shell.prompt upper.shell.prompt
      continuation :=
        overlay default.shell.continuation lower.shell.continuation upper.shell.continuation
      showBanner :=
        overlay default.shell.showBanner lower.shell.showBanner upper.shell.showBanner
      showTokens :=
        overlay default.shell.showTokens lower.shell.showTokens upper.shell.showTokens }
  level := overlay default.level lower.level upper.level

/-- The layer that the environment variables make. -/
def ofVariables (lookup : String → Option String) : Settings where
  shell :=
    { ShellSettings.default with
      prompt := (lookup "MINIQL_PROMPT").getD default.shell.prompt
      continuation := (lookup "MINIQL_CONTINUATION_PROMPT").getD default.shell.continuation }
  level := (lookup "MINIQL_LOG_LEVEL").getD default.level

/-- Prompts must not be empty and the level must be known, in any case. -/
def validate (s : Settings) : Except SettingsCause Unit :=
  if s.shell.prompt.isEmpty then .error .emptyPrompt
  else if s.shell.continuation.isEmpty then .error .emptyContinuation
  else if smalls s.level ∈ logLevels then .ok ()
  else .error (.unknownLevel s.level)

end Settings

end SqlConsole
