import SqlConsole.Settings.Basic
import SqlConsole.Text.Bytes
import SqlConsole.Toml.Document
import SqlConsole.Toml.Writer

/-! Settings as configuration documents. Reading fills in defaults for what the document leaves
out, passes over keys it does not know and refuses values of the wrong type. In place of a
table of settings a list of them is accepted too, in the order in which they are written. -/
namespace SqlConsole

namespace Settings

open Toml

def string? : Value → Option String
  | .string text => some text
  | _ => none

def boolean? : Value → Option Bool
  | .boolean value => some value
  | _ => none

/-- A setting that may be missing but must not have a value of another type. -/
def optional? (read? : Value → Option α) (default : α) : Option Value → Option α
  | none => some default
  | some value => read? value

/-- The shell's settings, looked up by key and by place in the order of writing. -/
def shellOf? (get? : String → Nat → Option Value) : Option ShellSettings := do
  let unset := ShellSettings.default
  return {
    prompt := ← optional? string? unset.prompt (get? "prompt" 0)
    continuation := ← optional? string? unset.continuation (get? "continuation_prompt" 1)
    showBanner := ← optional? boolean? unset.showBanner (get? "show_banner" 2)
    showTokens := ← optional? boolean? unset.showTokens (get? "show_tokens" 3) }

def levelOf? (get? : String → Nat → Option Value) : Option String :=
  optional? string? default.level (get? "level" 0)

/-- A group of settings: a table of them by key, or a list of them by place. Repeated tables
are a list of tables. -/
def group? (read? : (String → Nat → Option Value) → Option α) : Option Value → Option α
  | none => read? fun _ _ => none
  | some (.table _ entries) => read? fun key _ => Entries.get? entries key
  | some (.array items) => read? fun _ place => items[place]?
  | some (.tables rows) => read? fun _ place => (rows.map (Value.table .header))[place]?
  | some _ => none

def ofEntries? (entries : Entries) : Option Settings := do
  return {
    shell := ← group? shellOf? (entries.get? "shell")
    level := ← group? levelOf? (entries.get? "logging") }

/-- The settings that a document holds. -/
def ofDocument? (text : String) : Option Settings := (read? text).bind ofEntries?

/-- The document that holds all settings. -/
def document (s : Settings) : String :=
  String.ofList (
    Writer.header "shell" ++
    Writer.entry "prompt" (Writer.string s.shell.prompt.toList) ++
    Writer.entry "continuation_prompt" (Writer.string s.shell.continuation.toList) ++
    Writer.entry "show_banner" (Writer.boolean s.shell.showBanner) ++
    Writer.entry "show_tokens" (Writer.boolean s.shell.showTokens) ++
    '\n' :: Writer.header "logging" ++
    Writer.entry "level" (Writer.string s.level.toList))

/-- The settings in the contents of a file. -/
def ofFile (bytes : Bytes) : Except Fault Settings :=
  match bytes.toText? with
  | none => .error (.io .notText)
  | some text =>
    match ofDocument? text with
    | none => .error .malformedSettings
    | some s => .ok s

def file (s : Settings) : Bytes := Bytes.ofText s.document

end Settings

end SqlConsole
