import SqlConsole.Report.Writing
import SqlConsole.Shell.Session

/-! A session as it is held, call by call. -/
namespace SqlConsole

namespace Shell

open Out

def showPrompt (settings : ShellSettings) (buffer : Buffer) : Out Unit := do
  write (if buffer.isEmpty then settings.prompt else settings.continuation)
  flush

/-- The text of a line without white space at its ends. -/
def readText (raw : Bytes) : Out String := do
  match raw.toText? with
  | some line => return trim line
  | none => throw (.io .notText)

/-- Carries out a command and tells whether the session goes on. -/
def processCommand (line : String) : Out Bool := do
  log ⟨.debug, Log.shellTarget, "Мета-команда: " ++ line⟩
  let command := Command.ofLine line
  performAll (command.response line)
  return command ≠ .leave

def processStatement (settings : ShellSettings) (statement : String) : Out Unit := do
  log ⟨.debug, Log.shellTarget, "Запрос: " ++ statement⟩
  let output ← scanLogged statement
  Report.writeFaults output
  if settings.showTokens then
    write (Table.render output.tokens)

def loop (settings : ShellSettings) : Buffer → List Bytes → Out Unit
  | buffer, [] => do
    showPrompt settings buffer
    write "\n"
  | buffer, raw :: rest => do
    showPrompt settings buffer
    let line ← readText raw
    if buffer.isEmpty ∧ line = "" then
      loop settings buffer rest
    else if buffer.isEmpty ∧ line.toList.head? = some '.' then
      if ← processCommand line then
        loop settings buffer rest
    else
      let (next, statement) := buffer.push line
      if let some statement := statement then
        processStatement settings statement
      loop settings next rest

/-- A whole session over an input. -/
def converse (settings : ShellSettings) (input : Bytes) : Out Unit := do
  if settings.showBanner then
    performAll banner
  loop settings .empty input.lines
  flush

end Shell

end SqlConsole
