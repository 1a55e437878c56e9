import SqlConsole.Report.Tokenize
import SqlConsole.Settings.Basic
import SqlConsole.Shell.Buffer
import SqlConsole.Shell.Command

/-! A shell session. It asks for a line, answers it and asks again until it is told to leave,
meets the end of its input or a line that is not text. All it carries from line to line is the
buffer of the statement not yet complete. -/
namespace SqlConsole

namespace Shell

/-- The prompt for the next line. Output is flushed before the line is read. -/
def ask (settings : ShellSettings) (buffer : Buffer) : List Action :=
  [.write (if buffer.isEmpty then settings.prompt else settings.continuation), .flush]

/-- The answer to a complete statement: its faults, and its tokens if they are to be shown. -/
def answer (settings : ShellSettings) (statement : String) : List Action :=
  let output := scan statement
  .log ⟨.debug, Log.shellTarget, "Запрос: " ++ statement⟩ ::
    (Report.records output ++ Report.faultLines output ++
      if settings.showTokens then Report.tableLines output else [])

/-- What follows a line: the session goes on with some buffer, or the rest of it is known. -/
inductive Reply where
  | goOn (actions : List Action) (buffer : Buffer)
  | stop (rest : Run)

/-- The reply to a line without white space at its ends. Empty lines and commands are
recognised only where a statement could begin. -/
def reply (settings : ShellSettings) (buffer : Buffer) (line : String) : Reply :=
  if buffer.isEmpty ∧ line = "" then .goOn [] buffer
  else if buffer.isEmpty ∧ line.toList.head? = some '.' then
    let command := Command.ofLine line
    let actions := .log ⟨.debug, Log.shellTarget, "Мета-команда: " ++ line⟩ ::
      command.response line
    if command = .leave then .stop ⟨actions ++ [.flush], .ok ()⟩ else .goOn actions buffer
  else match buffer.push line with
    | (next, some statement) => .goOn (answer settings statement) next
    | (next, none) => .goOn [] next

/-- The reply to a line as it was read. -/
def replyRaw (settings : ShellSettings) (buffer : Buffer) (raw : Bytes) : Reply :=
  match raw.toText? with
  | none => .stop (Run.fail (.io .notText))
  | some line => reply settings buffer (trim line)

/-- What follows the end of the input. A statement not complete is dropped. -/
def ending : Run := ⟨[.write "\n", .flush], .ok ()⟩

/-- The session from some buffer on, over the lines still to come. -/
def session (settings : ShellSettings) : Buffer → List Bytes → Run
  | buffer, [] => ending.after (ask settings buffer)
  | buffer, raw :: rest =>
    match replyRaw settings buffer raw with
    | .stop final => final.after (ask settings buffer)
    | .goOn actions next => (session settings next rest).after (ask settings buffer ++ actions)

/-- What comes before the first prompt. -/
def opening (settings : ShellSettings) : List Action :=
  if settings.showBanner then banner else []

/-- A whole session over an input. -/
def run (settings : ShellSettings) (input : Bytes) : Run :=
  (session settings .empty input.lines).after (opening settings)

end Shell

end SqlConsole
