import SqlConsole.Program

/-! The program at work: real files, environment, streams and exit code around `Program`. Only
what reads or writes is here. -/
namespace SqlConsole

namespace Main

/-- A folder that may not be searched is not told apart from a file that may not be read. -/
def causeOf : IO.Error → IoCause
  | .noFileOrDirectory _ _ _ => .notFound
  | .inappropriateType _ 21 _ => .isDirectory
  | .inappropriateType _ _ _ => .notDirectory
  -- a name that is too long, and a loop of links
  | e@(.invalidArgument _ 36 _) | e@(.invalidArgument _ 40 _) => .unreachable (toString e)
  | e => .other (toString e)

def readFile (path : String) : IO (Except IoCause Bytes) := do
  try
    let contents ← IO.FS.readBinFile path
    return .ok contents.data.toList
  catch e => return .error (causeOf e)

/-- The first line of a system file, or a word that says that there is none. -/
def systemWord (path : String) : IO String := do
  match ← readFile path with
  | .ok bytes => return trim ((Bytes.toText? bytes).getD "unknown")
  | .error _ => return "unknown"

/-- The files that an invocation may need, read beforehand. -/
def worldFor (invocation : Invocation) : IO World := do
  let named := match invocation.task with
    | some (.file path _) => [path]
    | _ => []
  let paths := invocation.config.getD defaultConfig :: named
  let contents ← paths.mapM fun path => do return (path, ← readFile path)
  let names := ["MINIQL_PROMPT", "MINIQL_CONTINUATION_PROMPT", "MINIQL_LOG_LEVEL", "RUST_LOG"]
  let values ← names.mapM fun name => do return (name, ← IO.getEnv name)
  return {
    environment := fun name => (values.lookup name).join
    files := fun path => (contents.lookup path).getD (.error .notFound)
    input := []
    system := ← systemWord "/proc/sys/kernel/ostype"
    architecture := ← systemWord "/proc/sys/kernel/arch" }

def tell (message : Message) : IO Unit := IO.eprint message.text

def perform (filter : Log.Filter) (out : IO.FS.Stream) : Action → IO Unit
  | .write text | .document text => out.putStr text
  | .flush => out.flush
  | .log record => do if filter.admits record then tell (.record record)

/-- Performs a run; an action that fails ends it. -/
def performAll (filter : Log.Filter) (out : IO.FS.Stream) (run : Run) :
    IO (Except Fault Unit) := do
  try
    run.actions.forM (perform filter out)
    return run.result
  catch e => return .error (.io (causeOf e))

/-- The next line with its newline, byte by byte, or nothing at the end of the input. -/
partial def readLine (input : IO.FS.Stream) (line : Bytes) : IO Bytes := do
  let next ← input.read 1
  match next.data.toList with
  | [] => return line.reverse
  | b :: _ => if b = Bytes.newline then return (b :: line).reverse else readLine input (b :: line)

/-- A session that answers each line before it reads the next one. -/
partial def converse (settings : ShellSettings) (filter : Log.Filter) (input out : IO.FS.Stream)
    (buffer : Buffer) : IO (Except Fault Unit) := do
  let asked ← performAll filter out (Run.done.after (Shell.ask settings buffer))
  if let .error fault := asked then return .error fault
  let raw ← readLine input []
  if raw.isEmpty then performAll filter out Shell.ending
  else
    match Shell.replyRaw settings buffer raw with
    | .stop final => performAll filter out final
    | .goOn actions next => do
      let answered ← performAll filter out (Run.done.after actions)
      if let .error fault := answered then return .error fault
      converse settings filter input out next

def runInvocation (invocation : Invocation) : IO UInt32 := do
  let world ← worldFor invocation
  match Program.loadSettings invocation.config world with
  | .error fault =>
    tell (Program.loadFailure fault)
    return 1
  | .ok settings =>
    let (filter, warnings) := Program.logFilter settings invocation.logLevel world
    warnings.forM fun text => tell (.warning text)
    let out ← IO.getStdout
    let result ← match invocation.task with
      | none | some .shell => do
        let opened ← performAll filter out (Run.done.after (Shell.opening settings.shell))
        if let .error fault := opened then pure (.error fault)
        else converse settings.shell filter (← IO.getStdin) out .empty
      | task => performAll filter out (Program.runTask settings task world)
    (Program.farewell result).forM tell
    return (Program.exitCode result).toUInt32

def usageText : String :=
  "Usage: miniql [OPTIONS] [COMMAND]\n\n" ++
  "Commands:\n" ++
  "  shell            Run the interactive shell (default)\n" ++
  "  tokenize <SQL>   Scan a query and report its tokens\n" ++
  "  file <PATH>      Scan the query in a file and report its tokens\n" ++
  "  info             Show program information\n" ++
  "  help             Show this text\n\n" ++
  "Options:\n" ++
  "  -c, --config <CONFIG>    Configuration file\n" ++
  "      --log-level <LEVEL>  Log filter\n" ++
  "  -f, --format <FORMAT>    Report form of tokenize and file: table or json\n" ++
  "  -h, --help               Show this text\n" ++
  "  -V, --version            Show the version\n"

def refuse (usage : Usage) : IO UInt32 := do
  match usage with
  | .displayHelp => IO.print usageText
  | .displayVersion => IO.print Program.versionLine
  | _ => IO.eprint ("error: invalid arguments\n\n" ++ usageText)
  return usage.exitCode.toUInt32

end Main

end SqlConsole

def main (args : List String) : IO UInt32 := do
  match SqlConsole.CommandLine.read args with
  | .error usage => SqlConsole.Main.refuse usage
  | .ok invocation => SqlConsole.Main.runInvocation invocation
