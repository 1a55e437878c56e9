import SqlConsole.CommandLine.Invocation
import SqlConsole.Log.Filter
import SqlConsole.Settings.Document
import SqlConsole.Shell.Session

/-! The whole program: settings are loaded, then the task is run, and the result becomes an
exit code. Texts with scan faults have a code of their own and no message, because their
report has told the faults already. -/
namespace SqlConsole

/-- What the program finds around it. -/
structure World where
  /-- The environment variables that are text. -/
  environment : String → Option String
  files : String → Except IoCause Bytes
  input : Bytes
  system : String
  architecture : String

namespace World

/-- Whether something stands at a path, be it a file or not and whether or not it can be read. A
path that cannot be followed to its end has nothing there. -/
def exists? (w : World) (path : String) : Bool :=
  match w.files path with
  | .error .notFound | .error .notDirectory | .error (.unreachable _) => false
  | _ => true

/-- The world with a variable of the environment set to a value, or not set. -/
def withVariable (w : World) (name : String) (value : Option String) : World :=
  { w with environment := fun other => if other = name then value else w.environment other }

end World

def defaultConfig : String := "miniql.toml"

/-- What the program tells besides its output. -/
inductive Message where
  /-- A complaint about a log specification. -/
  | warning (text : String)
  | record (entry : Log.Record)
  /-- The report of what a run has failed from. -/
  | fatal (chain : String)
  deriving DecidableEq, Repr

def Message.text : Message → String
  | warning text => text
  | record entry => entry.line
  | fatal chain => "Fatal error: " ++ chain ++ "\n"

namespace Program

def readSettings (w : World) (path : String) : Except Fault Settings :=
  match w.files path with
  | .error cause => .error (.io cause)
  | .ok bytes => Settings.ofFile bytes

/-- The layer below the environment: the file asked for, else the default file if there is
one, else the defaults. -/
def baseSettings (config : Option String) (w : World) : Except Fault Settings :=
  match config with
  | some path => readSettings w path
  | none => if w.exists? defaultConfig then readSettings w defaultConfig else .ok .default

def loadSettings (config : Option String) (w : World) : Except Fault Settings := do
  let settings := (← baseSettings config w).merge (Settings.ofVariables w.environment)
  match settings.validate with
  | .ok () => return settings
  | .error cause => throw (.settings cause)

/-- Reads a file and reports on the text in it. -/
def reportFile (form : ReportForm) (path : String) (w : World) : Run :=
  let reading : Action := .log ⟨.info, Log.programTarget, "Чтение файла " ++ path⟩
  let report := match w.files path with
    | .error cause => Run.fail (.io cause)
    | .ok bytes =>
      match bytes.toText? with
      | none => Run.fail (.io .notText)
      | some sql => tokenize form sql
  report.after [reading]

def info (w : World) : Run :=
  ⟨[.write ("MiniQL " ++ Shell.version ++ "\n"),
    .write ("Keywords: " ++ toString Keyword.all.length ++ "\n"),
    .write ("OS: " ++ w.system ++ "\n"),
    .write ("Architecture: " ++ w.architecture ++ "\n")], .ok ()⟩

def runTask (settings : Settings) (task : Option Task) (w : World) : Run :=
  match task with
  | none | some .shell => Shell.run settings.shell w.input
  | some (.tokenize sql form) => tokenize form sql
  | some (.file path form) => reportFile form path w
  | some .info => info w

/-- The log specifications in order of their weight, the last one weighing most. -/
def logSpecs (settings : Settings) (logLevel : Option String) (w : World) : List String :=
  settings.level :: ((w.environment "RUST_LOG").toList ++ logLevel.toList)

def exitCode : Except Fault Unit → Nat
  | .ok () => 0
  | .error (.lexical _ _) => 2
  | .error _ => 1

/-- The last message of a failing run. Scan faults need none. -/
def farewell : Except Fault Unit → List Message
  | .ok () | .error (.lexical _ _) => []
  | .error fault => [.fatal fault.chain]

def loadFailure (fault : Fault) : Message :=
  .fatal ("failed to load configuration: " ++ fault.chain)

/-- The answer to a question for the version. -/
def versionLine : String := "miniql " ++ Shell.version ++ "\n"

structure Outcome where
  code : Nat
  stdout : Bytes
  messages : List Message

def Outcome.stderr (outcome : Outcome) : String :=
  String.join (outcome.messages.map Message.text)

/-- The log filter of a run, and the warnings about specifications that cannot be read. -/
def logFilter (settings : Settings) (logLevel : Option String) (w : World) :
    Log.Filter × List String :=
  Log.Filter.empty.addAll (logSpecs settings logLevel w)

/-- What is told of a run before its end: complaints about log specifications, and the records
that are shown. -/
def logged (settings : Settings) (logLevel : Option String) (run : Run) (w : World) :
    List Message :=
  let (filter, warnings) := logFilter settings logLevel w
  warnings.map .warning ++ (run.records.filter filter.admits).map .record

/-- Runs the program for arguments that were understood. -/
def execute (invocation : Invocation) (w : World) : Outcome :=
  match loadSettings invocation.config w with
  | .error fault => ⟨1, [], [loadFailure fault]⟩
  | .ok settings =>
    let run := runTask settings invocation.task w
    ⟨exitCode run.result, run.output,
      logged settings invocation.logLevel run w ++ farewell run.result⟩

end Program

end SqlConsole
