import SqlConsole.CommandLine.Scope
import SqlConsole.Report.Tokenize

/-! What the program is asked to do, read from its arguments: options for the whole program,
then a command with options and arguments of its own. -/
namespace SqlConsole

inductive Task where
  | shell
  | tokenize (sql : String) (form : ReportForm)
  | file (path : String) (form : ReportForm)
  | info
  deriving DecidableEq, Repr

structure Invocation where
  /-- Path of the configuration file. -/
  config : Option String
  logLevel : Option String
  /-- Without a task the shell is run. -/
  task : Option Task
  deriving DecidableEq, Repr

namespace CommandLine

def helpOption : Option Char × String × Switch := (some 'h', "help", .help)

def formatOption : Option Char × String × Switch := (some 'f', "format", .takes .format)

def commandNames : List String := ["shell", "tokenize", "file", "info", "help"]

def programScope : Scope where
  options := [(some 'c', "config", .takes .config), (none, "log-level", .takes .logLevel),
    helpOption, (some 'V', "version", .version)]
  positional := none
  nested := commandNames

def plainScope : Scope := ⟨[helpOption], none, []⟩

def reportScope (slot : Slot) : Scope := ⟨[formatOption, helpOption], some slot, []⟩

def formOf (p : Progress) : ReportForm :=
  if p.value? .format = some "json" then .structured else .table

/-- Help for a command, or for a command of that one, and so on. Only the program itself has
commands. -/
def helpFor : List String → Usage
  | [] => .displayHelp
  | [name] => if name ∈ commandNames then .displayHelp else .invalidSubcommand
  | _ => .invalidSubcommand

/-- The task that a command with its arguments stands for. -/
def taskOf (name : String) (args : List String) : Except Usage Task := do
  match name with
  | "shell" => let _ ← plainScope.read args; return .shell
  | "tokenize" =>
    let p ← (reportScope .sql).read args
    return .tokenize ((p.value? .sql).getD "") (formOf p)
  | "file" =>
    let p ← (reportScope .path).read args
    return .file ((p.value? .path).getD "") (formOf p)
  | "info" => let _ ← plainScope.read args; return .info
  | _ => throw (helpFor args)

/-- Reads on from the program's own arguments. A command ends them, and its faults are
reported before theirs. -/
def readFrom (p : Progress) : List String → Except Usage (Progress × Option Task)
  | [] => do return (← p.settle, none)
  | arg :: rest =>
    if !p.trailing ∧ !p.isWaiting ∧ arg ∈ commandNames then do
      let task ← taskOf arg rest
      return (← p.settle, some task)
    else do readFrom (← programScope.step p arg) rest

/-- Reads the arguments of the program. -/
def read (args : List String) : Except Usage Invocation := do
  let (p, task) ← readFrom .start args
  return ⟨p.value? .config, p.value? .logLevel, task⟩

end CommandLine

end SqlConsole
