import SqlConsole.Scan.Fault

/-! Why a run fails, and how each cause is told. -/
namespace SqlConsole

inductive IoCause where
  | notFound
  | notDirectory
  | isDirectory
  | notText
  | outputFull
  | flushFailed
  /-- What the system says about a path that cannot be followed to its end for any other reason,
  such as a loop of links or a folder that may not be searched. -/
  | unreachable (text : String)
  /-- What the system says about any other failure. -/
  | other (text : String)
  deriving DecidableEq, Repr

def IoCause.message : IoCause → String
  | notFound => "No such file or directory (os error 2)"
  | notDirectory => "Not a directory (os error 20)"
  | isDirectory => "Is a directory (os error 21)"
  | notText => "stream did not contain valid UTF-8"
  | outputFull => "failed to write whole buffer"
  | flushFailed => "flush failed"
  | unreachable text | other text => text

/-- The levels a configuration may name, in small letters. -/
def logLevels : List String := ["off", "error", "warn", "info", "debug", "trace"]

inductive SettingsCause where
  | emptyPrompt
  | emptyContinuation
  | unknownLevel (level : String)
  deriving DecidableEq, Repr

def SettingsCause.message : SettingsCause → String
  | emptyPrompt => "Prompt cannot be empty"
  | emptyContinuation => "Continuation prompt cannot be empty"
  | unknownLevel level =>
    "Unknown log level '" ++ level ++ "', expected one of: " ++ ", ".intercalate logLevels

inductive Fault where
  | io (cause : IoCause)
  /-- A structured report could not be written. -/
  | serialization (cause : IoCause)
  /-- A configuration file is not one. -/
  | malformedSettings
  | settings (cause : SettingsCause)
  /-- A text with scan faults: how many, and the first of them. -/
  | lexical (count : Nat) (first : Option ScanFault)
  deriving DecidableEq, Repr

namespace Fault

def ofScanFaults (faults : List ScanFault) : Fault := .lexical faults.length faults.head?

def message : Fault → String
  | io cause => "I/O error: " ++ cause.message
  | serialization cause => "Serialization error: " ++ cause.message
  | malformedSettings => "Configuration parse error: not a configuration document"
  | settings cause => "Configuration error: " ++ cause.message
  | lexical count first =>
    "Lexical analysis failed with " ++ toString count ++ " error(s), first: " ++
      (first.map toString).getD ""

/-- The message followed by the cause behind it, where there is one. -/
def chain (f : Fault) : String :=
  match f with
  | io cause | serialization cause => f.message ++ ": " ++ cause.message
  | _ => f.message

end Fault

end SqlConsole
