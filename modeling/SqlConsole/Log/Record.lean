/-! Log records: a level, the part of the program that reports, and a message. -/
namespace SqlConsole

namespace Log

inductive Level where
  | error | warn | info | debug | trace
  deriving DecidableEq, Repr

/-- Greater for less urgent levels. -/
def Level.rank : Level → Nat
  | error => 1 | warn => 2 | info => 3 | debug => 4 | trace => 5

def Level.name : Level → String
  | error => "ERROR" | warn => "WARN" | info => "INFO" | debug => "DEBUG" | trace => "TRACE"

structure Record where
  level : Level
  target : String
  message : String
  deriving DecidableEq, Repr

def scannerTarget : String := "miniql::lexer::scanner"

def shellTarget : String := "miniql::shell::repl"

def programTarget : String := "miniql::cli"

/-- The level in five columns; further lines of the message are indented. -/
def Record.line (r : Record) : String :=
  let level := r.level.name
  let padding := String.ofList (List.replicate (5 - level.length) ' ')
  let message := String.ofList (r.message.toList.flatMap fun c =>
    if c = '\n' then ['\n', ' ', ' ', ' ', ' '] else [c])
  "[" ++ level ++ padding ++ " " ++ r.target ++ "] " ++ message ++ "\n"

end Log

end SqlConsole
