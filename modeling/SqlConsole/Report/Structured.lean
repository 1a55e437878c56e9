import SqlConsole.Json.Printer
import SqlConsole.Scan.Basic

/-! Tokens and scans as structured values. A token keeps the order of its own fields; in the
report of a scan the members of every object are in alphabetical order. -/
namespace SqlConsole

def Position.toJson (p : Position) : Json :=
  .object [("line", .natural p.line), ("column", .natural p.column),
    ("offset", .natural p.offset)]

/-- A token on its own. The member `number` is there only when the token carries one. -/
def Token.toJson (t : Token) : Json :=
  .object ([("token_type", .string t.kind.name), ("value", .string t.value),
    ("position", t.position.toJson)] ++ (t.number.map fun x => ("number", .real x)).toList)

namespace Report

def position (p : Position) : Json :=
  .object [("column", .natural p.column), ("line", .natural p.line),
    ("offset", .natural p.offset)]

def token (t : Token) : Json :=
  .object ((t.number.map fun x => ("number", .real x)).toList ++
    [("position", position t.position), ("token_type", .string t.kind.name),
     ("value", .string t.value)])

def fault (f : ScanFault) : Json :=
  .object [("column", .natural f.position.column), ("line", .natural f.position.line),
    ("message", .string f.cause.message)]

def scan (output : ScanOutput) : Json :=
  .object [("errors", .array (output.faults.map fault)),
    ("tokens", .array (output.tokens.map token))]

/-- The report of a scan as a document without its final newline. -/
def document (output : ScanOutput) : String := String.ofList ((scan output).pretty 0)

end Report

end SqlConsole
