import SqlConsole.Output.Action
import SqlConsole.Text.Space

/-! The shell's own commands: lines that begin with a dot where a statement could begin. The
first word of the line says which command it is. -/
namespace SqlConsole

namespace Shell

def version : String := "0.1.0"

inductive Command where
  | leave | help | tables | schema | unknown
  deriving DecidableEq, Repr

def Command.ofLine (line : String) : Command :=
  match firstWord line with
  | ".exit" | ".quit" => .leave
  | ".help" => .help
  | ".tables" => .tables
  | ".schema" => .schema
  | _ => .unknown

def banner : List Action :=
  [.write ("MiniQL v" ++ version ++ " - Mini SQL Database Engine\n"),
   .write "Type \".help\" for usage hints.\n",
   .write "Type \".exit\" to quit.\n",
   .write "\n"]

def helpText : String :=
  "MiniQL Meta Commands:\n" ++
  "  .help              Show this help message\n" ++
  "  .exit              Exit the program\n" ++
  "  .quit              Exit the program\n" ++
  "  .tables            List all tables\n" ++
  "  .schema <table>    Show schema of a table\n" ++
  "\n" ++
  "SQL statements are tokenized and the tokens are printed, for example:\n" ++
  "  CREATE TABLE name (col1 INT, col2 TEXT);\n" ++
  "  INSERT INTO name VALUES (1, 'text');\n" ++
  "  SELECT * FROM name;\n" ++
  "  SELECT col FROM name WHERE col = value;\n" ++
  "  DELETE FROM name WHERE col = value;\n" ++
  "\n" ++
  "Note: SQL statements must end with a semicolon (;)\n"

/-- What the command that `line` gives puts out. -/
def Command.response (line : String) : Command → List Action
  | leave => [.write "Goodbye!\n"]
  | help => [.write "\n", .write helpText, .write "\n"]
  | tables => [.write "No tables yet.\n", .write "(Database engine not implemented)\n"]
  | schema => [.write "Schema command not implemented yet.\n"]
  | unknown =>
    [.write ("Unknown command: " ++ line ++ "\n"),
     .write "Type .help for available commands.\n"]

end Shell

end SqlConsole
