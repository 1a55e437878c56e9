import SqlConsole.Text.Letter

/-! The reserved words of the query language and their lookup, which ignores the case of
ASCII letters and of no others. -/
namespace SqlConsole

inductive Keyword where
  | SELECT | INSERT | UPDATE | DELETE | CREATE | DROP | TABLE
  | FROM | WHERE | INTO | VALUES
  | AND | OR | NOT | AS
  | JOIN | LEFT | RIGHT | INNER | OUTER | ON
  | ORDER | BY | GROUP | HAVING | LIMIT | OFFSET | ASC | DESC
  | PRIMARY | KEY | FOREIGN | REFERENCES | UNIQUE | INDEX | NULL
  | INT | TEXT | REAL | BLOB | DATE | TIMESTAMP
  deriving DecidableEq, Repr

namespace Keyword

def all : List Keyword :=
  [SELECT, INSERT, UPDATE, DELETE, CREATE, DROP, TABLE,
   FROM, WHERE, INTO, VALUES,
   AND, OR, NOT, AS,
   JOIN, LEFT, RIGHT, INNER, OUTER, ON,
   ORDER, BY, GROUP, HAVING, LIMIT, OFFSET, ASC, DESC,
   PRIMARY, KEY, FOREIGN, REFERENCES, UNIQUE, INDEX, NULL,
   INT, TEXT, REAL, BLOB, DATE, TIMESTAMP]

/-- The word in capitals. -/
def name : Keyword → String
  | SELECT => "SELECT" | INSERT => "INSERT" | UPDATE => "UPDATE" | DELETE => "DELETE"
  | CREATE => "CREATE" | DROP => "DROP" | TABLE => "TABLE"
  | FROM => "FROM" | WHERE => "WHERE" | INTO => "INTO" | VALUES => "VALUES"
  | AND => "AND" | OR => "OR" | NOT => "NOT" | AS => "AS"
  | JOIN => "JOIN" | LEFT => "LEFT" | RIGHT => "RIGHT" | INNER => "INNER"
  | OUTER => "OUTER" | ON => "ON"
  | ORDER => "ORDER" | BY => "BY" | GROUP => "GROUP" | HAVING => "HAVING"
  | LIMIT => "LIMIT" | OFFSET => "OFFSET" | ASC => "ASC" | DESC => "DESC"
  | PRIMARY => "PRIMARY" | KEY => "KEY" | FOREIGN => "FOREIGN"
  | REFERENCES => "REFERENCES" | UNIQUE => "UNIQUE" | INDEX => "INDEX" | NULL => "NULL"
  | INT => "INT" | TEXT => "TEXT" | REAL => "REAL" | BLOB => "BLOB"
  | DATE => "DATE" | TIMESTAMP => "TIMESTAMP"

/-- The spellings under which words are looked up. -/
def spellings : List (String × Keyword) :=
  [("SELECT", SELECT), ("INSERT", INSERT), ("UPDATE", UPDATE), ("DELETE", DELETE),
   ("CREATE", CREATE), ("DROP", DROP), ("TABLE", TABLE),
   ("FROM", FROM), ("WHERE", WHERE), ("INTO", INTO), ("VALUES", VALUES),
   ("AND", AND), ("OR", OR), ("NOT", NOT),
   ("JOIN", JOIN), ("LEFT", LEFT), ("RIGHT", RIGHT), ("INNER", INNER), ("OUTER", OUTER),
   ("ON", ON),
   ("ORDER", ORDER), ("BY", BY), ("GROUP", GROUP), ("HAVING", HAVING), ("ASC", ASC),
   ("DESC", DESC), ("LIMIT", LIMIT), ("OFFSET", OFFSET),
   ("PRIMARY", PRIMARY), ("KEY", KEY), ("FOREIGN", FOREIGN), ("REFERENCES", REFERENCES),
   ("UNIQUE", UNIQUE), ("INDEX", INDEX), ("NULL", NULL),
   ("INT", INT), ("TEXT", TEXT), ("REAL", REAL), ("BLOB", BLOB), ("DATE", DATE),
   ("TIMESTAMP", TIMESTAMP),
   ("AS", AS)]

/-- The keyword that `word` spells in some mixture of capitals and small letters. -/
def ofWord? (word : String) : Option Keyword := spellings.lookup (capitals word)

theorem mem_all (k : Keyword) : k ∈ all := by
  cases k <;> decide

end Keyword

end SqlConsole
