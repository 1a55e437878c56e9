import SqlConsole.Scan.Basic

/-! Scans as text for people: a framed table of tokens and a list of faults. Cells are padded
to their width in characters and never cut, so a long value makes its row wider. -/
namespace SqlConsole

namespace Table

def kindWidth : Nat := 18

def valueWidth : Nat := 25

def numberWidth : Nat := 8

/-- Spaces up to `width` characters. -/
def pad (width : Nat) (text : List Char) : List Char :=
  text ++ List.replicate (width - text.length) ' '

def dashes (width : Nat) : List Char := List.replicate (width + 2) '-'

def frame : List Char :=
  '+' :: dashes kindWidth ++ '+' :: dashes valueWidth ++ '+' :: dashes numberWidth ++
    '+' :: dashes numberWidth ++ ['+', '\n']

def row (kind value line column : List Char) : List Char :=
  '|' :: ' ' :: pad kindWidth kind ++ ' ' :: '|' :: ' ' :: pad valueWidth value ++
    ' ' :: '|' :: ' ' :: pad numberWidth line ++ ' ' :: '|' :: ' ' :: pad numberWidth column ++
    [' ', '|', '\n']

def header : List Char :=
  row "TOKEN TYPE".toList "LEXEME".toList "LINE".toList "COLUMN".toList

/-- A newline within a value is shown as a backslash and an `n`, so a row is one line. -/
def showNewlines (value : List Char) : List Char :=
  value.flatMap fun c => if c = '\n' then ['\\', 'n'] else [c]

def tokenRow (t : Token) : List Char :=
  row t.kind.displayName.toList ('\'' :: (showNewlines t.value.toList ++ ['\'']))
    (Nat.toDigits 10 t.position.line) (Nat.toDigits 10 t.position.column)

/-- The table of the tokens before the first end token. -/
def render (tokens : List Token) : String :=
  String.ofList (frame ++ header ++ frame ++
    (tokens.takeWhile fun t => !t.isEnd).flatMap tokenRow ++ frame)

/-- One line for every fault. -/
def renderFaults (faults : List ScanFault) : String :=
  String.join (faults.map fun f => "  • " ++ toString f ++ "\n")

end Table

end SqlConsole
