import SqlConsole.Text.Space

/-! Collecting the lines of a statement until one ends with a semicolon. -/
namespace SqlConsole

/-- The lines of a statement not yet complete. -/
structure Buffer where
  pending : List String
  deriving DecidableEq, Repr

namespace Buffer

def empty : Buffer := ⟨[]⟩

def isEmpty (b : Buffer) : Bool := b.pending.isEmpty

def endsStatement (line : String) : Bool := line.toList.getLast? = some ';'

/-- Lines joined by newlines. -/
def join (lines : List String) : String := "\n".intercalate lines

/-- Adds a line. A line that ends with a semicolon completes the statement, which is given
out without white space at its ends, unless nothing is left of it; nothing is then pending. -/
def push (b : Buffer) (line : String) : Buffer × Option String :=
  let lines := b.pending ++ [line]
  if endsStatement line then
    let statement := trim (join lines)
    (empty, if statement = "" then none else some statement)
  else (⟨lines⟩, none)

end Buffer

end SqlConsole
