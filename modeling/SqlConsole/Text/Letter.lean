/-! Character classes of the query language. All are subsets of ASCII: any other character
belongs to none of them. -/
namespace SqlConsole

/-- The four characters that separate lexemes. -/
def isBlank (c : Char) : Bool := c = ' ' || c = '\r' || c = '\t' || c = '\n'

def isDigit (c : Char) : Bool := '0' ≤ c && c ≤ '9'

def isLetter (c : Char) : Bool := ('a' ≤ c && c ≤ 'z') || ('A' ≤ c && c ≤ 'Z')

def isWordStart (c : Char) : Bool := isLetter c || c = '_'

def isWordPart (c : Char) : Bool := isLetter c || isDigit c || c = '_'

/-- The letters `a` to `z` become capitals; every other character stays. -/
def capital (c : Char) : Char :=
  if 'a' ≤ c && c ≤ 'z' then Char.ofNat (c.toNat - 32) else c

/-- The letters `A` to `Z` become small; every other character stays. -/
def small (c : Char) : Char :=
  if 'A' ≤ c && c ≤ 'Z' then Char.ofNat (c.toNat + 32) else c

def capitals (s : String) : String := String.ofList (s.toList.map capital)

def smalls (s : String) : String := String.ofList (s.toList.map small)

def digitValue (c : Char) : Nat := c.toNat - '0'.toNat

/-- The natural number that a run of decimal digits denotes. -/
def decimalValue (digits : List Char) : Nat :=
  digits.foldl (fun n c => 10 * n + digitValue c) 0

end SqlConsole
