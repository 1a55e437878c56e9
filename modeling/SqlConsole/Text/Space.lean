/-! White space as Unicode defines it, and trimming by it. -/
namespace SqlConsole

/-- The property `White_Space`. -/
def isSpace (c : Char) : Bool :=
  let n := c.toNat
  (0x9 ≤ n && n ≤ 0xd) || n = 0x20 || n = 0x85 || n = 0xa0 || n = 0x1680 ||
    (0x2000 ≤ n && n ≤ 0x200a) || n = 0x2028 || n = 0x2029 || n = 0x202f || n = 0x205f ||
    n = 0x3000

def trimStart (text : List Char) : List Char := text.dropWhile isSpace

def trimEnd (text : List Char) : List Char := (text.reverse.dropWhile isSpace).reverse

/-- The text without white space at both ends. -/
def trim (s : String) : String := String.ofList (trimEnd (trimStart s.toList))

/-- The first run of characters that are not white space, or nothing. -/
def firstWord (s : String) : String :=
  String.ofList ((trimStart s.toList).takeWhile fun c => !isSpace c)

end SqlConsole
