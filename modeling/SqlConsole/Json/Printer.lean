import SqlConsole.Json.Basic
import SqlConsole.Json.Numeral

/-! The two written forms of a structured value: one without any space, one with every item
and member on a line of its own, indented by two spaces a level. -/
namespace SqlConsole

/-- A digit of base sixteen in small letters. -/
def hexDigit (n : Nat) : Char := Nat.digitChar (n % 16)

namespace Json

/-- Quote marks, backslashes and control characters below the space are escaped, the common
ones by a letter; everything else stands for itself. -/
def escapeChar (c : Char) : List Char :=
  if c = '"' then ['\\', '"']
  else if c = '\\' then ['\\', '\\']
  else if c = '\n' then ['\\', 'n']
  else if c = '\r' then ['\\', 'r']
  else if c = '\t' then ['\\', 't']
  else if c = '\x08' then ['\\', 'b']
  else if c = '\x0c' then ['\\', 'f']
  else if c.toNat < 32 then ['\\', 'u', '0', '0', hexDigit (c.toNat / 16), hexDigit c.toNat]
  else [c]

def quote (s : String) : List Char := '"' :: (s.toList.flatMap escapeChar ++ ['"'])

/-- Infinities and other non-numbers are written as `null`. -/
def numeral (x : Binary64) : List Char :=
  if x.isFinite then Numeral.ofBinary64 x else "null".toList

def booleanText (b : Bool) : List Char := if b then "true".toList else "false".toList

mutual

/-- The form without spaces. -/
def compact : Json → List Char
  | null => "null".toList
  | boolean b => booleanText b
  | natural n => Nat.toDigits 10 n
  | real x => numeral x
  | string s => quote s
  | array items => '[' :: (compactItems items ++ [']'])
  | object members => '\x7b' :: (compactMembers members ++ ['\x7d'])

def compactItems : List Json → List Char
  | [] => []
  | [x] => compact x
  | x :: rest => compact x ++ ',' :: compactItems rest

def compactMembers : List (String × Json) → List Char
  | [] => []
  | [(key, x)] => quote key ++ ':' :: compact x
  | (key, x) :: rest => quote key ++ ':' :: (compact x ++ ',' :: compactMembers rest)

end

/-- A new line at the given depth. -/
def newline (depth : Nat) : List Char := '\n' :: List.replicate (2 * depth) ' '

mutual

/-- The form with line breaks, for a value that stands at the given depth. -/
def pretty (depth : Nat) : Json → List Char
  | null => "null".toList
  | boolean b => booleanText b
  | natural n => Nat.toDigits 10 n
  | real x => numeral x
  | string s => quote s
  | array [] => ['[', ']']
  | array (x :: rest) =>
    '[' :: (newline (depth + 1) ++ pretty (depth + 1) x ++ prettyItems (depth + 1) rest ++
      newline depth ++ [']'])
  | object [] => ['\x7b', '\x7d']
  | object ((key, x) :: rest) =>
    '\x7b' :: (newline (depth + 1) ++ quote key ++ ':' :: ' ' :: pretty (depth + 1) x ++
      prettyMembers (depth + 1) rest ++ newline depth ++ ['\x7d'])

/-- Items behind the first one. -/
def prettyItems (depth : Nat) : List Json → List Char
  | [] => []
  | x :: rest => ',' :: (newline depth ++ pretty depth x ++ prettyItems depth rest)

/-- Members behind the first one. -/
def prettyMembers (depth : Nat) : List (String × Json) → List Char
  | [] => []
  | (key, x) :: rest =>
    ',' :: (newline depth ++ quote key ++ ':' :: ' ' :: pretty depth x ++
      prettyMembers depth rest)

end

end Json

end SqlConsole
