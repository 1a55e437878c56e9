import SqlConsole.Toml.Quoted

/-! Writing strings of a configuration document. The plainest form that holds the text without
escapes is taken; only a text that no such form holds is written with escapes. -/
namespace SqlConsole

namespace Toml

namespace Writer

/-- Control characters other than the tab and the newline. -/
def isControl (c : Char) : Bool := (c.toNat < 32 && c ≠ '\t' && c ≠ '\n') || c.toNat = 127

/-- Whether `mark` stands nowhere three times in a row. -/
def noTriple (mark : Char) : List Char → Bool
  | a :: b :: c :: rest =>
    !(a = mark && b = mark && c = mark) && noTriple mark (b :: c :: rest)
  | _ => true

inductive Style where
  | basic | literal | basicLines | literalLines
  deriving DecidableEq, Repr

def style (text : List Char) : Style :=
  let control := text.any isControl
  let newline := text.contains '\n'
  let backslash := text.contains '\\'
  if !control && !backslash && !text.contains '"' && !newline then .basic
  else if !control && !text.contains '\'' && !newline then .literal
  else if !control && !backslash && noTriple '"' text then .basicLines
  else if !control && noTriple '\'' text then .literalLines
  else if newline then .basicLines
  else .basic

def hexCapital (n : Nat) : Char :=
  if n % 16 < 10 then Char.ofNat ('0'.toNat + n % 16) else Char.ofNat ('A'.toNat + n % 16 - 10)

/-- A character other than a quote mark and a newline within a basic string. -/
def escapeChar (c : Char) : List Char :=
  if c = '\\' then ['\\', '\\']
  else if c = '\t' then ['\\', 't']
  else if c = '\r' then ['\\', 'r']
  else if c = '\x08' then ['\\', 'b']
  else if c = '\x0c' then ['\\', 'f']
  else if isControl c then ['\\', 'u', '0', '0', hexCapital (c.toNat / 16), hexCapital c.toNat]
  else [c]

def escapeBasic (text : List Char) : List Char :=
  text.flatMap fun c =>
    if c = '"' then ['\\', '"'] else if c = '\n' then ['\\', 'n'] else escapeChar c

/-- Between triple marks newlines stand for themselves, and so do quote marks except every
third one in a row; `quotes` of them stand directly in front. -/
def escapeLines (quotes : Nat) : List Char → List Char
  | [] => []
  | c :: rest =>
    if c = '"' then
      if quotes = 2 then '\\' :: '"' :: escapeLines 0 rest
      else '"' :: escapeLines (quotes + 1) rest
    else if c = '\n' then '\n' :: escapeLines 0 rest
    else escapeChar c ++ escapeLines 0 rest

/-- A text that holds a newline begins on the line after the opening marks. -/
def lineBreak (text : List Char) : List Char := if text.contains '\n' then ['\n'] else []

def string (text : List Char) : List Char :=
  match style text with
  | .basic => '"' :: (escapeBasic text ++ ['"'])
  | .literal => '\'' :: (text ++ ['\''])
  | .basicLines =>
    ['"', '"', '"'] ++ lineBreak text ++ escapeLines 0 text ++ ['"', '"', '"']
  | .literalLines => ['\'', '\'', '\''] ++ lineBreak text ++ text ++ ['\'', '\'', '\'']

def boolean (value : Bool) : List Char := if value then "true".toList else "false".toList

/-- A line that puts a written value under a bare key. -/
def entry (key : String) (value : List Char) : List Char :=
  key.toList ++ " = ".toList ++ value ++ ['\n']

def header (key : String) : List Char := '[' :: (key.toList ++ [']', '\n'])

end Writer

end Toml

end SqlConsole
