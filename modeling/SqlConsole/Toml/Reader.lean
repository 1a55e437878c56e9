import SqlConsole.Toml.Quoted
import SqlConsole.Toml.Scalar

/-! Reading a configuration document. A document is a list of statements, one a line: headers
that choose a table, and keys with values for the table chosen last. A text that is not a
document gives nothing; which of its faults comes first does not matter. -/
namespace SqlConsole

namespace Toml

namespace Reader

def skipBlanks (text : List Char) : List Char := text.dropWhile isBlankChar

/-- Skips blanks, line ends and comments. A character that a comment may not hold stops it and
is left for the reader of the next item, which refuses it. -/
def skipFiller (inComment : Bool) : List Char → List Char
  | [] => []
  | '\r' :: '\n' :: rest => skipFiller false rest
  | c :: rest =>
    if c = '\n' then skipFiller false rest
    else if inComment then if isPlain c then skipFiller true rest else c :: rest
    else if isBlankChar c then skipFiller false rest
    else if c = '#' then skipFiller true rest
    else c :: rest

/-- What follows the end of a line that holds nothing more but blanks and a comment. -/
def lineEnd? (text : List Char) : Option (List Char) :=
  let behind := match skipBlanks text with
    | '#' :: comment => comment.dropWhile isPlain
    | other => other
  match behind with
  | [] => some []
  | '\n' :: rest => some rest
  | '\r' :: '\n' :: rest => some rest
  | _ => none

def isBareKeyChar (c : Char) : Bool := isLetter c || isDigit c || c = '_' || c = '-'

def keyPart? (text : List Char) : Option (String × List Char) :=
  match text with
  | '"' :: rest => (Quoted.basic? rest).map fun (body, behind) => (String.ofList body, behind)
  | '\'' :: rest => (Quoted.literal? rest).map fun (body, behind) => (String.ofList body, behind)
  | text =>
    match text.takeWhile isBareKeyChar with
    | [] => none
    | name => some (String.ofList name, text.dropWhile isBareKeyChar)

/-- The parts of a key joined by dots, and what follows behind blanks. At most `limit` parts
are read. -/
def key? : Nat → List Char → Option (List String × List Char)
  | 0, _ => none
  | limit + 1, text => do
    let (part, rest) ← keyPart? (skipBlanks text)
    match skipBlanks rest with
    | '.' :: behind =>
      let (parts, behind) ← key? limit behind
      return (part :: parts, behind)
    | behind => return ([part], behind)

def isScalarChar (c : Char) : Bool :=
  isLetter c || isDigit c || c = '_' || c = '-' || c = '+' || c = '.' || c = ':'

/-- An unquoted value. A date may be followed by one space and a time. -/
def scalar? (text : List Char) : Option (Value × List Char) :=
  let word := text.takeWhile isScalarChar
  match Moment.isDate word, text.dropWhile isScalarChar with
  | true, ' ' :: c :: rest =>
    if isDigit c then
      let whole := word ++ ' ' :: (c :: rest).takeWhile isScalarChar
      (Scalar.value? whole).map fun value => (value, (c :: rest).dropWhile isScalarChar)
    else (Scalar.value? word).map fun value => (value, ' ' :: c :: rest)
  | _, rest => (Scalar.value? word).map fun value => (value, rest)

/-- How deep arrays and inline tables may be nested. -/
def depthLimit : Nat := 80

mutual

/-- A value at a given depth of nesting. `fuel` bounds the number of reading steps. -/
def value? (fuel depth : Nat) (text : List Char) : Option (Value × List Char) :=
  match fuel with
  | 0 => none
  | fuel + 1 =>
    match text with
    | '[' :: rest =>
      if depth < depthLimit then do
        let (items, rest) ← items? fuel (depth + 1) rest
        return (.array items, rest)
      else none
    | '\x7b' :: rest =>
      if depth < depthLimit then do
        let (entries, rest) ← members? fuel (depth + 1) [] rest
        return (.table .inline entries, rest)
      else none
    | '"' :: _ | '\'' :: _ =>
      (Quoted.string? text).map fun (body, behind) => (.string body, behind)
    | text => scalar? text

/-- The items of an array up to its closing bracket. A comma may follow the last one. -/
def items? (fuel depth : Nat) (text : List Char) : Option (List Value × List Char) :=
  match fuel with
  | 0 => none
  | fuel + 1 =>
    match skipFiller false text with
    | ']' :: rest => some ([], rest)
    | start => do
      let (item, rest) ← value? fuel depth start
      match skipFiller false rest with
      | ']' :: rest => return ([item], rest)
      | ',' :: rest =>
        let (items, rest) ← items? fuel depth rest
        return (item :: items, rest)
      | _ => none

/-- The members of an inline table up to its closing brace, added to those already read. A
comma may follow the last one. -/
def members? (fuel depth : Nat) (entries : Entries) (text : List Char) :
    Option (Entries × List Char) :=
  match fuel with
  | 0 => none
  | fuel + 1 =>
    match skipFiller false text with
    | '\x7d' :: rest => some (entries, rest)
    | start => do
      let (path, rest) ← key? start.length start
      match rest with
      | '=' :: rest =>
        let (value, rest) ← value? fuel depth (skipBlanks rest)
        let entries ← entries.insert? path value
        match skipFiller false rest with
        | '\x7d' :: rest => return (entries, rest)
        | ',' :: rest => members? fuel depth entries rest
        | _ => none
      | _ => none

end

inductive Statement where
  | header (path : List String)
  /-- A header that opens one more of some repeated tables. -/
  | rowHeader (path : List String)
  | entry (path : List String) (value : Value)

/-- The statement at the start of a line that holds one, and the following lines. -/
def statement? (text : List Char) : Option (Statement × List Char) :=
  match text with
  | '[' :: '[' :: rest => do
    let (path, rest) ← key? rest.length rest
    match rest with
    | ']' :: ']' :: rest => return (.rowHeader path, ← lineEnd? rest)
    | _ => none
  | '[' :: rest => do
    let (path, rest) ← key? rest.length rest
    match rest with
    | ']' :: rest => return (.header path, ← lineEnd? rest)
    | _ => none
  | text => do
    let (path, rest) ← key? text.length text
    match rest with
    | '=' :: rest =>
      let (value, rest) ← value? (2 * rest.length + 1) 0 (skipBlanks rest)
      return (.entry path value, ← lineEnd? rest)
    | _ => none

/-- The statements of a text of at most `limit` lines. -/
def statements? : Nat → List Char → Option (List Statement)
  | 0, _ => none
  | limit + 1, text =>
    match skipFiller false text with
    | [] => some []
    | start => do
      let (statement, rest) ← statement? start
      return statement :: (← statements? limit rest)

end Reader

end Toml

end SqlConsole
